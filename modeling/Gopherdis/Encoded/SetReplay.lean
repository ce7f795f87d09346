/-
`SET` and its propagated form, on two servers side by side. Without a limit the value is stored with the deadline
its options come to; the propagated form stores it with the last of the deadlines, or deletes the key.
-/
import Gopherdis.Encoded.Alongside
import Gopherdis.Propagate.Set

namespace Gopherdis.Encoded

open Lib Codec Object Store Command Traced

variable {S : Settings} {sv : Store.Server} {c c' : Call} {db d : MemDB} {key val name : Bytes} {words : List Bytes}

/-- The deadline a key has now, zero if it has none or is not there. -/
def deadlineAt (db : MemDB) (key : Bytes) (ms : Int) : Int := (db.live key ms).elim 0 deadline

/-- The key holds the value under the deadline. -/
def Holds (db : MemDB) (key : Bytes) (d : MemDB) (obj : Robj) (exp : Int) : Prop :=
  ∃ t, Leaves db key d (some t) ∧ t.obj = obj ∧ deadline t = exp

lemma holds_storeTimed (x : Expiry) {obj : Robj} : (storeTimed (S.under sv.unlimited) c x key obj).Ends db fun _ d =>
      Holds db key d obj (x.deadline c.now ((db.lookup key).elim 0 deadline)) := by
  have hstore : ∀ exp, (MemM.store sv.unlimited key obj exp : MemM S.E Bool).Ends db fun _ d =>
      Leaves db key d (some ⟨obj, exp⟩) := by
    intro exp
    unfold Traced.Ends after ops
    exact leaves_replace db key _
  unfold storeTimed Expiry.deadline
  cases x.ttl with
  | some ttl => exact (hstore _).bind fun _ _ h => ⟨_, h, rfl, rfl⟩
  | none =>
  split_ifs
  · refine (hstore none).bind fun _ d1 h1 => MemM.ends_setExpireAt.bind fun _ d2 h2 => ?_
    have hlive : d1.live key c.now.ms = some ⟨obj, none⟩ := MemDB.live_eq_some.2 ⟨h1.here, rfl⟩
    have h2 := h2.2
    rw [hlive] at h2
    exact ⟨_, h1.trans h2, rfl, rfl⟩
  · refine ⟨_, leaves_replace db key _, rfl, ?_⟩
    cases db.lookup key <;> rfl
  · exact (hstore none).bind fun _ _ h => ⟨_, h, rfl, rfl⟩

/-- What a `SET` with these options does. -/
def SetDone (S : Settings) (c : Call) (db : MemDB) (key val : Bytes) (o : SetOpts) (a : Answer) (d : MemDB) : Prop :=
  match setDecision (c.context S) o ((db.live key c.now.ms).map fun s => s.obj.val) with
  | .leave reply override => a = ⟨reply, override⟩ ∧ Looked c.now db key d
  | .write reply => a = ⟨reply, none⟩ ∧
      Holds db key d (tryEncodeString val) (o.expiry.deadline c.now (deadlineAt db key c.now.ms))

lemma setDone {o : SetOpts} (ho : setOptions words {} = .ok o) (hc : ¬ o.conflict) :
    (setCommand (S.under sv.unlimited) c (name :: key :: val :: words)).Ends db (SetDone S c db key val o) := by
  have hc' : ¬ ((o.nx ∧ o.xx) ∨ (o.compare.isSome ∧ (o.nx ∨ o.xx))) := hc
  unfold setCommand
  simp only [List.getD_cons_succ, List.getD_cons_zero, List.drop_succ_cons, List.drop_zero, ho, if_neg hc']
  refine MemM.ends_get.bind fun r d h => ?_
  obtain ⟨rfl, h⟩ := h
  have hold : ((db.live key c.now.ms).map Slot.obj).map Robj.val = (db.live key c.now.ms).map fun s => s.obj.val :=
    Option.map_map ..
  have hctx : c.context (S.under sv.unlimited) = c.context S := rfl
  unfold SetDone
  rw [hold, hctx]
  cases setDecision (c.context S) o ((db.live key c.now.ms).map fun s => s.obj.val) with
  | leave reply override => exact ⟨rfl, h⟩
  | write reply =>
    refine (holds_storeTimed o.expiry).bind fun _ d1 h1 => ⟨rfl, ?_⟩
    obtain ⟨t, ht, hobj, hd⟩ := h1
    rw [h.here] at hd
    exact ⟨t, h.trans ht, hobj, hd⟩

lemma set_refused (h : ∀ o, setOptions words {} = .ok o → o.conflict) :
    (setCommand S c (name :: key :: val :: words)).Ends db fun a d => succeeded a.reply = false ∧ d = db := by
  unfold setCommand
  simp only [List.drop_succ_cons, List.drop_zero]
  cases ho : setOptions words {} with
  | error e => exact ⟨setOptions_error ho, rfl⟩
  | ok o =>
    have hc : (o.nx ∧ o.xx) ∨ (o.compare.isSome ∧ (o.nx ∨ o.xx)) := h o ho
    simp only [if_pos hc]
    exact ⟨rfl, rfl⟩

/-! ## The propagated form -/

/-- The deadline the propagated form comes to, where the key has `old`; none if it is a deletion. -/
def replayedDeadline (now now' : Clock) (words : List Bytes) (keep : Bool) (old : Int) : Option Int :=
  if ∃ d ∈ absDeadlines now.ms words, d ≤ now.ms then none
  else some (Expiry.deadline ⟨none, (absDeadlines now.ms words).getLast?.getD 0, keep⟩ now' old)

lemma ends_delOne : (delCommand S c [name, key]).Ends db fun _ d => Leaves db key d none := by
  have hall : (delAll S c [key]).Ends db fun _ d => Leaves db key d none := MemM.ends_del.bind fun _ _ h => h
  exact hall.bind fun _ _ h => h

lemma ends_replay_del : (runCommand commandTable S c [ascii "DEL", key]).Ends db fun _ d => Leaves db key d none := by
  exact ends_delOne.bind fun _ _ h => h

lemma ends_replay_serverDel {E : Env} :
    (runCommand commandTable S c [serverDelVerb E, key]).Ends db fun _ d => Leaves db key d none := by
  unfold serverDelVerb
  split_ifs
  · exact ends_delOne.bind fun _ _ h => h
  · exact ends_replay_del

lemma ends_replay_set {o : SetOpts} (hname : toLowerASCII name = ascii "set") (ho : setOptions words {} = .ok o) :
    (runCommand commandTable (S.under sv.unlimited) c' (normalizeSet S.E c.now.ms (name :: key :: val :: words))).Ends db
      fun _ d => (replayedDeadline c.now c'.now words o.expiry.keepTTL (deadlineAt db key c'.now.ms)).elim
        (Leaves db key d none) (Holds db key d (tryEncodeString val)) := by
  obtain ⟨keep, hkeep, hform⟩ := normalizeSetWords_form c.now.ms ho
  obtain rfl : o.expiry.keepTTL = keep := by simpa using hkeep
  unfold normalizeSet replayedDeadline
  dsimp only
  generalize normalizeSetWords c.now.ms words = f at hform ⊢
  cases hform with
  | delete d hmem hpast =>
    rw [if_pos ⟨d, hmem, hpast⟩]
    exact ends_replay_serverDel
  | args out hall hread =>
  have hnone : ¬ ∃ d ∈ absDeadlines c.now.ms words, d ≤ c.now.ms := by
    rintro ⟨d, hmem, hpast⟩
    exact absurd (hall d hmem) (not_lt.2 hpast)
  have hfound : findHandler commandTable name = some ⟨ascii "set", -3, setCommand⟩ := by
    rw [findHandler, hname]
    rfl
  have hread := hread {}
  have harity : Handler.arityOk ⟨ascii "set", -3, setCommand⟩ (name :: key :: val :: out).length = true := by
    simp [Handler.arityOk]
    omega
  rw [if_neg hnone, runCommand_eq hfound (List.cons_ne_nil _ _) harity]
  refine (setDone hread (by simp [SetOpts.conflict])).mono fun a d hdone => ?_
  unfold SetDone at hdone
  simpa using hdone.2

/-! ## Side by side -/

/-- A deadline, unless it is past. -/
def current (ms : Int) (exp : Option Int) : Option Int := exp.filter fun e => !(decide (e ≠ 0) && decide (e ≤ ms))

lemma shownSlot_current {t : Slot} (ms : Int) :
    shownSlot ms (some t) = (current ms (some (deadline t))).map fun e => (t.obj, e) := by
  rw [current, Option.filter_some, ← expired_eq]
  cases hx : t.expired ms with
  | true => exact shownSlot_expired hx
  | false => exact shownSlot_some hx

/-- A `SET` that did not write is not propagated, and for one that did the propagated form comes to the deadline
that the options came to. -/
def FaithfulSet (S : Settings) (c c' : Call) (db : MemDB) (argv : Argv) : Prop :=
  let key := argv.getD 1 []
  let old := deadlineAt db key c.now.ms
  ∀ o, setOptions (argv.drop 3) {} = .ok o → ¬ o.conflict →
    match setDecision (c.context S) o ((db.live key c.now.ms).map fun s => s.obj.val) with
    | .leave reply override => succeeded reply = true → override ≠ none
    | .write _ => current c'.now.ms (replayedDeadline c.now c'.now (argv.drop 3) o.expiry.keepTTL old) =
        current c'.now.ms (some (o.expiry.deadline c.now old))

lemma Beside.deadlineAt {r : MemDB} (h : Beside c.now.ms c'.now.ms db r) (key : Bytes) :
    deadlineAt r key c'.now.ms = deadlineAt db key c.now.ms := by
  unfold Encoded.deadlineAt
  rcases h.live_cases key with ⟨hn, hn'⟩ | ⟨s, s', hs, hs', -, hd⟩
  · rw [hn, hn']
  · rw [hs, hs']
    exact hd.symm

lemma shown_replayed {r r' : MemDB} {obj : Robj} {exp : Int} {exp' : Option Int} {ms : Int}
    (h : ∀ k, shown db k ms = shown r k ms) (hd : Holds db key d obj exp)
    (hr : exp'.elim (Leaves r key r' none) (Holds r key r' obj)) (hexp : current ms exp' = current ms (some exp))
    (k : Bytes) : shown d k ms = shown r' k ms := by
  obtain ⟨t, ht, hobj, rfl⟩ := hd
  have hshown := @shownSlot_current t ms
  rw [← hexp, hobj] at hshown
  cases exp' with
  | none => exact shown_change h ht hr hshown k
  | some e =>
    obtain ⟨t', ht', hobj', rfl⟩ := hr
    refine shown_change h ht ht' (hshown.trans ?_) k
    rw [shownSlot_current, hobj']

end Gopherdis.Encoded

/-
Replaying `SET`, `SETEX` and `PSETEX`. A `SET` that was refused for `NX` or `XX` is propagated like one
that was not, without its condition; a `SET` with several deadline options is replayed with the last
of them, whatever the handler went by.
-/
import Gopherdis.Propagate.SetForm

namespace Gopherdis.Command

open Lib Codec Object Store List

/-! ## The replay -/

/-- The entry the propagated form of a `SET` leaves at the key, if it is no deletion. -/
def setReplayed (now now' : Clock) (db : Keyspace) (key val : Bytes) (words : List Bytes) (keep : Bool) : Option Entry :=
  if ∃ d ∈ absDeadlines now.ms words, d ≤ now.ms then none
  else some ⟨.str val, Expiry.deadline ⟨none, (absDeadlines now.ms words).getLast?.getD 0, keep⟩ now'
    (deadlineOf (db.live key now'.ms))⟩

lemma setCmd_arity (name key val : Bytes) (words : List Bytes) :
    setCmd.arityOk (name :: key :: val :: words).length = true := by
  simp [Command.arityOk, setCmd, writeCmd]
  omega

lemma setDecision_plain (ctx : Context) (x : Expiry) (old : Option Value) :
    setDecision ctx ⟨x, false, false, false, none⟩ old = .write ok := by
  unfold setDecision
  simp

lemma replay_set (E : Env) (now : Clock) (db : Keyspace) {name key val : Bytes} {words : List Bytes} {x : Expiry}
    (hl : baseTable.lookup name = some setCmd) (ho : setOptions words {} = .ok ⟨x, false, false, false, none⟩) :
    Becomes db key (replayOne E now baseTable db (name :: key :: val :: words))
      (some ⟨.str val, x.deadline now (deadlineOf (db.live key now.ms))⟩) := by
  rw [replayOne_eq hl (setCmd_arity ..) (cons_ne_nil _ _) rfl]
  obtain ⟨-, hget⟩ := get_spec db now key
  simp only [setCommand, getD_cons_succ, getD_cons_zero, drop_succ_cons, drop_zero, ho,
    setDecision_plain, replayContext]
  have hstore := x.store_spec now key val (db.get now key).1
  rw [hget.at_key] at hstore
  exact hget.trans hstore

variable {ctx : Context} {now' : Clock} {db : Keyspace} {name key val : Bytes} {words : List Bytes} {o : SetOpts}

lemma replay_normalizeSet (hl : baseTable.lookup name = some setCmd)
    (ho : setOptions words {} = .ok o) (E : Env) (now : Clock) :
    Shows db key now'.ms (replayOne E now' baseTable db (normalizeSet E now.ms (name :: key :: val :: words)))
      (liveEntry now'.ms (setReplayed now now' db key val words o.expiry.keepTTL)) := by
  obtain ⟨keep, hkeep, hform⟩ := normalizeSetWords_form now.ms ho
  obtain rfl : o.expiry.keepTTL = keep := by simpa using hkeep
  unfold normalizeSet setReplayed
  simp only
  generalize normalizeSetWords now.ms words = f at hform ⊢
  cases hform with
  | delete d hmem hpast =>
    rw [if_pos ⟨d, hmem, hpast⟩]
    exact replay_serverDel E now' db key _
  | args out hall hread =>
    rw [if_neg (by rintro ⟨d, hmem, hpast⟩; exact absurd (hall d hmem) (not_lt.2 hpast))]
    exact Becomes.shows (replay_set E now' db hl ((hread {}).trans (by simp))) _

/-! ## SET -/

lemma setOptions_error {words : List Bytes} {e : Bytes} (h : setOptions words o = .error e) : succeeded e = false := by
  fun_induction setOptions words o
  case case1 => cases h
  case case2 | case3 | case4 | case10 | case11 | case12 => cases h; rfl
  case case5 ih | case6 ih | case7 ih | case8 ih | case9 ih | case13 ih => exact ih h

/-- Options that exclude each other. -/
def SetOpts.conflict (o : SetOpts) : Prop := (o.nx ∧ o.xx) ∨ (o.compare.isSome ∧ (o.nx ∨ o.xx))

lemma setDecision_leave {old : Option Value} {reply : Bytes} {override : Option (Option Argv)}
    (h : setDecision ctx o old = .leave reply override) : override = none ∨ override = some none := by
  unfold setDecision at h
  simp only at h
  (repeat' split at h) <;> cases h <;> simp

lemma setDecision_write {old : Option Value} {reply : Bytes}
    (h : setDecision ctx o old = .write reply) : succeeded reply = true := by
  unfold setDecision at h
  simp only at h
  (repeat' split at h) <;> cases h <;> (try rfl) <;> simp_all

lemma setCommand_reads (ho : setOptions words {} = .ok o) (hc : ¬ o.conflict) :
    setCommand ctx (name :: key :: val :: words) db =
      match setDecision ctx o ((db.live key ctx.now.ms).map Entry.val) with
      | .leave reply override => ⟨(db.get ctx.now key).1, reply, override⟩
      | .write reply => ⟨o.expiry.store ctx.now key val (db.get ctx.now key).1, reply, none⟩ := by
  have hc' : ¬ ((o.nx ∧ o.xx) ∨ (o.compare.isSome ∧ (o.nx ∨ o.xx))) := hc
  have hget := (get_spec db ctx.now key).1
  cases hd : setDecision ctx o ((db.live key ctx.now.ms).map Entry.val) with
  | leave | write =>
    simp [setCommand, drop_succ_cons, drop_zero, ho, if_neg hc', hget, hd]

/-- When a `SET` with these options is replayed. A refused one that is propagated all the same must not
show: the old value has run out by `now'`, or the propagated form leaves the same, or where there was
none nothing that is still live. One that wrote is replayed if what it wrote has run out, or the
propagated form leaves the same. -/
def SetOpts.safe (o : SetOpts) (ctx : Context) (now' : Clock) (db : Keyspace) (key val : Bytes) (words : List Bytes) :
    Prop :=
  match setDecision ctx o ((db.live key ctx.now.ms).map Entry.val) with
  | .leave reply override => succeeded reply = true → override = none →
      (db.live key ctx.now.ms).any (·.expired now'.ms) = true ∨
        liveEntry now'.ms (setReplayed ctx.now now' db key val words o.expiry.keepTTL) = db.live key ctx.now.ms
  | .write _ =>
      let written : Entry := ⟨.str val, o.expiry.deadline ctx.now (deadlineOf (db.live key ctx.now.ms))⟩
      written.expired now'.ms = true ∨ setReplayed ctx.now now' db key val words o.expiry.keepTTL = some written

def SetSafe (ctx : Context) (now' : Clock) (db : Keyspace) (key val : Bytes) (words : List Bytes) : Prop :=
  ∀ o, setOptions words {} = .ok o → ¬ o.conflict → o.safe ctx now' db key val words

lemma set_replayed_iff (hsinks : ctx.sinks = true) (hle : ctx.now.ms ≤ now'.ms)
    (hl : baseTable.lookup name = some setCmd) :
    Replayed setCmd setCommand ctx now' (name :: key :: val :: words) db ↔ SetSafe ctx now' db key val words := by
  have hle' : (ctx.now.ms : Int) ≤ now'.ms := by exact_mod_cast hle
  obtain ⟨-, hget⟩ := get_spec db ctx.now key
  unfold SetSafe
  rcases ho : setOptions words {} with e | o
  · have hout : setCommand ctx (name :: key :: val :: words) db = ⟨db, e, none⟩ := by
      simp [setCommand, drop_succ_cons, drop_zero, ho]
    exact iff_of_true (replayed_error hout (setOptions_error ho) rfl) (by simp)
  simp only [Except.ok.injEq, forall_eq']
  by_cases hc : o.conflict
  · have hc' : (o.nx ∧ o.xx) ∨ (o.compare.isSome ∧ (o.nx ∨ o.xx)) := hc
    have hout : setCommand ctx (name :: key :: val :: words) db = ⟨db, syntaxError, none⟩ := by
      simp [setCommand, drop_succ_cons, drop_zero, ho, if_pos hc']
    exact iff_of_true (replayed_error hout rfl rfl) (absurd hc)
  have hout := @setCommand_reads ctx db name key val words o ho hc
  have hp : ∀ reply, succeeded reply = true → propagated ctx setCmd (name :: key :: val :: words) reply none =
      some (normalizeSet ctx.E ctx.now.ms (name :: key :: val :: words)) := fun reply hs =>
    propagated_success rfl hsinks hs none
  have hshows := @replay_normalizeSet now' db name key val words o hl ho ctx.E ctx.now
  rw [forall_prop_of_true hc, SetOpts.safe]
  rcases hd : setDecision ctx o ((db.live key ctx.now.ms).map Entry.val) with ⟨reply, override⟩ | reply
  · rw [hd] at hout
    by_cases hfed : succeeded reply = true ∧ override = none
    · obtain ⟨hs, rfl⟩ := hfed
      rw [replayed_fed hout (hp reply hs) hget hshows]
      exact ⟨fun h _ _ => h, fun h => h hs rfl⟩
    -- nothing is propagated
    have hnone : propagated ctx setCmd (name :: key :: val :: words) reply override = none := by
      cases hs : succeeded reply with
      | false => exact propagated_error hs override
      | true =>
        obtain rfl | rfl := setDecision_leave hd
        · exact absurd ⟨hs, rfl⟩ hfed
        · exact propagated_success rfl hsinks hs (some none)
    rw [replayed_not_fed hout hnone]
    exact ⟨fun _ hs ho => absurd ⟨hs, ho⟩ hfed, fun _ => agrees_live hle' hget⟩
  · rw [hd] at hout
    have hstore := o.expiry.store_spec ctx.now key val (db.get ctx.now key).1
    rw [hget.at_key] at hstore
    rw [replayed_fed hout (hp reply (setDecision_write hd)) (hget.trans hstore) hshows, expired_or_shown_iff]

/-! ## SETEX, PSETEX -/

/-- When a `SETEX` is replayed: the deadline it set has passed by `now'`, or it is the one that is
propagated. -/
def SetexSafe (x : ExpireOpt) (unit : Int) (now now' : Clock) (num : Bytes) : Prop :=
  ∀ n, parseInt num = some n → ¬ (n ≤ 0 ∨ ¬ validExpireMillis ((wrap64 (n * unit)).tdiv (10 ^ 6))) →
    ((now.ns + wrap64 (n * unit)) / 10 ^ 6 ≠ 0 ∧ (now.ns + wrap64 (n * unit)) / 10 ^ 6 ≤ now'.ms) ∨
      (now.ns + wrap64 (n * unit)) / 10 ^ 6 = max (x.absMs now.ms n) 0

lemma setex_replayed_iff {c : Command} {x : ExpireOpt} {unit : Int} {num : Bytes} (hsinks : ctx.sinks = true)
    (hw : c.isWrite = true) (hnorm : ∀ argv reply, normalizeForPropagation ctx.E ctx.now.ms c.name argv reply =
      some (normalizeSetex x ctx.now.ms argv)) :
    Replayed c (setexGeneric unit) ctx now' [name, key, num, val] db ↔ SetexSafe x unit ctx.now now' num := by
  unfold SetexSafe
  rcases hn : parseInt num with _ | n
  · have hout : setexGeneric unit ctx [name, key, num, val] db = ⟨db, notAnInteger, none⟩ := by
      simp only [setexGeneric, getD_cons_succ, getD_cons_zero, hn]
    exact iff_of_true (replayed_error hout rfl rfl) (by simp)
  simp only [Option.some.injEq, forall_eq']
  by_cases hr : n ≤ 0 ∨ ¬ validExpireMillis ((wrap64 (n * unit)).tdiv (10 ^ 6))
  · have hout : setexGeneric unit ctx [name, key, num, val] db = ⟨db, invalidExpire "setex", none⟩ := by
      simp only [setexGeneric, getD_cons_succ, getD_cons_zero, hn, if_pos hr]
    exact iff_of_true (replayed_error hout rfl rfl) (absurd hr)
  have hout : setexGeneric unit ctx [name, key, num, val] db =
      ⟨db.setWithExpire ctx.now key (.str val) (wrap64 (n * unit)), ok, none⟩ := by
    simp only [setexGeneric, getD_cons_succ, getD_cons_zero, hn, if_neg hr]
  have hp : propagated ctx c [name, key, num, val] ok none =
      some [ascii "SET", key, val, ascii "PXAT", formatInt (x.absMs ctx.now.ms n)] := by
    rw [propagated_success hw hsinks rfl, Option.getD_none, hnorm, normalizeSetex, hn]
  have hint := x.absMs_inInt64 ctx.now.ms (parseInt_inInt64 hn)
  have ho : setOptions [ascii "PXAT", formatInt (x.absMs ctx.now.ms n)] {} =
      .ok ⟨⟨none, x.absMs ctx.now.ms n, false⟩, false, false, false, none⟩ := by
    rw [setOptions_pxat (by decide) (parseInt_formatInt hint)]
    rfl
  have hreplay := Becomes.shows (@replay_set ctx.E now' db (ascii "SET") key val _ _ rfl ho) now'.ms
  rw [replayed_fed hout hp (Becomes.insert db key _) hreplay, expired_or_shown_iff]
  have hmax : Expiry.deadline ⟨none, x.absMs ctx.now.ms n, false⟩ now' (deadlineOf (db.live key now'.ms)) =
      max (x.absMs ctx.now.ms n) 0 := by
    simp only [Expiry.deadline, Bool.false_eq_true, if_false]
    split_ifs <;> omega
  rw [hmax, forall_prop_of_true hr]
  refine or_congr (by simp [Entry.expired]) ⟨fun heq => ?_, fun heq => by rw [heq]⟩
  exact (congrArg Entry.expireAt (Option.some.inj heq)).symm

end Gopherdis.Command

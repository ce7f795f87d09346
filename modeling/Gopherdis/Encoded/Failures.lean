/-
What an error leaves behind. Most handlers check everything before they change anything. `GETEX` applies
its options while it reads them, `GEOADD`, `XADD` and `XGROUP CREATE` make their collection first, and
`RESTORE` may have had keys evicted for a value that is refused in the end.
-/
import Gopherdis.Encoded.Moves
import Gopherdis.Encoded.Streams
import Gopherdis.Encoded.Table
import Gopherdis.Propagate.Set

namespace Gopherdis.Encoded

open Lib Codec Object Store Command Gopherdis.Stream Traced MemDB

variable {S : Settings} {c : Call} {db db' db1 : MemDB} {key : Bytes} {obj : Robj} {now : Clock} {argv : Argv}
variable {reply : Bytes}

/-! ## Keys that had to go -/

section
variable (S now db key obj)

/-- A key that was not past its deadline is evicted to make room for the value. -/
def Evicts : Prop := ∃ k, (db.live k now.ms).isSome = true ∧ (afterEviction S key obj db).lookup k = none

end

lemma Idle.present {k : Bytes} (h : Idle now db db') (hk : (db.live k now.ms).isSome = true) : db'.lookup k ≠ none := by
  intro hn
  obtain ⟨s, hs⟩ := Option.isSome_iff_exists.1 hk
  obtain ⟨hl, hx⟩ := live_eq_some.1 hs
  rcases h k with hsame | ⟨hexp, -⟩
  · rw [contents_of_lookup hl, contents, hn] at hsame
    cases hsame
  · rw [isExpired, hl, Option.any_some, hx] at hexp
    cases hexp

lemma idle_of_thinned (h : Thinned db db') (hlive : ∀ k, (db.live k now.ms).isSome = true → db'.lookup k ≠ none) :
    Idle now db db' := by
  intro k
  rcases h k with hk | hk
  · exact .inl (contents_congr hk)
  by_cases hx : db.isExpired now k = true
  · exact .inr ⟨hx, hk⟩
  refine .inl (contents_congr (hk.trans ?_))
  by_contra hl
  refine hlive k ?_ hk
  rw [live_of_not_isExpired hx]
  exact Option.isSome_iff_ne_none.2 fun h => hl h.symm

lemma idle_afterEviction_iff : Idle now db (afterEviction S key obj db) ↔ ¬ Evicts S db key obj now := by
  constructor
  · rintro hidle ⟨k, hk, hgone⟩
    exact hidle.present hk hgone
  · exact fun h => idle_of_thinned (afterEviction_thinned S key obj db) fun k hk hgone => h ⟨k, hk, hgone⟩

/-! ## Collections that were made -/

lemma deadline_ne_zero_of_expired {t : Slot} {ms : Int} (h : t.expired ms = true) : deadline t ≠ 0 := by
  obtain ⟨e, he, hx⟩ := (Option.any_eq_true _ _).1 h
  rw [deadline, he, Option.getD_some]
  simp only [ne_eq, Bool.and_eq_true, decide_eq_true_eq] at hx
  exact hx.1

lemma idle_made_iff (hn : db.live key now.ms = none)
    (hframe : ∀ k, k ≠ key → db'.lookup k = (afterEviction S key obj (afterGet S db key now)).lookup k)
    (hexp : ∀ s, db'.lookup key = some s → s.exp = none) :
    Idle now db db' ↔ ¬ ((db'.lookup key).isSome = true ∨ Evicts S (afterGet S db key now) key obj now) := by
  have hget : Looked now db key (afterGet S db key now) := looked_afterGet
  have hlive : ∀ k, k ≠ key → (afterGet S db key now).live k now.ms = db.live k now.ms := by
    intro k hk
    rw [live, live, hget.frame k hk]
  constructor
  · rintro hidle (hsome | ⟨k, hk, hgone⟩)
    · obtain ⟨s, hs⟩ := Option.isSome_iff_exists.1 hsome
      rcases hidle key with hsame | ⟨-, hgone⟩
      · -- What was there had run out, so it had a deadline.
        rw [contents_of_lookup hs, deadline, hexp s hs] at hsame
        obtain ⟨t, ht, hts⟩ := Option.map_eq_some_iff.1 hsame.symm
        have hx : t.expired now.ms = true := by
          by_contra hx
          cases hn.symm.trans (live_eq_some.2 ⟨ht, Bool.eq_false_iff.2 hx⟩)
        exact deadline_ne_zero_of_expired hx (congrArg Prod.snd hts)
      · cases hgone.symm.trans hs
    · have hne : k ≠ key := by
        rintro rfl
        rw [live, hget.here, hn] at hk
        cases hk
      exact hidle.present (hlive k hne ▸ hk) ((hframe k hne).trans hgone)
  · intro h
    have habsent : db'.lookup key = none := Option.not_isSome_iff_eq_none.1 fun hs => h (.inl hs)
    refine idle_of_thinned (fun k => ?_) fun k hk hgone => ?_
    · by_cases hne : k = key
      · exact .inr (hne ▸ habsent)
      · rw [hframe k hne, ← hget.frame k hne]
        exact afterEviction_thinned S key obj _ k
    have hne : k ≠ key := by
      rintro rfl
      rw [hn] at hk
      cases hk
    exact h (.inr ⟨k, (hlive k hne).symm ▸ hk, (hframe k hne).symm.trans hgone⟩)

/-! ## Handlers that check first -/

/-- After an error everything is as it was. -/
abbrev Clean (now : Clock) (db : MemDB) (reply : Bytes) (db' : MemDB) : Prop := succeeded reply = false → Idle now db db'

lemma clean_refl : Clean now db reply db := fun _ _ => .inl rfl

lemma clean_of_ok (h : succeeded reply = true) : Clean now db reply db' :=
  fun he => Bool.noConfusion (h.symm.trans he)

lemma clean_iff_of_error (h : succeeded reply = false) : Clean now db reply db' ↔ Idle now db db' :=
  ⟨fun hc => hc h, fun hi _ => hi⟩

lemma clean_set : (setCommand S c argv).Ends db fun a db' => Clean c.now db a.reply db' := by
  unfold setCommand
  cases setOptions (argv.drop 3) {} with
  | error e => exact clean_refl
  | ok o =>
  simp only
  split_ifs
  · exact clean_refl
  refine MemM.ends_get.bind fun r db1 h1 => ?_
  cases hdec : setDecision (c.context S) o (r.map Robj.val) with
  | leave reply override =>
    have hlooked : Looked c.now db (argv.getD 1 []) db1 := h1.2
    exact fun _ => hlooked.idle
  | write reply => exact ends_self.bind fun _ _ _ => clean_of_ok (setDecision_write hdec)

lemma clean_setex (unit : Int) : (setexGeneric S c unit argv).Ends db (Clean c.now db) := by
  unfold setexGeneric
  cases parseInt (argv.getD 2 []) with
  | none => exact clean_refl
  | some n =>
    simp only
    split_ifs
    · exact clean_refl
    · exact ends_self.bind fun _ _ _ => clean_of_ok rfl

lemma clean_copy : (copyCommand S c argv).Ends db (Clean c.now db) := by
  unfold copyCommand
  cases copyOptions (argv.drop 3) false with
  | error e => exact clean_refl
  | ok replace =>
  simp only
  split_ifs
  · exact clean_refl
  refine ends_read_bind ?_
  cases (db.live (argv.getD 1 []) c.now.ms).map fun s => (s.obj, s.exp.getD 0) with
  | none => exact clean_refl
  | some p =>
  refine ends_read_bind ?_
  split_ifs
  · exact clean_refl
  cases copyObject p.1 with
  | error e => exact clean_refl
  | ok dup => exact ends_self.bind fun _ _ _ => clean_of_ok rfl

/-! ## GETEX -/

/-- The deadlines `GETEX` sets before it comes to an error, if it does. -/
def getexBefore (now : Clock) : List Bytes → Option (List Int)
  | [] => none
  | [word] => if toUpper word = ascii "PERSIST" then none else some []
  | word :: num :: rest =>
    if toUpper word = ascii "PERSIST" then none
    else
      match parseInt num with
      | none => some []
      | some n =>
      match expireOpt? (toUpper word) with
      | none => some []
      | some x =>
        match getexDeadline now x n with
        | none => some []
        | some exp => (getexBefore now rest).map (exp :: ·)

/-- A slot that is given one deadline after the other; one that has run out is gone. -/
def stamped (ms : Int) (slot : Option Slot) (exps : List Int) : Option Slot :=
  exps.foldl (fun slot exp => (slot.filter fun s => !s.expired ms).map fun s => { s with exp := some exp }) slot

/-- The deadlines `before` were set, and then there was an error; or there was none. -/
structure Stamped (now : Clock) (db : MemDB) (key : Bytes) (before : Option (List Int)) (reply : Bytes) (db' : MemDB) :
    Prop where
  fine : succeeded reply = true ↔ before = none
  leaves : ∀ exps, before = some exps → Leaves db key db' (stamped now.ms (db.lookup key) exps)

lemma Stamped.of_ok (h : succeeded reply = true) : Stamped now db key none reply db' where
  fine := iff_of_true h rfl
  leaves _ h := by cases h

lemma Stamped.of_error (h : succeeded reply = false) : Stamped now db key (some []) reply db where
  fine := by simp [h]
  leaves exps hexps := by
    cases hexps
    exact .refl db key

lemma stamped_getexLoop (out : Bytes) (hout : succeeded out = true) : ∀ (words : List Bytes) (db : MemDB),
    (getexLoop S c key out words).Ends db (Stamped c.now db key (getexBefore c.now words))
  | [], db => .of_ok hout
  | [word], db => by
    unfold getexLoop getexBefore
    by_cases hp : toUpper word = ascii "PERSIST"
    · simp only [if_pos hp]
      exact ends_self.bind fun _ _ _ => .of_ok hout
    · simp only [if_neg hp]
      exact .of_error rfl
  | word :: num :: rest, db => by
    unfold getexLoop getexBefore
    by_cases hp : toUpper word = ascii "PERSIST"
    · simp only [if_pos hp]
      exact ends_self.bind fun _ _ _ => .of_ok hout
    simp only [if_neg hp]
    cases parseInt num with
    | none => exact .of_error rfl
    | some n =>
    cases expireOpt? (toUpper word) with
    | none => exact .of_error rfl
    | some x =>
    simp only
    cases getexDeadline c.now x n with
    | none => exact .of_error rfl
    | some exp =>
    refine MemM.ends_setExpireAt.bind fun _ db1 h1 => ?_
    refine (stamped_getexLoop out hout rest db1).mono fun r db' h => ⟨?_, ?_⟩
    · rw [Option.map_eq_none_iff]
      exact h.fine
    intro exps hexps
    obtain ⟨exps, hrest, rfl⟩ := Option.map_eq_some_iff.1 hexps
    have hleaves := h.leaves exps hrest
    rw [h1.2.here] at hleaves
    exact h1.2.trans hleaves

lemma stamped_obj {ms : Int} : ∀ (exps : List Int) {slot : Option Slot} {s t : Slot},
    (∀ s', slot = some s' → s'.obj = s.obj) → stamped ms slot exps = some t → t.obj = s.obj
  | [], _, _, t, h, ht => h t ht
  | exp :: exps, slot, s, t, h, ht => by
    refine stamped_obj exps (fun s' hs' => ?_) ht
    obtain ⟨s1, hs1, rfl⟩ := Option.map_eq_some_iff.1 hs'
    exact h s1 (Option.filter_eq_some_iff.1 hs1).1

lemma idle_iff_of_live {s : Slot} (hs : db.live key now.ms = some s) (hframe : ∀ k, k ≠ key → db'.lookup k = db.lookup k) :
    Idle now db db' ↔ contents db' key = contents db key := by
  obtain ⟨hl, hx⟩ := live_eq_some.1 hs
  constructor
  · intro h
    rcases h key with hsame | ⟨hexp, -⟩
    · exact hsame
    · rw [isExpired, hl, Option.any_some, hx] at hexp
      cases hexp
  · intro h k
    by_cases hk : k = key
    · exact .inl (hk ▸ h)
    · exact .inl (contents_congr (hframe k hk))

/-- `GETEX` has set deadlines before the error, and they do not come to the one there was. -/
def GetexSpoils (c : Call) (db : MemDB) (argv : Argv) : Prop :=
  ∃ s exps, db.live (argv.getD 1 []) c.now.ms = some s ∧ (stringOf s.obj.val).isSome = true ∧
    getexBefore c.now (argv.drop 2) = some exps ∧ (stamped c.now.ms (some s) exps).map deadline ≠ some (deadline s)

lemma clean_getex_iff :
    (getexCommand S c argv).Ends db fun r db' => Clean c.now db r db' ↔ ¬ GetexSpoils c db argv := by
  refine ends_getString_bind ?_ ?_ ?_
  · intro s hs hval
    refine iff_of_true clean_refl ?_
    rintro ⟨s', _, hs', hstr, -⟩
    cases hs.symm.trans hs'
    rw [hval] at hstr
    cases hstr
  · intro db' h hn
    refine iff_of_true (fun _ => h.idle) ?_
    rintro ⟨s', _, hs', -⟩
    cases hn.symm.trans hs'
  · intro b enc exp hs
    refine (stamped_getexLoop (bulkString b) rfl (argv.drop 2) db).mono fun r db' h => ?_
    cases hb : getexBefore c.now (argv.drop 2) with
    | none =>
      refine iff_of_true (clean_of_ok (h.fine.2 hb)) ?_
      rintro ⟨_, exps, -, -, hexps, -⟩
      cases hb.symm.trans hexps
    | some exps =>
    have herror : succeeded r = false := by
      rw [Bool.eq_false_iff]
      intro hr
      cases hb.symm.trans (h.fine.1 hr)
    have hleaves := h.leaves exps hb
    have hl := (live_eq_some.1 hs).1
    rw [hl] at hleaves
    have hsame : contents db' (argv.getD 1 []) = contents db (argv.getD 1 []) ↔
        (stamped c.now.ms (some ⟨⟨.str b, enc⟩, exp⟩) exps).map deadline = some (deadline ⟨⟨.str b, enc⟩, exp⟩) := by
      rw [contents_of_lookup hl, contents, hleaves.here]
      cases ht : stamped c.now.ms (some ⟨⟨.str b, enc⟩, exp⟩) exps with
      | none => simp
      | some t =>
        have hobj := stamped_obj exps (fun s' hs' => by cases hs'; rfl) ht
        simp [hobj]
    rw [clean_iff_of_error herror, idle_iff_of_live hs hleaves.frame, hsame, ← not_iff_not, not_not]
    constructor
    · exact fun hne => ⟨_, exps, hs, rfl, hb, hne⟩
    · rintro ⟨s', exps', hs', -, hexps', hne⟩
      cases hs.symm.trans hs'
      cases hb.symm.trans hexps'
      exact hne

/-! ## RESTORE -/

/-- `RESTORE` has had keys evicted for a value that was refused all the same. -/
def RestoreSpoils (S : Settings) (c : Call) (db : MemDB) (argv : Argv) : Prop :=
  ∃ body ttlMs o v, restoreArgs argv = .ok (body, ttlMs, o) ∧
    (o.replace = true ∨ db.live (argv.getD 1 []) c.now.ms = none) ∧ restoredValue S.E c.now body = some v ∧
    ¬ Fits S (argv.getD 1 []) (loadedObject S.E S.server.listMaxListpackSize v) db ∧
    Evicts S db (argv.getD 1 []) (loadedObject S.E S.server.listMaxListpackSize v) c.now

lemma restoreSpoils_iff {body : Bytes} {ttlMs : Int} {o : RestoreOpts} {v : Value}
    (hargs : restoreArgs argv = .ok (body, ttlMs, o)) (hv : restoredValue S.E c.now body = some v) :
    RestoreSpoils S c db argv ↔ (o.replace = true ∨ db.live (argv.getD 1 []) c.now.ms = none) ∧
      ¬ Fits S (argv.getD 1 []) (loadedObject S.E S.server.listMaxListpackSize v) db ∧
      Evicts S db (argv.getD 1 []) (loadedObject S.E S.server.listMaxListpackSize v) c.now := by
  constructor
  · rintro ⟨_, _, _, _, hargs', hfree, hv', hrefused, he⟩
    cases hargs.symm.trans hargs'
    cases hv.symm.trans hv'
    exact ⟨hfree, hrefused, he⟩
  · rintro ⟨hfree, hrefused, he⟩
    exact ⟨body, ttlMs, o, v, hargs, hfree, hv, hrefused, he⟩

lemma clean_restore_iff :
    (restoreCommand S c argv).Ends db fun r db' => Clean c.now db r db' ↔ ¬ RestoreSpoils S c db argv := by
  unfold restoreCommand
  cases hargs : restoreArgs argv with
  | error e =>
    refine iff_of_true clean_refl ?_
    rintro ⟨_, _, _, _, h, -⟩
    cases hargs.symm.trans h
  | ok p =>
  obtain ⟨body, ttlMs, o⟩ := p
  refine ends_read_bind ?_
  by_cases hbusy : (!o.replace && (db.live (argv.getD 1 []) c.now.ms).isSome) = true
  · rw [if_pos hbusy]
    refine iff_of_true clean_refl ?_
    rintro ⟨_, _, _, _, h, hfree, -⟩
    cases hargs.symm.trans h
    rcases hfree with h | h
    · rw [h] at hbusy
      cases hbusy
    · rw [h, Option.isSome_none, Bool.and_false] at hbusy
      cases hbusy
  rw [if_neg hbusy]
  cases hv : restoredValue S.E c.now body with
  | none =>
    refine iff_of_true clean_refl ?_
    rintro ⟨_, _, _, _, h, -, hsome, -⟩
    cases hargs.symm.trans h
    cases hv.symm.trans hsome
  | some v =>
  have hspoils := @restoreSpoils_iff S c db argv _ _ _ _ hargs hv
  refine ends_self.bind fun stored db1 h1 => ?_
  obtain ⟨rfl, rfl⟩ := h1
  by_cases hf : Fits S (argv.getD 1 []) (loadedObject S.E S.server.listMaxListpackSize v) db
  · have hnot : ¬ RestoreSpoils S c db argv := fun h => (hspoils.1 h).2.1 hf
    rw [if_pos (result_set_iff.2 hf)]
    split_ifs
    · exact ends_self.bind fun _ _ _ => iff_of_true (clean_of_ok rfl) hnot
    · exact ends_self.bind fun _ _ _ => iff_of_true (clean_of_ok rfl) hnot
    · exact iff_of_true (clean_of_ok rfl) hnot
  have hfree : o.replace = true ∨ db.live (argv.getD 1 []) c.now.ms = none := by
    rwa [Bool.not_eq_true, Bool.and_eq_false_iff, Bool.not_eq_false', Option.isSome_eq_false_iff,
      Option.isNone_iff_eq_none] at hbusy
  rw [if_neg fun h => hf (result_set_iff.1 h), after_set_of_not_fits hf]
  refine (clean_iff_of_error rfl).trans (idle_afterEviction_iff.trans (not_congr ?_))
  exact ⟨fun he => hspoils.2 ⟨hfree, hf, he⟩, fun h => (hspoils.1 h).2.2⟩

/-! ## Streams -/

/-- The key gets a new stream, or other keys had to go for it. -/
def StreamMade (S : Settings) (c : Call) (db : MemDB) (key : Bytes) : Prop :=
  Fits S key freshStream (afterGet S db key c.now) ∨ Evicts S (afterGet S db key c.now) key freshStream c.now

section
variable {α : Type} {Q : α → MemDB → Prop} {create : Bool}

lemma ends_getOrCreateStream_bind {f : Except Bytes (Option Found) → MemM S.E α}
    (herror : ∀ s db', db.live key c.now.ms = some s → Looked c.now db key db' → (f (.error wrongType)).Ends db' Q)
    (hnone : ∀ db', db.live key c.now.ms = none → create = false → Looked c.now db key db' → (f (.ok none)).Ends db' Q)
    (hold : ∀ s t db', db.live key c.now.ms = some t → Looked c.now db key db' →
      (f (.ok (some ⟨s, false, true⟩))).Ends db' Q) (hnew : ∀ stored db', db.live key c.now.ms = none → create = true →
      (Idle c.now db db' ↔ ¬ StreamMade S c db key) → (f (.ok (some ⟨newStream, true, stored⟩))).Ends db' Q) :
    (getOrCreateStream S c key create >>= f).Ends db Q := by
  unfold getOrCreateStream
  rw [bind_assoc]
  refine ends_get_exact.bind fun r db1 h1 => ?_
  obtain ⟨rfl, rfl⟩ := h1
  cases hs : db.live key c.now.ms with
  | some s =>
    obtain ⟨⟨val, enc⟩, exp⟩ := s
    cases val with
    | stream st => exact hold st _ _ hs looked_afterGet
    | str | list | hash | set | zset => exact herror _ _ hs looked_afterGet
  | none =>
  cases create with
  | false => exact hnone _ hs rfl looked_afterGet
  | true =>
  simp only [Option.map_none, Bool.not_true, Bool.false_eq_true, if_false, bind_assoc]
  refine ends_make.bind fun stored db2 h2 => ?_
  obtain ⟨hstored, hframe, hhere⟩ := h2
  rw [afterEviction_absent hs] at hhere
  refine hnew stored db2 hs rfl ?_
  have hexp : ∀ s, db2.lookup key = some s → s.exp = none := by
    intro s hs
    rw [hhere] at hs
    split_ifs at hs
    cases hs
    rfl
  have hsome : (db2.lookup key).isSome = true ↔ Fits S key freshStream (afterGet S db key c.now) := by
    rw [hhere, ← hstored]
    cases stored <;> simp
  rw [idle_made_iff hs hframe hexp, hsome]
  rfl

end

/-- `XADD` makes the stream before it reads the ID. -/
def XaddSpoils (S : Settings) (c : Call) (db : MemDB) (argv : Argv) : Prop :=
  ∃ o idStr fieldsRaw, xaddOptions c.now (argv.drop 2) {} = .ok (o, idStr :: fieldsRaw) ∧
    ¬ (fieldsRaw = [] ∨ fieldsRaw.length % 2 ≠ 0) ∧ o.nomkstream = false ∧
    db.live (argv.getD 1 []) c.now.ms = none ∧ parseID c.now.ms idStr zeroID = none ∧ StreamMade S c db (argv.getD 1 [])

lemma xaddStream_new (o : XaddOpts) (id : StreamID) (fieldsRaw : List Bytes) :
    xaddStream o id fieldsRaw newStream ≠ none := by
  exact Option.some_ne_none _

lemma clean_xadd_iff : (xaddCommand S c argv).Ends db fun r db' => Clean c.now db r db' ↔ ¬ XaddSpoils S c db argv := by
  unfold xaddCommand
  cases hopts : xaddOptions c.now (argv.drop 2) {} with
  | error e =>
    refine iff_of_true clean_refl ?_
    rintro ⟨_, _, _, h, -⟩
    cases hopts.symm.trans h
  | ok p =>
  obtain ⟨o, words⟩ := p
  cases words with
  | nil =>
    refine iff_of_true clean_refl ?_
    rintro ⟨_, _, _, h, -⟩
    cases hopts.symm.trans h
  | cons idStr fieldsRaw =>
  simp only
  by_cases hodd : fieldsRaw = [] ∨ fieldsRaw.length % 2 ≠ 0
  · rw [if_pos hodd]
    refine iff_of_true clean_refl ?_
    rintro ⟨_, _, _, h, hfine, -⟩
    cases hopts.symm.trans h
    exact hfine hodd
  rw [if_neg hodd]
  have hlive : ∀ t, db.live (argv.getD 1 []) c.now.ms = some t → ¬ XaddSpoils S c db argv := by
    rintro t ht ⟨_, _, _, -, -, -, hn, -⟩
    cases ht.symm.trans hn
  refine ends_getOrCreateStream_bind ?_ ?_ ?_ ?_
  · exact fun s _ hs h => iff_of_true (fun _ => h.idle) (hlive s hs)
  · intro _ _ hmk h
    refine iff_of_true (fun _ => h.idle) ?_
    rintro ⟨_, _, _, hopts', -, hmk', -⟩
    cases hopts.symm.trans hopts'
    rw [hmk'] at hmk
    cases hmk
  · intro st t db1 ht h
    have hnot := hlive t ht
    simp only
    cases parseID c.now.ms idStr st.lastID with
    | none => exact iff_of_true (fun _ => h.idle) hnot
    | some id =>
      simp only
      cases xaddStream o id fieldsRaw st with
      | none => exact iff_of_true (fun _ => h.idle) hnot
      | some st' => exact ends_self.bind fun _ _ _ => iff_of_true (clean_of_ok rfl) hnot
  · intro stored db1 hn hmk hidle
    simp only
    cases hid : parseID c.now.ms idStr newStream.lastID with
    | none =>
      refine (clean_iff_of_error rfl).trans (hidle.trans (not_congr ⟨fun hmade => ?_, ?_⟩))
      · exact ⟨o, idStr, fieldsRaw, hopts, hodd, by simpa using hmk, hn, hid, hmade⟩
      · rintro ⟨_, _, _, -, -, -, -, -, hmade⟩
        exact hmade
    | some id =>
    cases hadd : xaddStream o id fieldsRaw newStream with
    | none => exact absurd hadd (xaddStream_new o id fieldsRaw)
    | some st =>
      refine ends_self.bind fun _ _ _ => iff_of_true (clean_of_ok rfl) ?_
      rintro ⟨_, _, _, hopts', -, -, -, hid', -⟩
      cases hopts.symm.trans hopts'
      cases hid.symm.trans hid'

/-! ### XGROUP -/

/-- After an error the keyspace and the groups are as they were. -/
abbrev CleanGroups (now : Clock) (db : MemDB) (groups : Groups) (r : Bytes × Groups) (db' : MemDB) : Prop :=
  succeeded r.1 = false → Idle now db db' ∧ r.2 = groups

/-- `XGROUP CREATE` makes the stream before it reads the ID. -/
def XgroupSpoils (S : Settings) (c : Call) (db : MemDB) (argv : Argv) : Prop :=
  toUpper (argv.getD 1 []) = ascii "CREATE" ∧ ¬ argv.length < 5 ∧ db.live (argv.getD 2 []) c.now.ms = none ∧
    groupStart c newStream (argv.getD 4 []) = none ∧ StreamMade S c db (argv.getD 2 [])

section
variable {groups : Groups}

lemma cleanGroups_of_idle (h : Idle now db db') : CleanGroups now db groups (reply, groups) db' :=
  fun _ => ⟨h, rfl⟩

lemma cleanGroups_of_ok {r : Bytes × Groups} (h : succeeded r.1 = true) : CleanGroups now db groups r db' :=
  fun he => Bool.noConfusion (h.symm.trans he)

lemma idle_refl : Idle now db db := fun _ => .inl rfl

lemma clean_xgroupCreate_iff (hsub : toUpper (argv.getD 1 []) = ascii "CREATE") :
    (xgroupCreate S c groups argv).Ends db fun r db' => CleanGroups c.now db groups r db' ↔ ¬ XgroupSpoils S c db argv := by
  unfold xgroupCreate
  by_cases hlen : argv.length < 5
  · rw [if_pos hlen]
    exact iff_of_true (cleanGroups_of_idle idle_refl) fun h => h.2.1 hlen
  rw [if_neg hlen]
  have hlive : ∀ t, db.live (argv.getD 2 []) c.now.ms = some t → ¬ XgroupSpoils S c db argv := by
    rintro t ht ⟨-, -, hn, -⟩
    cases ht.symm.trans hn
  refine ends_getOrCreateStream_bind ?_ ?_ ?_ ?_
  · exact fun s _ hs h => iff_of_true (cleanGroups_of_idle h.idle) (hlive s hs)
  · intro _ _ hcreate _
    cases hcreate
  · intro st t db1 ht h
    have hnot := hlive t ht
    simp only
    cases groupStart c st (argv.getD 4 []) with
    | none => exact iff_of_true (cleanGroups_of_idle h.idle) hnot
    | some id =>
      split_ifs
      · exact iff_of_true (cleanGroups_of_idle h.idle) hnot
      · exact iff_of_true (cleanGroups_of_ok rfl) hnot
  · intro stored db1 hn _ hidle
    simp only
    cases hid : groupStart c newStream (argv.getD 4 []) with
    | none =>
      have hclean : CleanGroups c.now db groups (invalidIDFormat, groups) db1 ↔ Idle c.now db db1 :=
        ⟨fun hc => (hc rfl).1, fun hi => cleanGroups_of_idle hi⟩
      refine hclean.trans (hidle.trans (not_congr ⟨fun hmade => ?_, ?_⟩))
      · exact ⟨hsub, hlen, hn, hid, hmade⟩
      · rintro ⟨-, -, -, -, hmade⟩
        exact hmade
    | some id =>
    have hnot : ¬ XgroupSpoils S c db argv := by
      rintro ⟨-, -, -, hid', -⟩
      cases hid.symm.trans hid'
    -- A stream that is new has no groups, so the name is free.
    have hfree :
        ((Found.groups ⟨newStream, true, stored⟩ groups (argv.getD 2 [])).lookup (argv.getD 3 [])).isSome = false :=
      rfl
    cases stored with
    | true | false => exact iff_of_true (cleanGroups_of_ok rfl) hnot

lemma clean_xgroupSetID : (xgroupSetID S c groups argv).Ends db (CleanGroups c.now db groups) := by
  unfold xgroupSetID
  by_cases hlen : argv.length < 5
  · rw [if_pos hlen]
    exact cleanGroups_of_idle idle_refl
  rw [if_neg hlen]
  refine ends_getOrCreateStream_bind ?_ ?_ ?_ ?_
  · exact fun _ _ _ h => cleanGroups_of_idle h.idle
  · exact fun _ _ _ h => cleanGroups_of_idle h.idle
  · intro st _ _ _ h
    simp only
    cases groupStart c st (argv.getD 4 []) with
    | none => exact cleanGroups_of_idle h.idle
    | some id =>
      split_ifs
      · exact cleanGroups_of_ok rfl
      · exact cleanGroups_of_idle h.idle
  · intro _ _ _ hcreate
    cases hcreate

lemma clean_xgroupDestroy : (xgroupDestroy S c groups argv).Ends db (CleanGroups c.now db groups) := by
  unfold xgroupDestroy
  by_cases hlen : argv.length < 4
  · rw [if_pos hlen]
    exact cleanGroups_of_idle idle_refl
  rw [if_neg hlen]
  refine ends_getOrCreateStream_bind ?_ ?_ ?_ ?_
  · exact fun _ _ _ h => cleanGroups_of_idle h.idle
  · exact fun _ _ _ _ => cleanGroups_of_ok rfl
  · intro _ _ _ _ _
    split_ifs <;> exact cleanGroups_of_ok rfl
  · intro _ _ _ hcreate
    cases hcreate

lemma clean_xgroup_iff :
    (xgroupCommand S c groups argv).Ends db fun r db' => CleanGroups c.now db groups r db' ↔ ¬ XgroupSpoils S c db argv := by
  unfold xgroupCommand
  by_cases hcreate : toUpper (argv.getD 1 []) = ascii "CREATE"
  · rw [if_pos hcreate]
    exact clean_xgroupCreate_iff hcreate
  have hnot : ¬ XgroupSpoils S c db argv := fun h => hcreate h.1
  rw [if_neg hcreate]
  split_ifs
  · exact clean_xgroupSetID.mono fun _ _ h => iff_of_true h hnot
  · exact iff_of_true (cleanGroups_of_idle idle_refl) hnot
  · exact iff_of_true (cleanGroups_of_ok rfl) hnot
  · exact clean_xgroupDestroy.mono fun _ _ h => iff_of_true h hnot
  · exact iff_of_true (cleanGroups_of_idle idle_refl) hnot

end

/-! ## GEOADD -/

/-- The changes `GEOADD` makes up to the first position that is not valid. -/
def geoEdits (S : Settings) (o : GeoaddOpts) : Held (Bytes × Score) → List Bytes → List (Edit (Bytes × Score))
  | h, lon :: lat :: member :: rest =>
    match geoScore S lon lat with
    | .error _ => []
    | .ok score =>
      let old := zScore h.items member
      if (old.isSome ∧ o.nx) ∨ (old.isNone ∧ o.xx) then geoEdits S o h rest
      else zAddEdits S h (member, score) ++ geoEdits S o (h.edited (zAddEdits S h (member, score))) rest
  | _, _ => []

def geoValid (S : Settings) : List Bytes → Bool
  | lon :: lat :: _ :: rest => (geoScore S lon lat).toOption.isSome && geoValid S rest
  | _ => true

lemma succeeded_geoScore {lon lat e : Bytes} (h : geoScore S lon lat = .error e) : succeeded e = false := by
  unfold geoScore at h
  split_ifs at h
  · cases henc : geoEncode S (S.E.parseFloat lon).1 (S.E.parseFloat lat).1 with
    | error msg =>
      rw [henc] at h
      cases h
      rfl
    | ok score =>
      rw [henc] at h
      cases h
  · cases h
    rfl

/-- What the loop of `GEOADD` leaves, and whether it came to its end. -/
structure GeoLooped (S : Settings) (now : Clock) (db : MemDB) (w : View (Bytes × Score)) (es : List (Edit (Bytes × Score)))
    (valid : Bool) (before : MemDB) (reply : Bytes) (db' : MemDB) : Prop where
  sees : ∃ w' : View (Bytes × Score), w'.key = w.key ∧ w'.held = w.held.edited es ∧
    w'.attached = (w.attached || es.any fun e => !e.isInPlace) ∧ Sees zsetKind now db w' db'
  frame : ∀ k, k ≠ w.key → db'.lookup k = before.lookup k
  reply : succeeded reply = valid

lemma GeoLooped.refl {w : View (Bytes × Score)} {valid : Bool} (hw : Sees zsetKind now db w db')
    (hreply : succeeded reply = valid) : GeoLooped S now db w [] valid db' reply db' :=
  ⟨⟨w, rfl, rfl, (Bool.or_false _).symm, hw⟩, fun _ _ => rfl, hreply⟩

lemma geoLooped (o : GeoaddOpts) : ∀ (rem : List Bytes) {w : View (Bytes × Score)} {db' : MemDB} {added changed : Int},
    Sees zsetKind now db w db' →
      (geoaddLoop S o w added changed rem).Ends db' (GeoLooped S now db w (geoEdits S o w.held rem) (geoValid S rem) db')
  | [], _, _, _, _, hw => .refl hw rfl
  | [_], _, _, _, _, hw => .refl hw rfl
  | [_, _], _, _, _, _, hw => .refl hw rfl
  | lon :: lat :: member :: rest, w, db', added, changed, hw => by
    rw [geoaddLoop, geoEdits, geoValid]
    cases hscore : geoScore S lon lat with
    | error e => exact .refl hw (succeeded_geoScore hscore)
    | ok score =>
    simp only [Except.toOption, Option.isSome_some, Bool.true_and]
    by_cases hskip : (zScore w.held.items member).isSome = true ∧ o.nx = true ∨
        (zScore w.held.items member).isNone = true ∧ o.xx = true
    · rw [if_pos hskip, if_pos hskip]
      exact geoLooped o rest hw
    rw [if_neg hskip, if_neg hskip]
    have hadd := (ends_performAll (S := S) (zAddEdits S w.held (member, score)) hw).and
      (performAll_attached (zAddEdits S w.held (member, score)) w db')
    refine hadd.bind fun w1 db1 h1 => ?_
    obtain ⟨⟨hkey, hheld, -, hsees, hframe⟩, hatt⟩ := h1
    refine (geoLooped o rest hsees).mono fun r db2 h2 => ?_
    obtain ⟨⟨w2, hkey2, hheld2, hatt2, hsees2⟩, hframe2, hreply⟩ := h2
    rw [hheld] at hheld2 hatt2
    refine ⟨⟨w2, hkey2.trans hkey, ?_, ?_, hsees2⟩, fun k hk => ?_, hreply⟩
    · rw [hheld2, edited_append]
    · rw [hatt2, hatt, List.any_append, Bool.or_assoc]
    · exact (hframe2 k (hkey ▸ hk)).trans (hframe k hk)

/-- `GEOADD` comes to a position that is not valid when it has made its sorted set, or has changed the one
there was. -/
def GeoaddSpoils (S : Settings) (c : Call) (db : MemDB) (argv : Argv) : Prop :=
  let key := argv.getD 1 []
  let r := geoaddOptions (argv.drop 2) {}
  ¬ (r.2 = [] ∨ r.2.length % 3 ≠ 0) ∧ geoValid S r.2 = false ∧
    ((db.live key c.now.ms = none ∧
        (Fits S key ⟨.zset [], .listpack⟩ (afterGet S db key c.now) ∨
          ((geoEdits S r.1 ⟨[], .listpack⟩ r.2).any fun e => !e.isInPlace) = true ∨
          Evicts S (afterGet S db key c.now) key ⟨.zset [], .listpack⟩ c.now)) ∨
      ∃ items enc exp, db.live key c.now.ms = some ⟨⟨.zset items, enc⟩, exp⟩ ∧
        (Held.edited ⟨items, enc⟩ (geoEdits S r.1 ⟨items, enc⟩ r.2)).items ≠ items)

lemma clean_geoadd_iff :
    (geoaddCommand S c argv).Ends db fun r db' => Clean c.now db r db' ↔ ¬ GeoaddSpoils S c db argv := by
  unfold geoaddCommand GeoaddSpoils
  generalize geoaddOptions (argv.drop 2) {} = r
  obtain ⟨o, rem⟩ := r
  simp only
  by_cases hrem : rem = [] ∨ rem.length % 3 ≠ 0
  · rw [if_pos hrem]
    exact iff_of_true clean_refl fun h => h.1 hrem
  rw [if_neg hrem]
  cases hs : db.live (argv.getD 1 []) c.now.ms with
  | none =>
    refine ends_getOrCreate_new hs fun attached db1 hfits hw hframe => ?_
    refine (geoLooped o rem hw).mono fun r db2 h2 => ?_
    obtain ⟨⟨w', hkey, -, hatt, hsees⟩, hframe2, hreply⟩ := h2
    cases hvalid : geoValid S rem with
    | true =>
      refine iff_of_true (clean_of_ok (hreply.trans hvalid)) ?_
      rintro ⟨-, h, -⟩
      cases h
    | false =>
    have hhere := hsees.here
    rw [hkey, liveExp, hs] at hhere
    have hexp : ∀ s, db2.lookup (argv.getD 1 []) = some s → s.exp = none := by
      intro s hs
      rw [hhere] at hs
      split_ifs at hs
      cases hs
      rfl
    have hsome : (db2.lookup (argv.getD 1 [])).isSome = true ↔ w'.attached = true := by
      rw [hhere]
      cases w'.attached <;> simp
    have hidle := idle_made_iff hs (fun k hk => (hframe2 k hk).trans (hframe k hk)) hexp
    rw [hsome, hatt, Bool.or_eq_true, hfits, or_assoc] at hidle
    refine (clean_iff_of_error (hreply.trans hvalid)).trans (hidle.trans (not_congr ⟨fun h => ?_, ?_⟩))
    · exact ⟨hrem, rfl, .inl ⟨rfl, h⟩⟩
    · rintro ⟨-, -, ⟨-, h⟩ | ⟨_, _, _, h, -⟩⟩
      · exact h
      · cases h
  | some s =>
    refine ends_getOrCreate_bind ?_ ?_ ?_
    · rintro db1 h ⟨s', hs', hview⟩
      cases hs.symm.trans hs'
      refine iff_of_true (fun _ => h.idle) ?_
      rintro ⟨-, -, ⟨h, -⟩ | ⟨_, _, _, h, -⟩⟩
      · cases h
      · cases h
        cases hview
    · intro _ _ hn
      cases hs.symm.trans hn
    · intro held exp db1 h hs' hw
      cases hs.symm.trans hs'
      refine (geoLooped o rem hw).mono fun r db2 h2 => ?_
      obtain ⟨⟨w', hkey, hheld, hatt, hsees⟩, hframe2, hreply⟩ := h2
      cases hvalid : geoValid S rem with
      | true =>
        refine iff_of_true (clean_of_ok (hreply.trans hvalid)) ?_
        rintro ⟨-, h, -⟩
        cases h
      | false =>
      have hhere := hsees.here
      rw [hkey, liveExp, hs, hatt, Bool.true_or, if_pos rfl, Option.bind_some] at hhere
      have hsame : contents db2 (argv.getD 1 []) = contents db (argv.getD 1 []) ↔
          (held.edited (geoEdits S o held rem)).items = held.items := by
        rw [contents_of_lookup hhere, contents_of_lookup (live_eq_some.1 hs).1, hheld]
        simp [Held.obj, zsetKind, deadline]
      refine (clean_iff_of_error (hreply.trans hvalid)).trans ?_
      rw [idle_iff_of_live hs fun k hk => (hframe2 k hk).trans (h.frame k hk), hsame, ← not_iff_not, not_not]
      constructor
      · exact fun hne => ⟨hrem, rfl, .inr ⟨held.items, held.enc, exp, rfl, hne⟩⟩
      · rintro ⟨-, -, ⟨h, -⟩ | ⟨_, _, _, h, hne⟩⟩
        · cases h
        · cases h
          exact hne

/-! ## The commands -/

/-- The commands that may fail half way, or not. -/
inductive Fallible
  | set
  | setex
  | psetex
  | getex
  | setrange
  | incr
  | decr
  | incrby
  | decrby
  | incrbyfloat
  | zadd
  | zincrby
  | geoadd
  | hset
  | hincrby
  | lset
  | smove
  | lmove
  | xadd
  | xgroup
  | restore
  | copy
deriving DecidableEq, Repr

/-- `xgroup` is run with the groups there are; what becomes of them is `groupsAfter`. -/
def Fallible.handler (groups : Groups) : Fallible → Handler
  | set => ⟨ascii "set", -3, setCommand⟩
  | setex => Encoded.handler "setex" 4 setexCommand
  | psetex => Encoded.handler "psetex" 4 psetexCommand
  | getex => Encoded.handler "getex" (-2) getexCommand
  | setrange => Encoded.handler "setrange" 4 setrangeCommand
  | incr => Encoded.handler "incr" 2 incrCommand
  | decr => Encoded.handler "decr" 2 decrCommand
  | incrby => Encoded.handler "incrby" 3 incrbyCommand
  | decrby => Encoded.handler "decrby" 3 decrbyCommand
  | incrbyfloat => Encoded.handler "incrbyfloat" 3 incrbyfloatCommand
  | zadd => Encoded.handler "zadd" (-4) zaddCommand
  | zincrby => Encoded.handler "zincrby" 4 zincrbyCommand
  | geoadd => Encoded.handler "geoadd" (-5) geoaddCommand
  | hset => Encoded.handler "hset" (-4) hsetCommand
  | hincrby => Encoded.handler "hincrby" 4 hincrbyCommand
  | lset => Encoded.handler "lset" 4 lsetCommand
  | smove => Encoded.handler "smove" 4 smoveCommand
  | lmove => Encoded.handler "lmove" 5 lmoveCommand
  | xadd => Encoded.handler "xadd" (-4) xaddCommand
  | xgroup => Encoded.handler "xgroup" (-3) fun S c argv => Prod.fst <$> xgroupCommand S c groups argv
  | restore => Encoded.handler "restore" (-4) restoreCommand
  | copy => Encoded.handler "copy" (-3) copyCommand

def Fallible.groupsAfter (S : Settings) (c : Call) (groups : Groups) (argv : Argv) (db : MemDB) : Fallible → Groups
  | xgroup => ((xgroupCommand S c groups argv).result db).2
  | _ => groups

/-- An error of the command comes after it has changed something. -/
def Fallible.Spoils (S : Settings) (c : Call) (db : MemDB) (argv : Argv) : Fallible → Prop
  | getex => GetexSpoils c db argv
  | geoadd => GeoaddSpoils S c db argv
  | xadd => XaddSpoils S c db argv
  | xgroup => XgroupSpoils S c db argv
  | restore => RestoreSpoils S c db argv
  | _ => False

/-- If the command reports an error, then keys, values, deadlines and groups are as they were, but for keys
past their deadline. -/
def Fallible.FailsClean (S : Settings) (c : Call) (groups : Groups) (argv : Argv) (db : MemDB) (u : Fallible) : Prop :=
  let m := (u.handler groups).run S c argv
  succeeded (m.result db).reply = false → Idle c.now db (m.after db) ∧ u.groupsAfter S c groups argv db = groups

section
variable {groups : Groups} {f : (S : Settings) → Call → Argv → MemM S.E Bytes} {name : String} {arity : Int}

lemma failsClean_iff {P : Prop} (h : (f S c argv).Ends db fun r db' => Clean c.now db r db' ↔ P) :
    (succeeded (((handler name arity f).run S c argv).result db).reply = false →
      Idle c.now db (((handler name arity f).run S c argv).after db) ∧ groups = groups) ↔ P := by
  have hrun : ((handler name arity f).run S c argv).Ends db fun a db' => Clean c.now db a.reply db' ↔ P :=
    h.bind fun _ _ h => h
  simp only [and_true]
  exact hrun

lemma failsClean_of_clean (h : (f S c argv).Ends db (Clean c.now db)) :
    (succeeded (((handler name arity f).run S c argv).result db).reply = false →
      Idle c.now db (((handler name arity f).run S c argv).after db) ∧ groups = groups) ↔ ¬ False :=
  failsClean_iff (h.mono fun _ _ hc => iff_of_true hc not_false)

end

/-- An error leaves everything as it was, unless it is found after the first change. -/
theorem error_leaves_state_iff (u : Fallible) (groups : Groups) (ha : (u.handler groups).arityOk argv.length = true) :
    u.FailsClean S c groups argv db ↔ ¬ u.Spoils S c db argv := by
  cases u with
  | set =>
    refine iff_of_true (fun he => ?_) not_false
    have hset : (setCommand S c argv).Ends db fun a db' => Clean c.now db a.reply db' := clean_set
    exact ⟨hset he, rfl⟩
  | setex => exact failsClean_of_clean (clean_setex (10 ^ 9))
  | psetex => exact failsClean_of_clean (clean_setex (10 ^ 6))
  | getex => exact failsClean_iff clean_getex_iff
  | setrange => exact failsClean_of_clean (updated_setrange.mono fun _ _ h => h.idle)
  | incr => exact failsClean_of_clean ((updated_incrGeneric 1).mono fun _ _ h => h.idle)
  | decr => exact failsClean_of_clean ((updated_incrGeneric (-1)).mono fun _ _ h => h.idle)
  | incrby => exact failsClean_of_clean (updated_incrby.mono fun _ _ h => h.idle)
  | decrby => exact failsClean_of_clean (updated_decrby.mono fun _ _ h => h.idle)
  | incrbyfloat => exact failsClean_of_clean (updated_incrbyfloat.mono fun _ _ h => h.idle)
  | zadd => exact failsClean_of_clean (tidy_zadd.mono fun _ _ h => h.idle)
  | zincrby => exact failsClean_of_clean (tidy_zincrby.mono fun _ _ h => h.idle)
  | geoadd => exact failsClean_iff clean_geoadd_iff
  | hset => exact failsClean_of_clean ((tidy_hsetGeneric "hset" (Handler.argc_le rfl ha)).mono fun _ _ h => h.idle)
  | hincrby => exact failsClean_of_clean (tidy_hincrby.mono fun _ _ h => h.idle)
  | lset => exact failsClean_of_clean (tidy_lset.mono fun _ _ h => h.idle)
  | smove => exact failsClean_of_clean (moved_smove.mono fun _ _ h => h.idle)
  | lmove => exact failsClean_of_clean ((moved_lmoveGeneric _ _ _ _).mono fun _ _ h => h.idle)
  | xadd => exact failsClean_iff clean_xadd_iff
  | xgroup =>
    have hrun : ((Fallible.xgroup.handler groups).run S c argv).Ends db fun a db' =>
        a.reply = ((xgroupCommand S c groups argv).result db).1 ∧ db' = (xgroupCommand S c groups argv).after db := by
      have hfst : (Prod.fst <$> xgroupCommand S c groups argv).Ends db fun r db' =>
          r = ((xgroupCommand S c groups argv).result db).1 ∧ db' = (xgroupCommand S c groups argv).after db := by
        rw [map_eq_pure_bind]
        exact ends_self.bind fun _ _ h => ⟨congrArg Prod.fst h.1, h.2⟩
      exact hfst.bind fun _ _ h => h
    obtain ⟨hreply, hafter⟩ := hrun
    unfold Fallible.FailsClean
    simp only [hreply, hafter]
    exact clean_xgroup_iff
  | restore => exact failsClean_iff clean_restore_iff
  | copy => exact failsClean_of_clean clean_copy

/-- An element that is not there is not set. -/
theorem failed_lset_changes_nothing :
    Fallible.lset.FailsClean .bits .zero (fun _ => []) [ascii "LSET", ascii "l", ascii "9", ascii "x"]
      ((MemOp.put (ascii "l") ⟨⟨.list [ascii "a"], .listpack⟩, none⟩).apply Env.bits .empty) :=
  (error_leaves_state_iff .lset (fun _ => []) (by decide)).2 not_false

/-- The ID is refused, and the stream that was made for it stays. -/
theorem failed_xadd_leaves_stream :
    ¬ Fallible.xadd.FailsClean .bits .zero (fun _ => []) [ascii "XADD", ascii "s", ascii "x", ascii "f", ascii "v"]
      .empty := by
  intro h
  have hidle := (h (by decide +kernel)).1 (ascii "s")
  revert hidle
  decide +kernel

end Gopherdis.Encoded

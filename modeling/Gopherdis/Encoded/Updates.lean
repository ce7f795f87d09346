/-
What an update of a string leaves. The strings are stored anew and the deadline is gone, unless the value
is refused; an error is reported before anything is changed.
-/
import Gopherdis.Encoded.Sees
import Gopherdis.Encoded.Strings

namespace Gopherdis.Encoded

open Lib Codec Object Store Command MemM MemDB

variable {S : Settings} {c : Call} {argv : Argv} {db db' db1 : MemDB} {key : Bytes} {now : Clock} {reply : Bytes}
variable {obj : Robj} {s : Slot}

/-! ## Strings that are read -/

section
variable {α : Type} {Q : α → MemDB → Prop}

lemma ends_getString_bind {f : Except Bytes (Option (Bytes × Encoding)) → MemM S.E α}
    (herror : ∀ s, db.live key c.now.ms = some s → stringOf s.obj.val = none → (f (.error wrongType)).Ends db Q)
    (hnone : ∀ db', Looked c.now db key db' → db.live key c.now.ms = none → (f (.ok none)).Ends db' Q)
    (hsome : ∀ b enc exp, db.live key c.now.ms = some ⟨⟨.str b, enc⟩, exp⟩ → (f (.ok (some (b, enc)))).Ends db Q) :
    (getString S c key >>= f).Ends db Q := by
  unfold getString
  rw [bind_assoc]
  cases hs : db.live key c.now.ms with
  | none =>
    refine ends_get.bind fun r db1 h1 => ?_
    obtain ⟨rfl, h1⟩ := h1
    rw [hs]
    exact hnone db1 h1 hs
  | some s =>
  obtain ⟨hl, hx⟩ := live_eq_some.1 hs
  have hfresh : db.isExpired c.now key = false := by rw [isExpired, hl, Option.any_some, hx]
  refine Traced.ends_bind_of_eq (get_of_fresh hfresh) ?_
  rw [hl]
  obtain ⟨⟨val, enc⟩, exp⟩ := s
  cases val with
  | str b => exact hsome b enc exp hs
  | list | hash | set | zset | stream => exact herror _ hs rfl

end

/-! ## Strings that are stored anew -/

/-- What is stored in the place of an old string, and is not refused. -/
def Overwritten (S : Settings) (key : Bytes) (new : Bytes × Encoding → Option Robj) (touched : Bytes × Encoding → MemDB)
    (s : Slot) : Prop :=
  ∃ b obj, stringOf s.obj.val = some b ∧ new (b, s.obj.enc) = some obj ∧ Fits S key obj (touched (b, s.obj.enc))

/-- An update of a key: where the value was `lost` to `Set` it has no deadline any more, and otherwise it
has the one it had; no other key is changed. -/
structure Updated (now : Clock) (db : MemDB) (key : Bytes) (lost : Slot → Prop) (reply : Bytes) (db' : MemDB) : Prop where
  others : ∀ k, k ≠ key → db'.lookup k = db.lookup k ∨ db'.lookup k = none
  loses : ∀ s, db.live key now.ms = some s → lost s → succeeded reply = true ∧ ∃ obj, db'.lookup key = some ⟨obj, none⟩
  keeps : ∀ s, db.live key now.ms = some s → ¬ lost s → ∀ s', db'.lookup key = some s' → s'.exp = s.exp
  idle : succeeded reply = false → Idle now db db'

variable {lost : Slot → Prop}

lemma Updated.refl (hlost : ∀ s, db.live key now.ms = some s → ¬ lost s) : Updated now db key lost reply db where
  others _ _ := .inl rfl
  loses s hs h := absurd h (hlost s hs)
  keeps s hs _ s' hs' := by
    rw [(live_eq_some.1 hs).1] at hs'
    cases hs'
    rfl
  idle _ _ := .inl rfl

lemma Updated.of_absent (hn : db.live key now.ms = none)
    (hothers : ∀ k, k ≠ key → db'.lookup k = db.lookup k ∨ db'.lookup k = none)
    (hidle : succeeded reply = false → Idle now db db') : Updated now db key lost reply db' where
  others := hothers
  loses s hs := by
    rw [hn] at hs
    cases hs
  keeps s hs := by
    rw [hn] at hs
    cases hs
  idle := hidle

lemma Updated.of_looked (h : Looked now db key db') (hn : db.live key now.ms = none) :
    Updated now db key lost reply db' :=
  .of_absent hn (fun k hk => .inl (h.frame k hk)) fun _ => h.idle

lemma updated_set_new (hn : db.live key now.ms = none) (h : ∀ k, k ≠ key → db1.lookup k = db.lookup k)
    (hok : succeeded reply = true) :
    (do let _ ← set S.server key obj; return reply : MemM S.E Bytes).Ends db1 (Updated now db key lost) := by
  refine ends_store.bind fun _ db2 h2 => ?_
  refine .of_absent hn (fun k hk => ?_) fun he => ?_
  · rw [← h k hk]
    exact h2.1 k hk
  · cases hok.symm.trans he

lemma updated_set (hs : db.live key now.ms = some s) (hlost : lost s ↔ Fits S key obj db1)
    (h : ∀ k, k ≠ key → db1.lookup k = db.lookup k) (hexp : ∀ s1, db1.lookup key = some s1 → s1.exp = s.exp)
    (hok : succeeded reply = true) :
    (do let _ ← set S.server key obj; return reply : MemM S.E Bytes).Ends db1 (Updated now db key lost) := by
  have hset : (set S.server key obj : MemM S.E Bool).Ends db1 fun _ db' =>
      (∀ k, k ≠ key → db'.lookup k = db1.lookup k ∨ db'.lookup k = none) ∧
        db' = (set S.server key obj : MemM S.E Bool).after db1 := ⟨ends_store.1, rfl⟩
  refine hset.bind fun _ db2 h2 => ?_
  obtain ⟨hothers, rfl⟩ := h2
  refine ⟨fun k hk => h k hk ▸ hothers k hk, fun s' hs' hl => ?_, fun s' hs' hl s2 hs2 => ?_, fun he => ?_⟩
  · rw [hs] at hs'
    cases hs'
    rw [after_set_of_fits (hlost.1 hl)]
    exact ⟨hok, obj, replace_lookup_self ..⟩
  · rw [hs] at hs'
    cases hs'
    rw [after_set_of_not_fits fun hf => hl (hlost.2 hf)] at hs2
    rcases afterEviction_thinned S key obj db1 key with hk | hk
    · exact hexp s2 (hk.symm.trans hs2)
    · cases hk.symm.trans hs2
  · cases hok.symm.trans he

section
variable {new : Bytes × Encoding → Option Robj} {touched : Bytes × Encoding → MemDB} {b : Bytes} {enc : Encoding}
  {exp : Option Int}

lemma not_overwritten (h : ∀ old, new old = none) : ¬ Overwritten S key new touched s := by
  rintro ⟨b, obj, -, hnew, -⟩
  cases (h _).symm.trans hnew

lemma not_overwritten_of_other (h : stringOf s.obj.val = none) : ¬ Overwritten S key new touched s := by
  rintro ⟨b, _, hb, -, -⟩
  rw [h] at hb
  cases hb

lemma overwritten_iff : Overwritten S key new touched ⟨⟨.str b, enc⟩, exp⟩ ↔
      ∃ obj, new (b, enc) = some obj ∧ Fits S key obj (touched (b, enc)) := by
  constructor
  · rintro ⟨_, obj, hb, hnew, hfits⟩
    cases hb
    exact ⟨obj, hnew, hfits⟩
  · rintro ⟨obj, hnew, hfits⟩
    exact ⟨b, obj, rfl, hnew, hfits⟩

lemma overwritten_iff_of_some (h : new (b, enc) = some obj) :
    Overwritten S key new touched ⟨⟨.str b, enc⟩, exp⟩ ↔ Fits S key obj (touched (b, enc)) := by
  rw [overwritten_iff, h]
  simp

lemma not_overwritten_of_none (h : new (b, enc) = none) : ¬ Overwritten S key new touched ⟨⟨.str b, enc⟩, exp⟩ := by
  rw [overwritten_iff, h]
  simp

end

variable {touched : Bytes × Encoding → MemDB}

lemma updated_getString {f : Except Bytes (Option (Bytes × Encoding)) → MemM S.E Bytes}
    {new : Bytes × Encoding → Option Robj} (herror : f (.error wrongType) = pure wrongType)
    (hnone : ∀ db', Looked c.now db key db' → db.live key c.now.ms = none →
      (f (.ok none)).Ends db' (Updated c.now db key (Overwritten S key new touched)))
    (hsome : ∀ b enc exp, db.live key c.now.ms = some ⟨⟨.str b, enc⟩, exp⟩ →
      (f (.ok (some (b, enc)))).Ends db (Updated c.now db key (Overwritten S key new touched))) :
    (getString S c key >>= f).Ends db (Updated c.now db key (Overwritten S key new touched)) := by
  refine ends_getString_bind ?_ hnone hsome
  intro s hs hval
  rw [herror]
  refine .refl fun s' hs' => ?_
  rw [hs] at hs'
  cases hs'
  exact not_overwritten_of_other hval

section
variable {new : Bytes × Encoding → Option Robj} {touched : Bytes × Encoding → MemDB} {b : Bytes} {enc : Encoding}
  {exp : Option Int} {obj : Robj}

lemma updated_overwrite (hs : db.live key now.ms = some ⟨⟨.str b, enc⟩, exp⟩) (hnew : new (b, enc) = some obj)
    (hok : succeeded reply = true) : (do let _ ← set S.server key obj; return reply : MemM S.E Bytes).Ends db
      (Updated now db key (Overwritten S key new fun _ => db)) := by
  refine updated_set hs (overwritten_iff_of_some hnew) (fun _ _ => rfl) (fun s hs' => ?_) hok
  cases (live_eq_some.1 hs).1.symm.trans hs'
  rfl

lemma updated_untouched (hs : db.live key now.ms = some ⟨⟨.str b, enc⟩, exp⟩) (hnew : new (b, enc) = none) :
    Updated now db key (Overwritten S key new touched) reply db := by
  refine .refl fun s hs' => ?_
  cases hs.symm.trans hs'
  exact not_overwritten_of_none hnew

end

lemma Updated.of_leaves (hs : db.live key now.ms = some s)
    {slot : Option Slot} (h : Leaves db key db' slot) (hexp : ∀ s', slot = some s' → s'.exp = s.exp)
    (hok : succeeded reply = true) : Updated now db key (Overwritten S key (fun _ => none) touched) reply db' where
  others k hk := .inl (h.frame k hk)
  loses _ _ hl := absurd hl (not_overwritten fun _ => rfl)
  keeps s1 hs1 _ s' hs' := by
    cases hs.symm.trans hs1
    exact hexp s' (h.here.symm.trans hs')
  idle he := by cases hok.symm.trans he

/-! ## The commands -/

/-- The string that holds a number a step further. -/
def incremented (b : Bytes) (delta : Int) : Option Robj :=
  (parseInt b).bind fun current => if addOverflows current delta then none else some (intString (current + delta))

lemma updated_incrGeneric (delta : Int) : (incrGeneric S c key delta).Ends db
      (Updated c.now db key (Overwritten S key (fun old => incremented old.1 delta) fun _ => db)) := by
  refine updated_getString rfl ?_ ?_
  · intro db1 h hn
    simp only [Option.elim_none]
    split_ifs
    · exact .of_looked h hn
    · exact updated_set_new hn h.frame rfl
  · intro b enc exp hs
    simp only [Option.elim_some]
    cases hb : parseInt b with
    | none => exact updated_untouched hs (by rw [incremented, hb]; rfl)
    | some current =>
      simp only
      split_ifs with hover
      · exact updated_untouched hs (by simp [incremented, hb, hover])
      · exact updated_overwrite hs (by simp [incremented, hb, hover]) rfl

/-- The string that holds a number further by what an argument says. -/
def incrementedBy (b delta : Bytes) : Option Robj := (parseInt delta).bind (incremented b)

lemma updated_incrby : (incrbyCommand S c argv).Ends db (Updated c.now db (argv.getD 1 [])
        (Overwritten S (argv.getD 1 []) (fun old => incrementedBy old.1 (argv.getD 2 [])) fun _ => db)) := by
  unfold incrbyCommand incrementedBy
  cases parseInt (argv.getD 2 []) with
  | none => exact .refl fun _ _ => not_overwritten fun _ => rfl
  | some delta => exact updated_incrGeneric delta

def decrementedBy (b delta : Bytes) : Option Robj :=
  (parseInt delta).bind fun delta => if delta = -2 ^ 63 then none else incremented b (-delta)

lemma updated_decrby : (decrbyCommand S c argv).Ends db (Updated c.now db (argv.getD 1 [])
        (Overwritten S (argv.getD 1 []) (fun old => decrementedBy old.1 (argv.getD 2 [])) fun _ => db)) := by
  unfold decrbyCommand decrementedBy
  cases parseInt (argv.getD 2 []) with
  | none => exact .refl fun _ _ => not_overwritten fun _ => rfl
  | some delta =>
  simp only [Option.bind_some]
  by_cases hmin : delta = -2 ^ 63
  · simp only [if_pos hmin]
    exact .refl fun _ _ => not_overwritten fun _ => rfl
  · simp only [if_neg hmin]
    exact updated_incrGeneric (-delta)

/-- The string with a float added. -/
def incrementedFloat (S : Settings) (old : Bytes × Encoding) (delta : Bytes) : Option Robj :=
  if ¬ (S.E.parseFloat delta).2 ∨ S.E.isNaN (S.E.parseFloat delta).1 then none
  else
    (currentFloat S (some old)).bind fun current =>
      let sum := S.E.scoreAdd current (S.E.parseFloat delta).1
      if S.E.isNaN sum ∨ S.out.isInf sum then none else some (embString (S.E.formatFloat sum))

lemma updated_incrbyfloat : (incrbyfloatCommand S c argv).Ends db (Updated c.now db (argv.getD 1 [])
        (Overwritten S (argv.getD 1 []) (fun old => incrementedFloat S old (argv.getD 2 [])) fun _ => db)) := by
  unfold incrbyfloatCommand
  simp only
  by_cases hbad : ¬ (S.E.parseFloat (argv.getD 2 [])).2 = true ∨ S.E.isNaN (S.E.parseFloat (argv.getD 2 [])).1 = true
  · rw [if_pos hbad]
    exact .refl fun _ _ => not_overwritten fun _ => if_pos hbad
  rw [if_neg hbad]
  refine updated_getString rfl ?_ ?_
  · intro db1 h hn
    simp only [currentFloat]
    split_ifs
    · exact .of_looked h hn
    · exact updated_set_new hn h.frame (succeeded_double _)
  · intro b enc exp hs
    simp only
    cases hb : currentFloat S (some (b, enc)) with
    | none => exact updated_untouched hs (by rw [incrementedFloat, if_neg hbad, hb]; rfl)
    | some current =>
    have hnew : incrementedFloat S (b, enc) (argv.getD 2 []) =
        if S.E.isNaN (S.E.scoreAdd current (S.E.parseFloat (argv.getD 2 [])).1) ∨
            S.out.isInf (S.E.scoreAdd current (S.E.parseFloat (argv.getD 2 [])).1) then none
        else some (embString (S.E.formatFloat (S.E.scoreAdd current (S.E.parseFloat (argv.getD 2 [])).1))) := by
      rw [incrementedFloat, if_neg hbad, hb]
      rfl
    simp only
    split_ifs at hnew ⊢
    · exact updated_untouched hs hnew
    · exact updated_overwrite hs hnew (succeeded_double _)

lemma updated_append : (appendCommand S c argv).Ends db (Updated c.now db (argv.getD 1 [])
        (Overwritten S (argv.getD 1 []) (fun old => some (rawString (old.1 ++ argv.getD 2 []))) fun _ => db)) := by
  refine updated_getString rfl ?_ ?_
  · exact fun db1 h hn => updated_set_new hn h.frame rfl
  · exact fun b enc exp hs => updated_overwrite hs rfl rfl

/-- The string with some bytes written over it. -/
def overwritten (b offset value : Bytes) : Option Robj :=
  (parseInt offset).bind fun offset =>
    if offset < 0 ∨ maxStringLength < offset ∨ maxStringLength < offset + value.length ∨ value = [] then none
    else some (rawString (overwrite b offset.toNat value))

lemma updated_setrange : (setrangeCommand S c argv).Ends db (Updated c.now db (argv.getD 1 [])
        (Overwritten S (argv.getD 1 []) (fun old => overwritten old.1 (argv.getD 2 []) (argv.getD 3 [])) fun _ => db)) := by
  unfold setrangeCommand
  unfold overwritten
  cases parseInt (argv.getD 2 []) with
  | none => exact .refl fun _ _ => not_overwritten fun _ => rfl
  | some offset =>
  simp only [Option.bind_some]
  by_cases hneg : offset < 0
  · rw [if_pos hneg]
    exact .refl fun _ _ => not_overwritten fun _ => if_pos (.inl hneg)
  rw [if_neg hneg]
  by_cases hbig : maxStringLength < offset ∨ maxStringLength < offset + (argv.getD 3 []).length
  · rw [if_pos hbig]
    exact .refl fun _ _ => not_overwritten fun _ => if_pos (.inr (hbig.elim .inl fun h => .inr (.inl h)))
  rw [if_neg hbig]
  by_cases hval : argv.getD 3 [] = []
  · simp only [if_pos hval]
    refine updated_getString rfl ?_ ?_
    · exact fun _ h hn => .of_looked h hn
    · exact fun _ _ _ hs => updated_untouched hs (if_pos (.inr (.inr (.inr hval))))
  simp only [if_neg hval]
  have hfine : ¬ (offset < 0 ∨ maxStringLength < offset ∨ maxStringLength < offset + (argv.getD 3 []).length ∨
      argv.getD 3 [] = []) := by
    rintro (h | h | h | h)
    · exact hneg h
    · exact hbig (.inl h)
    · exact hbig (.inr h)
    · exact hval h
  refine updated_getString rfl ?_ ?_
  · exact fun _ h hn => updated_set_new hn h.frame rfl
  · exact fun _ _ _ hs => updated_overwrite hs (if_neg hfine) rfl

lemma updated_setbit : (setbitCommand S c argv).Ends db
      (Updated c.now db (argv.getD 1 []) (Overwritten S (argv.getD 1 []) (fun _ => none) fun _ => db)) := by
  unfold setbitCommand
  cases setbitArgs argv with
  | error e => exact .refl fun _ _ => not_overwritten fun _ => rfl
  | ok p =>
  refine updated_getString rfl ?_ ?_
  · exact fun _ h hn => updated_set_new hn h.frame rfl
  · intro b enc exp hs
    simp only
    split_ifs
    · refine Traced.ends_perform_bind (.of_leaves hs (leaves_edit (E := S.E) db _ _) (fun s hs' => ?_) rfl)
      rw [(live_eq_some.1 hs).1] at hs'
      cases hs'
      rfl
    refine Traced.ends_perform_bind (.of_leaves hs (leaves_replace db _ _) (fun s hs' => ?_) rfl)
    rw [(live_eq_some.1 hs).1] at hs'
    cases hs'
    rfl

/-- The registers with some elements added, if any of them changes. -/
def registersWith (b : Bytes) (elems : List Bytes) : Option Robj :=
  let r := hllAddAll (hllFromBytes b) elems
  if r.2 then some (rawString (r.1.take hllDenseSize)) else none

/-- The slice that is changed in its place before the registers are stored. -/
def registersInPlace (S : Settings) (db : MemDB) (key : Bytes) (old : Bytes × Encoding) (elems : List Bytes) : MemDB :=
  if old.2 = .raw && hllDenseSize + 2 ≤ old.1.length then
    (MemOp.edit key (rawString (hllAddAll (hllFromBytes old.1) elems).1)).apply S.E db
  else db

lemma frame_registersInPlace (S : Settings) (hs : db.live key now.ms = some s) (old : Bytes × Encoding)
    (elems : List Bytes) : (∀ k, k ≠ key → (registersInPlace S db key old elems).lookup k = db.lookup k) ∧
      ∀ s1, (registersInPlace S db key old elems).lookup key = some s1 → s1.exp = s.exp := by
  have hl := (live_eq_some.1 hs).1
  unfold registersInPlace
  split_ifs
  · obtain ⟨hhere, hframe⟩ := leaves_edit db key (rawString (hllAddAll (hllFromBytes old.1) elems).1)
    refine ⟨hframe, fun s1 hs1 => ?_⟩
    rw [hhere, hl] at hs1
    cases hs1
    rfl
  · refine ⟨fun _ _ => rfl, fun s1 hs1 => ?_⟩
    cases hl.symm.trans hs1
    rfl

lemma succeeded_flag (b : Bool) : succeeded (integer (if b then 1 else 0)) = true := by
  cases b <;> rfl

lemma updated_pfadd : (pfaddCommand S c argv).Ends db (Updated c.now db (argv.getD 1 [])
        (Overwritten S (argv.getD 1 []) (fun old => registersWith old.1 (argv.drop 2))
          fun old => registersInPlace S db (argv.getD 1 []) old (argv.drop 2))) := by
  refine updated_getString rfl ?_ ?_
  · intro db1 h hn
    exact updated_set_new hn h.frame (succeeded_flag _)
  · intro b enc exp hs
    simp only [Option.elim_some, Option.any_some, Option.isNone_some, Bool.false_or]
    rcases Bool.eq_false_or_eq_true (hllAddAll (hllFromBytes b) (argv.drop 2)).2 with hr | hr
    · have hnew : registersWith (b, enc).1 (argv.drop 2) =
          some (rawString ((hllAddAll (hllFromBytes b) (argv.drop 2)).1.take hllDenseSize)) := by
        rw [registersWith, hr]
        rfl
      obtain ⟨hframe, hexp⟩ := frame_registersInPlace S hs (b, enc) (argv.drop 2)
      have hlost : Overwritten S (argv.getD 1 []) (fun old => registersWith old.1 (argv.drop 2))
          (fun old => registersInPlace S db (argv.getD 1 []) old (argv.drop 2)) ⟨⟨.str b, enc⟩, exp⟩ ↔ _ :=
        overwritten_iff_of_some hnew
      have hone : succeeded (integer 1) = true := rfl
      have hset := updated_set hs hlost hframe hexp hone
      simp only [hr, Bool.and_true, if_true]
      unfold registersInPlace at hset
      split_ifs at hset ⊢
      · -- The slice is changed in its place, and `Set` then stores a copy of it.
        exact Traced.ends_perform_bind hset
      · exact hset
    · simp only [hr, Bool.and_false, Bool.false_eq_true, if_false]
      exact updated_untouched hs (by rw [registersWith, hr]; rfl)

end Gopherdis.Encoded

/-
`RENAME` under a memory limit: the value is stored under the new key and the old key is deleted,
whether or not the new one has got it.
-/
import Gopherdis.Encoded.Keys

namespace Gopherdis.Encoded

open Lib Codec Object Store Command MemM MemDB

/-! ## The value under the new key -/

variable {S : Settings} {c : Call} {src dst : Bytes} {db : MemDB} {s : Slot}

lemma deadline_nonneg_of_live (h : db.live src c.now.ms = some s) : 0 ≤ deadline s := by
  obtain ⟨-, hx⟩ := live_eq_some.1 h
  unfold Slot.expired at hx
  unfold deadline
  cases he : s.exp with
  | none => exact le_rfl
  | some e =>
    rw [he] at hx
    simp only [Option.any_some, ne_eq, Bool.and_eq_false_iff, decide_eq_false_iff_not, not_not, not_le] at hx
    simp only [Option.getD_some]
    omega

lemma ends_storeWithTTL (obj : Robj) (expireAt : Int) : (storeWithTTL S c dst obj expireAt).Ends db fun _ db' =>
      Leaves ((set S.server dst obj : MemM S.E Bool).after db) dst db' (if 0 < expireAt then
          (((set S.server dst obj : MemM S.E Bool).after db).live dst c.now.ms).map
            fun t => { t with exp := some expireAt }
        else ((set S.server dst obj : MemM S.E Bool).after db).lookup dst) := by
  refine Traced.ends_self.bind fun _ db1 h1 => ?_
  rw [h1.2]
  split_ifs with h
  · exact ends_setExpireAt.bind fun _ _ h => h.2
  · exact .refl _ _

/-- The destination holds what the source held: the same value, and the deadline it is given. -/
def Twin (c : Call) (s : Slot) (t : Slot) : Prop :=
  t.obj.val = s.obj.val ∧ if 0 < deadline s then t.expired c.now.ms = false else deadline t = 0

section
variable (hs : db.live src c.now.ms = some s)
include hs

lemma renameGeneric_moves (hne : src ≠ dst) (nx : Bool) :
    (renameGeneric S c src dst nx).Ends db fun _ db' => if nx = true ∧ (db.live dst c.now.ms).isSome then db' = db else
        db'.lookup src = none ∧ db'.lookup dst = if 0 < deadline s then
              (((set S.server dst s.obj : MemM S.E Bool).after db).live dst c.now.ms).map
                fun t => { t with exp := some (deadline s) }
            else ((set S.server dst s.obj : MemM S.E Bool).after db).lookup dst := by
  unfold renameGeneric
  rw [if_neg hne]
  refine Traced.ends_read_bind ?_
  rw [hs]
  refine Traced.ends_read_bind ?_
  by_cases hnx : nx = true ∧ (db.live dst c.now.ms).isSome
  · have hb : (nx && (db.live dst c.now.ms).isSome) = true := by simpa using hnx
    simp only [if_pos hnx, hb, if_true]
    rfl
  have hb : (nx && (db.live dst c.now.ms).isSome) = false := by
    simpa using hnx
  simp only [if_neg hnx, hb, Bool.false_eq_true, if_false]
  refine (ends_storeWithTTL s.obj (s.exp.getD 0)).bind fun _ db1 h1 => ?_
  refine (ends_del).bind fun _ db2 h2 => ?_
  exact ⟨h2.here, (h2.frame dst hne.symm).trans h1.here⟩

/-! ## What is lost, and when -/

/-- After a `RENAME` of a live key either the new key holds its value and deadline and the old one is
absent, or the old one holds them still, unless it was evicted to make room. -/
def Survives (S : Settings) (c : Call) (src dst : Bytes) (nx : Bool) (s : Slot) (db : MemDB) : Prop :=
  let db' := (renameGeneric S c src dst nx).after db
  (contents db' dst = contents db src ∧ db'.lookup src = none) ∨ contents db' src = contents db src ∨
    (afterEviction S dst s.obj db).lookup src = none

lemma survives_of_fits (hne : src ≠ dst) (nx : Bool) (hfits : Fits S dst s.obj db) : Survives S c src dst nx s db := by
  have hmoves := renameGeneric_moves (S := S) hs hne nx
  split_ifs at hmoves with hnx hd
  · refine .inr (.inl ?_)
    rw [hmoves]
  · refine .inl ⟨?_, hmoves.1⟩
    have hlive : ((set S.server dst s.obj : MemM S.E Bool).after db).live dst c.now.ms = some ⟨s.obj, none⟩ := by
      rw [after_set_of_fits hfits, live_eq_some]
      exact ⟨replace_lookup_self .., rfl⟩
    rw [hlive] at hmoves
    rw [contents_of_lookup hmoves.2, contents_of_lookup (live_eq_some.1 hs).1]
    rfl
  · refine .inl ⟨?_, hmoves.1⟩
    have h0 : deadline s = 0 := le_antisymm (not_lt.1 hd) (deadline_nonneg_of_live hs)
    have hhere : ((set S.server dst s.obj : MemM S.E Bool).after db).lookup dst = some ⟨s.obj, none⟩ := by
      rw [after_set_of_fits hfits]
      exact replace_lookup_self ..
    rw [contents_of_lookup (hmoves.2.trans hhere), contents_of_lookup (live_eq_some.1 hs).1, h0]
    rfl

lemma survives_iff_of_refused (hne : src ≠ dst) {nx : Bool}
    (hnx : ¬ (nx = true ∧ (db.live dst c.now.ms).isSome)) (hfits : ¬ Fits S dst s.obj db) :
    Survives S c src dst nx s db ↔ (afterEviction S dst s.obj db).lookup src = none ∨
        ∃ t, (afterEviction S dst s.obj db).lookup dst = some t ∧ Twin c s t := by
  have hmoves := renameGeneric_moves (S := S) hs hne nx
  simp only [Traced.Ends, if_neg hnx, after_set_of_not_fits hfits] at hmoves
  have hsrc : contents db src = some (s.obj.val, deadline s) := contents_of_lookup (live_eq_some.1 hs).1
  have hlost : contents ((renameGeneric S c src dst nx).after db) src ≠ contents db src := by
    rw [contents, hmoves.1, hsrc]
    simp
  have hdst : contents ((renameGeneric S c src dst nx).after db) dst = contents db src ↔
      ∃ t, (afterEviction S dst s.obj db).lookup dst = some t ∧ Twin c s t := by
    rw [contents, hmoves.2, hsrc]
    unfold Twin
    split_ifs with hd
    · rw [live]
      cases (afterEviction S dst s.obj db).lookup dst with
      | none => simp
      | some t => cases hx : t.expired c.now.ms <;> simp [hx, deadline, Option.filter]
    have h0 : deadline s = 0 := le_antisymm (not_lt.1 hd) (deadline_nonneg_of_live hs)
    cases (afterEviction S dst s.obj db).lookup dst with
    | none => simp
    | some t => simp [h0]
  unfold Survives
  simp only [hdst, hmoves.1, and_true, hlost, false_or]
  exact or_comm

end

/-- `RENAME` and `RENAMENX` lose the value exactly when `Set` refuses it: not if the keys are the same or
the destination is in the way, nor if the source was evicted, nor if the destination held the same. -/
theorem rename_survives_iff (hs : db.live src c.now.ms = some s) (nx : Bool) : Survives S c src dst nx s db ↔
      src = dst ∨ (nx = true ∧ (db.live dst c.now.ms).isSome) ∨ Fits S dst s.obj db ∨
        (afterEviction S dst s.obj db).lookup src = none ∨
        ∃ t, (afterEviction S dst s.obj db).lookup dst = some t ∧ Twin c s t := by
  by_cases hne : src = dst
  · -- nothing is stored and nothing deleted
    subst hne
    have hdb : (renameGeneric S c src src nx).after db = db := by
      unfold renameGeneric
      rw [if_pos rfl, Traced.after_bind]
      cases (has c.now src : MemM S.E Bool).result db <;> rfl
    refine iff_of_true (.inr (.inl ?_)) (.inl rfl)
    rw [hdb]
  by_cases hnx : nx = true ∧ (db.live dst c.now.ms).isSome
  · have hmoves := renameGeneric_moves (S := S) hs hne nx
    simp only [Traced.Ends, if_pos hnx] at hmoves
    refine iff_of_true (.inr (.inl ?_)) (.inr (.inl hnx))
    rw [hmoves]
  by_cases hfits : Fits S dst s.obj db
  · exact iff_of_true (survives_of_fits hs hne nx hfits) (.inr (.inr (.inl hfits)))
  · rw [survives_iff_of_refused hs hne hnx hfits]
    simp [hne, hnx, hfits, false_or]

/-- A key with a short value. -/
def oneKey : MemDB := (MemOp.put (ascii "src") ⟨embString (ascii "v"), none⟩).apply Env.bits .empty

theorem rename_survives_unlimited :
    Survives .bits .zero (ascii "src") (ascii "dst") false ⟨embString (ascii "v"), none⟩ oneKey :=
  (rename_survives_iff (by decide) false).2 (.inr (.inr (.inl rfl)))

/-- Room for the value once, not twice. -/
def tightSettings : Settings := { Settings.bits with server := { maxMemory := 30 } }

/-- A refused value is deleted, and the reply says that all is well. -/
theorem rename_refused_loses_value :
    let m := renameGeneric tightSettings .zero (ascii "src") (ascii "dst") false
    oneKey.live (ascii "src") Clock.zero.ms = some ⟨embString (ascii "v"), none⟩ ∧ m.result oneKey = ok ∧
      contents (m.after oneKey) (ascii "src") = none ∧ contents (m.after oneKey) (ascii "dst") = none ∧
      (afterEviction tightSettings (ascii "dst") (embString (ascii "v")) oneKey).lookup (ascii "src") ≠ none := by
  decide +kernel

end Gopherdis.Encoded

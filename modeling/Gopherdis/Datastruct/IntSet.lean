/-
Sets of integers, as strictly sorted lists that are searched by halving.
-/
import Gopherdis.Lib.Decimal
import Gopherdis.Lib.Search

namespace Gopherdis.Datastruct

open Lib List

structure IntSet where
  vals : List Int

namespace IntSet

/-- `Parse`: the number, if the text is the one that it is formatted as. -/
def parse (s : Bytes) : Option Int :=
  if s.length = 0 ∨ 20 < s.length then none
  else
    match parseInt s with
    | none => none
    | some n => if formatInt n ≠ s then none else some n

variable (is : IntSet) (v : Int)

def new : IntSet := ⟨[]⟩

def len : Nat := is.vals.length

/-- Where the number belongs, and whether it is there. -/
def find : Nat × Bool :=
  let i := search is.vals.length fun i => v ≤ is.vals.getD i 0
  (i, i < is.vals.length && is.vals.getD i 0 = v)

def add : IntSet × Bool :=
  let (i, found) := is.find v
  if found then (is, false) else (⟨is.vals.take i ++ v :: is.vals.drop i⟩, true)

def remove : IntSet × Bool :=
  let (i, found) := is.find v
  if found then (⟨is.vals.take i ++ is.vals.drop (i + 1)⟩, true) else (is, false)

def contains : Bool := (is.find v).2

def members : List Bytes := is.vals.map formatInt

/-! ## Sorted -/

lemma parse_eq_some {s : Bytes} {n : Int} : parse s = some n ↔ InInt64 n ∧ formatInt n = s := by
  unfold parse
  constructor
  · intro h
    split_ifs at h
    cases hn : parseInt s with
    | none => rw [hn] at h; cases h
    | some m =>
    rw [hn] at h
    simp only [ne_eq, ite_not] at h
    split_ifs at h with hformat
    cases h
    exact ⟨parseInt_inInt64 hn, hformat⟩
  · rintro ⟨hn, rfl⟩
    have hlen := formatInt_length_le hn
    have hne : (formatInt n).length ≠ 0 := by
      intro hzero
      have hparse := parseInt_formatInt hn
      rw [length_eq_zero_iff.1 hzero] at hparse
      cases hparse
    rw [if_neg (by omega), parseInt_formatInt hn]
    simp

variable {is v}

def Sorted (is : IntSet) : Prop := is.vals.Pairwise (· < ·)

lemma find_spec (h : is.Sorted) :
    ∃ A B, is.vals = A ++ B ∧ is.find v = (A.length, decide (v ∈ is.vals)) ∧ (∀ a ∈ A, a < v) ∧ (∀ b ∈ B, v ≤ b) ∧
      (v ∈ is.vals ↔ B.head? = some v) := by
  have hmono : is.vals.Pairwise fun a b => decide (v ≤ a) = true → decide (v ≤ b) = true := by
    refine h.imp fun hab => ?_
    simp only [decide_eq_true_eq]
    omega
  have hget : ∀ (i : Nat) (hi : i < is.vals.length), decide (v ≤ is.vals.getD i 0) = decide (v ≤ is.vals[i]) := by
    intro i hi
    simp [getD_eq_getElem?_getD, hi]
  obtain ⟨A, B, hsplit, hsearch, hA, hB⟩ := search_split hmono hget
  simp only [decide_eq_false_iff_not, decide_eq_true_eq, not_le] at hA hB
  have hmem : v ∈ is.vals ↔ B.head? = some v := by
    rw [hsplit, mem_append]
    constructor
    · rintro (hvA | hvB)
      · exact absurd (hA v hvA) (lt_irrefl v)
      · -- The first of the others is at least the number, and all behind it are greater.
        rcases B with _ | ⟨b, B⟩
        · cases hvB
        rcases mem_cons.1 hvB with rfl | hvB
        · rfl
        have hsorted := h
        rw [Sorted, hsplit, pairwise_append, pairwise_cons] at hsorted
        have hlt := hsorted.2.1.1 v hvB
        have hle := hB b mem_cons_self
        omega
    · intro hhead
      exact .inr (mem_of_head? hhead)
  refine ⟨A, B, hsplit, ?_, hA, hB, hmem⟩
  rw [find, hsearch, Prod.mk.injEq]
  refine ⟨rfl, ?_⟩
  rw [Bool.eq_iff_iff, Bool.and_eq_true, decide_eq_true_iff, decide_eq_true_iff, decide_eq_true_iff, hmem, hsplit,
    getD_eq_getElem?_getD, getElem?_append_right le_rfl, Nat.sub_self, ← head?_eq_getElem?]
  rcases B with _ | ⟨b, B⟩ <;> simp

lemma contains_iff (h : is.Sorted) : is.contains v = decide (v ∈ is.vals) := by
  obtain ⟨A, B, -, hfind, -⟩ := find_spec h
  rw [contains, hfind]

lemma add_spec (h : is.Sorted) (hv : v ∉ is.vals) :
    ∃ is', is.add v = (is', true) ∧ is'.Sorted ∧ is'.vals.Perm (v :: is.vals) := by
  obtain ⟨A, B, hsplit, hfind, hA, hB, -⟩ := find_spec (v := v) h
  rw [hsplit] at hv
  simp only [add, hfind]
  rw [hsplit, decide_eq_false hv, if_neg Bool.false_ne_true, take_left' rfl, drop_left' rfl]
  refine ⟨_, rfl, ?_, perm_middle⟩
  rw [Sorted, hsplit, pairwise_append] at h
  obtain ⟨hsA, hsB, hAB⟩ := h
  refine pairwise_append.2 ⟨hsA, pairwise_cons.2 ⟨fun b hb => ?_, hsB⟩, fun a ha b hb => ?_⟩
  · have hne : b ≠ v := fun he => hv (mem_append_right A (he ▸ hb))
    have hle := hB b hb
    omega
  · rcases mem_cons.1 hb with rfl | hb
    · exact hA a ha
    · exact hAB a ha b hb

lemma remove_spec (h : is.Sorted) :
    ∃ is', is.remove v = (is', decide (v ∈ is.vals)) ∧ is'.Sorted ∧ is'.vals = is.vals.erase v := by
  obtain ⟨A, B, hsplit, hfind, hA, -, hmem⟩ := find_spec (v := v) h
  simp only [remove, hfind]
  by_cases hv : v ∈ is.vals
  · obtain ⟨B', rfl⟩ : ∃ B', B = v :: B' := by
      rcases B with _ | ⟨b, B⟩
      · cases hmem.1 hv
      · cases hmem.1 hv
        exact ⟨B, rfl⟩
    have hvA : v ∉ A := fun hin => absurd (hA v hin) (lt_irrefl v)
    rw [decide_eq_true hv, if_pos rfl, hsplit, take_left' rfl, ← drop_drop, drop_left' rfl]
    have herase : (A ++ v :: B').erase v = A ++ B' := by
      rw [erase_append_right _ hvA, erase_cons_head]
    refine ⟨_, rfl, ?_, herase.symm⟩
    rw [Sorted, hsplit] at h
    exact h.sublist (by simp)
  · rw [decide_eq_false hv, if_neg Bool.false_ne_true]
    exact ⟨is, rfl, h, (erase_of_not_mem hv).symm⟩

end IntSet

end Gopherdis.Datastruct

/-
Doubly linked lists in a heap. A chain is a part of such a list: cells with what they hold, each linked to the ones
before and behind it. Cells are put to either end, taken from either end, and change what they hold in place.
-/
import Mathlib.Tactic

namespace Gopherdis.Lib

open List

structure Cell (α : Type) where
  prev : Option Nat
  next : Option Nat
  val : α

/-- The first cell of a chain, or what comes behind it. -/
def firstOf {α : Type} (cells : List (Nat × α)) (after : Option Nat) : Option Nat := (cells.head?.map Prod.fst).or after

/-- The last cell of a chain, or what comes before it. -/
def lastCell {α : Type} (before : Option Nat) (cells : List (Nat × α)) : Option Nat :=
  (cells.getLast?.map Prod.fst).or before

variable {α : Type} {heap : Nat → Cell α} {before after : Option Nat}

/-- The cells lie in the heap, linked from `before` to `after`. -/
def Chain (heap : Nat → Cell α) (before : Option Nat) : List (Nat × α) → Option Nat → Prop
  | [], _ => True
  | c :: cells, after => heap c.1 = ⟨before, firstOf cells after, c.2⟩ ∧ Chain heap (some c.1) cells after

@[simp] lemma firstOf_nil : firstOf ([] : List (Nat × α)) after = after := rfl

variable (c : Nat × α) (cells : List (Nat × α))

@[simp] lemma firstOf_cons : firstOf (c :: cells) after = some c.1 := rfl

@[simp] lemma lastCell_nil : lastCell before ([] : List (Nat × α)) = before := rfl

@[simp] lemma lastCell_concat : lastCell before (cells ++ [c]) = some c.1 := by
  simp [lastCell]

lemma lastCell_cons : lastCell before (c :: cells) = lastCell (some c.1) cells := by
  rcases cells.eq_nil_or_concat with rfl | ⟨cells, d, rfl⟩
  · rfl
  · rw [concat_eq_append, ← cons_append, lastCell_concat, lastCell_concat]

lemma firstOf_append (xs ys : List (Nat × α)) : firstOf (xs ++ ys) after = firstOf xs (firstOf ys after) := by
  cases xs <;> rfl

namespace Chain

@[simp] lemma nil : Chain heap before [] after := trivial

variable {cells : List (Nat × α)}

@[simp] lemma cons_iff {c : Nat × α} : Chain heap before (c :: cells) after ↔
      heap c.1 = ⟨before, firstOf cells after, c.2⟩ ∧ Chain heap (some c.1) cells after := Iff.rfl

lemma append_iff {xs ys : List (Nat × α)} : Chain heap before (xs ++ ys) after ↔
      Chain heap before xs (firstOf ys after) ∧ Chain heap (lastCell before xs) ys after := by
  induction xs generalizing before with
  | nil => simp
  | cons c xs ih => rw [cons_append, cons_iff, ih, cons_iff, firstOf_append, lastCell_cons, and_assoc]

lemma congr {heap' : Nat → Cell α} (h : Chain heap before cells after)
    (heq : ∀ c ∈ cells, heap' c.1 = heap c.1) : Chain heap' before cells after := by
  induction cells generalizing before with
  | nil => trivial
  | cons c cells ih =>
    exact ⟨(heq c mem_cons_self).trans h.1, ih h.2 fun d hd => heq d (mem_cons_of_mem _ hd)⟩

lemma update (h : Chain heap before cells after) {id : Nat} {cell : Cell α}
    (hid : id ∉ cells.map Prod.fst) : Chain (Function.update heap id cell) before cells after := by
  refine h.congr fun c hc => Function.update_of_ne ?_ _ _
  rintro rfl
  exact hid (mem_map_of_mem hc)

lemma set {A B : List (Nat × α)} {c : Nat × α} (h : Chain heap before (A ++ c :: B) after)
    (hnodup : ((A ++ c :: B).map Prod.fst).Nodup) (val : α) :
    Chain (Function.update heap c.1 { heap c.1 with val := val }) before (A ++ (c.1, val) :: B) after := by
  rw [map_append, map_cons, nodup_append, nodup_cons] at hnodup
  obtain ⟨hA, hc, hB⟩ := append_iff.1 h
  refine append_iff.2 ⟨?_, ?_, hB.update hnodup.2.1.1⟩
  · exact hA.update fun hmem => hnodup.2.2 _ hmem c.1 mem_cons_self rfl
  · rw [Function.update_self, hc]

lemma mirror (h : Chain heap before cells after) (f : α → α) :
    Chain (fun id => ⟨(heap id).next, (heap id).prev, f (heap id).val⟩) after
      (cells.reverse.map fun c => (c.1, f c.2)) before := by
  induction cells generalizing before with
  | nil => trivial
  | cons c cells ih =>
  rw [reverse_cons, map_append, append_iff]
  refine ⟨ih h.2, ?_, trivial⟩
  have hlast : lastCell after (cells.reverse.map fun c => (c.1, f c.2)) = firstOf cells after := by
    cases cells with
    | nil => rfl
    | cons d cells => rw [reverse_cons, map_append, map_singleton, lastCell_concat, firstOf_cons]
  simp only [hlast, h.1]
  rfl

end Chain

end Gopherdis.Lib

/-
Parts of a list by index, where a negative index counts from the end.
-/
import Mathlib.Tactic

namespace Gopherdis.Lib

open List

variable {α : Type}

/-- An index as it counts from the front. -/
def absIndex (n : Nat) (idx : Int) : Int := if idx < 0 then n + idx else idx

variable (xs : List α) (start stop : Int)

/-- The part of a list between two indices. -/
def listRange : List α :=
  let s := max 0 (absIndex xs.length start)
  let e := min (absIndex xs.length stop) (xs.length - 1)
  if e < s then [] else (xs.take (e + 1).toNat).drop s.toNat

def listIndex (idx : Int) : Option α :=
  if absIndex xs.length idx < 0 then none else xs[(absIndex xs.length idx).toNat]?

/-- The list with the element at an index replaced, if there is one. -/
def listSet (idx : Int) (val : α) : Option (List α) :=
  if absIndex xs.length idx < 0 ∨ xs.length ≤ absIndex xs.length idx then none
  else some (xs.set (absIndex xs.length idx).toNat val)

lemma listRange_all : listRange xs 0 (-1) = xs := by
  rcases xs with _ | ⟨x, xs⟩
  · rfl
  have hs : max 0 (absIndex (x :: xs).length 0) = 0 := by simp [absIndex]
  have he : min (absIndex (x :: xs).length (-1)) ((x :: xs).length - 1) = xs.length := by simp [absIndex]
  simp only [listRange, hs, he]
  simp

/-- The range step by step: from the front, into the list, and then the part. -/
def cut : List α :=
  let n : Int := xs.length
  if n = 0 then []
  else
    let start := if start < 0 then start + n else start
    let stop := if stop < 0 then stop + n else stop
    let start := if start < 0 then 0 else start
    let stop := if n ≤ stop then n - 1 else stop
    if stop < start ∨ n ≤ start then [] else (xs.take (stop + 1).toNat).drop start.toNat

lemma cut_eq : cut xs start stop = listRange xs start stop := by
  have hs : (if start < 0 then start + (xs.length : Int) else start) = absIndex xs.length start := by
    rw [absIndex]; split_ifs <;> omega
  have he : (if stop < 0 then stop + (xs.length : Int) else stop) = absIndex xs.length stop := by
    rw [absIndex]; split_ifs <;> omega
  simp only [cut, listRange, hs, he]
  generalize absIndex xs.length start = s
  generalize absIndex xs.length stop = e
  by_cases hempty : (xs.length : Int) = 0
  · rw [if_pos hempty, if_pos (by omega)]
  rw [if_neg hempty]
  by_cases hrange : min e (xs.length - 1) < max 0 s
  · rw [if_pos hrange, if_pos (by split_ifs <;> omega)]
  rw [if_neg hrange, if_neg (by split_ifs <;> omega)]
  have hmax : (if s < 0 then 0 else s) = max 0 s := by split_ifs <;> omega
  have hmin : (if (xs.length : Int) ≤ e then (xs.length : Int) - 1 else e) = min e (xs.length - 1) := by
    split_ifs <;> omega
  rw [hmax, hmin]

lemma cut_sublist : (cut xs start stop).Sublist xs := by
  simp only [cut_eq, listRange]
  split_ifs
  · exact nil_sublist _
  · exact (drop_sublist _ _).trans (take_sublist _ _)

lemma cut_zero : cut xs 0 stop = xs.take ((if stop < 0 then stop + xs.length else stop) + 1).toNat := by
  have hs : max 0 (absIndex xs.length 0) = 0 := by simp [absIndex]
  have he : absIndex xs.length stop = if stop < 0 then stop + (xs.length : Int) else stop := by
    rw [absIndex]; split_ifs <;> omega
  simp only [cut_eq, listRange, hs, he]
  generalize (if stop < 0 then stop + (xs.length : Int) else stop) = last
  split_ifs with hempty
  · exact (take_eq_nil_iff.2 (by rw [← length_eq_zero_iff]; omega)).symm
  · rw [Int.toNat_zero, drop_zero, take_eq_take_iff]
    omega

lemma idxOf_map_middle {β : Type} [BEq β] [LawfulBEq β] {f : α → β} {b : β} {L : List α} (hL : ∀ y ∈ L, f y ≠ b) {x : α}
    (hx : f x = b) (R : List α) : ((L ++ x :: R).map f).idxOf b = L.length := by
  have hnotMem : b ∉ L.map f := by
    rw [mem_map]
    rintro ⟨y, hy, heq⟩
    exact hL y hy heq
  rw [map_append, map_cons, hx, idxOf_append_of_notMem hnotMem, idxOf_cons_self, Nat.add_zero,
    length_map]

end Gopherdis.Lib

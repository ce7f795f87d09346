/-
Copying from what has already been written, as the decoders of the LZ family do it: the source of
the copy may run into the part it is writing.
-/
import Mathlib.Tactic

namespace Gopherdis.Lib

open List

variable {α : Type}

/-- Appends `n` elements read from index `ref` on, each after the one before it is written. -/
def copyFrom [Inhabited α] (ref : Nat) : Nat → List α → List α
  | 0, out => out
  | n + 1, out => copyFrom (ref + 1) n (out ++ [out.getD ref default])

/-- The length of the common start of two lists, counting up to `n`. -/
def matchLength [DecidableEq α] : List α → List α → Nat → Nat
  | x :: xs, y :: ys, n + 1 => if x = y then matchLength xs ys n + 1 else 0
  | _, _, _ => 0

lemma matchLength_le [DecidableEq α] (xs ys : List α) (n : Nat) : matchLength xs ys n ≤ n := by
  induction xs generalizing ys n with
  | nil => simp [matchLength]
  | cons x xs ih =>
  match ys, n with
  | [], _ => simp [matchLength]
  | _ :: _, 0 => simp [matchLength]
  | y :: ys, n + 1 =>
    rw [matchLength]
    split_ifs
    · exact Nat.succ_le_succ (ih ys n)
    · omega

lemma matchLength_get [DecidableEq α] {xs ys : List α} {n i : Nat} (h : i < matchLength xs ys n) : xs[i]? = ys[i]? := by
  induction xs generalizing ys n i with
  | nil => simp [matchLength] at h
  | cons x xs ih =>
  match ys, n with
  | [], _ => simp [matchLength] at h
  | _ :: _, 0 => simp [matchLength] at h
  | y :: ys, n + 1 =>
  rw [matchLength] at h
  split_ifs at h with hxy
  · cases i with
    | zero => simp [hxy]
    | succ i => simpa using ih (n := n) (by omega)
  · omega

lemma copyFrom_take [Inhabited α] {xs : List α} {ref pos n : Nat} (href : ref < pos) (hlen : pos + n ≤ xs.length)
    (hrep : ∀ i, i < n → xs[ref + i]? = xs[pos + i]?) : copyFrom ref n (xs.take pos) = xs.take (pos + n) := by
  induction n generalizing ref pos with
  | zero => rfl
  | succ n ih =>
  have hget : (xs.take pos).getD ref default = xs[pos] := by
    have h0 := hrep 0 (by omega)
    rw [Nat.add_zero, Nat.add_zero, getElem?_eq_getElem (by omega), getElem?_eq_getElem (by omega)] at h0
    rw [getD_eq_getElem?_getD, getElem?_take_of_lt href, getElem?_eq_getElem (by omega)]
    exact Option.some.inj h0
  rw [copyFrom, hget, take_concat_get' xs pos (by omega), ih (by omega) (by omega)]
  · congr 1; omega
  · intro i hi
    have := hrep (i + 1) (by omega)
    rwa [show ref + (i + 1) = ref + 1 + i by omega, show pos + (i + 1) = pos + 1 + i by omega] at this

end Gopherdis.Lib

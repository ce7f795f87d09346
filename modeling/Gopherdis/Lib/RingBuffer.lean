/-
A ring of fixed size that keeps the newest elements of a sequence written to it one by one.
-/
import Mathlib.Tactic

namespace Gopherdis.Lib

open List Function

variable {α : Type}

/-- The cells (only those below `size` are used) and where the next element goes. -/
structure RingBuffer (α : Type) where
  size : Nat
  cells : Nat → α
  head : Nat

def RingBuffer.put (r : RingBuffer α) (x : α) : RingBuffer α :=
  { r with cells := update r.cells r.head x, head := (r.head + 1) % r.size }

def RingBuffer.putAll (r : RingBuffer α) (xs : List α) : RingBuffer α := xs.foldl RingBuffer.put r

/-- The `n` cells from index `start` on, around the end. -/
def RingBuffer.window (r : RingBuffer α) (start n : Nat) : List α :=
  (List.range n).map fun i => r.cells ((start + i) % r.size)

/-- The ring has been given the elements of `xs` and still has the newest of them. -/
structure RingBuffer.Holds (r : RingBuffer α) (xs : List α) : Prop where
  pos : 0 < r.size
  head : r.head = xs.length % r.size
  cell : ∀ j (h : j < xs.length), xs.length ≤ j + r.size → r.cells (j % r.size) = xs[j]

variable {r : RingBuffer α}

lemma RingBuffer.holds_nil (hpos : 0 < r.size) (hhead : r.head = 0) : r.Holds [] :=
  ⟨hpos, by rw [hhead]; rfl, fun _ h => absurd h (Nat.not_lt_zero _)⟩

variable {xs : List α}

lemma RingBuffer.Holds.put (h : r.Holds xs) (x : α) : (r.put x).Holds (xs ++ [x]) where
  pos := h.pos
  head := by
    show (r.head + 1) % r.size = (xs ++ [x]).length % r.size
    rw [h.head, length_append, length_singleton, Nat.mod_add_mod]
  cell j hj hnew := by
    rw [length_append, length_singleton] at hj hnew
    have hsz : (r.put x).size = r.size := rfl
    show update r.cells r.head x (j % r.size) = _
    by_cases hlast : j = xs.length
    · subst hlast
      rw [h.head, update_self, getElem_concat_length rfl]
    -- another cell of the last `size` ones: its index differs from the head's modulo `size`
    have hne : j % r.size ≠ r.head := by
      rw [h.head]
      intro heq
      have hdvd := (Nat.modEq_iff_dvd' (by omega : j ≤ xs.length)).1 heq
      have := Nat.le_of_dvd (by omega) hdvd
      omega
    rw [update_of_ne hne, getElem_append_left (by omega)]
    exact h.cell j (by omega) (by omega)

lemma RingBuffer.Holds.putAll (h : r.Holds xs) (ys : List α) : (r.putAll ys).Holds (xs ++ ys) := by
  induction ys generalizing r xs with
  | nil => rw [append_nil]; exact h
  | cons y ys ih => rw [append_cons]; exact ih (h.put y)

lemma RingBuffer.putAll_size (r : RingBuffer α) (ys : List α) : (r.putAll ys).size = r.size := by
  induction ys generalizing r with
  | nil => rfl
  | cons y ys ih => exact ih (r.put y)

lemma RingBuffer.Holds.window_eq (h : r.Holds xs) {n start : Nat} (hn : n ≤ r.size)
    (hlen : n ≤ xs.length) (hstart : start % r.size = (xs.length - n) % r.size) :
    r.window start n = xs.drop (xs.length - n) := by
  apply ext_getElem
  · simp only [window, length_map, length_range, length_drop]; omega
  · intro i h1 h2
    have hi : i < n := by simpa [window] using h1
    have hidx : (start + i) % r.size = (xs.length - n + i) % r.size := by
      rw [Nat.add_mod, hstart, ← Nat.add_mod]
    simp only [window, getElem_map, getElem_range, getElem_drop]
    rw [hidx]
    exact h.cell _ (by omega) (by omega)

end Gopherdis.Lib

/-
A counter that covers the shares of its holders: whichever holders are taken, their shares add up to
no more than the counter. Changing one share and the counter by as much keeps this.
-/
import Mathlib.Tactic

namespace Gopherdis.Lib

variable {ι : Type} [DecidableEq ι] {w : Int} {share : ι → Nat}

/-- The counter `w` covers the shares. -/
def Covers (w : Int) (share : ι → Nat) : Prop := ∀ S : Finset ι, ((∑ i ∈ S, share i : Nat) : Int) ≤ w

omit [DecidableEq ι] in
lemma Covers.none : Covers 0 fun _ : ι => 0 := fun S => by simp

omit [DecidableEq ι] in
lemma Covers.mono {w' : Int} (h : Covers w share) (hle : w ≤ w') : Covers w' share := fun S => (h S).trans hle

omit [DecidableEq ι] in
lemma Covers.share_le (h : Covers w share) (i : ι) : (share i : Int) ≤ w := by
  have := h {i}
  rwa [Finset.sum_singleton] at this

lemma Covers.pair_le (h : Covers w share) {i j : ι} (hne : i ≠ j) : (share i + share j : Int) ≤ w := by
  have := h {i, j}
  rwa [Finset.sum_pair hne, Nat.cast_add] at this

lemma Covers.update (h : Covers w share) (i : ι) (n : Nat) : Covers (w - share i + n) (Function.update share i n) := by
  intro S
  by_cases hi : i ∈ S
  · have hS := h S
    rw [← Finset.add_sum_erase S share hi, Nat.cast_add] at hS
    rw [Finset.sum_update_of_mem hi, Finset.sdiff_singleton_eq_erase, Nat.cast_add]
    omega
  have hS := h (insert i S)
  rw [Finset.sum_insert hi, Nat.cast_add] at hS
  rw [Finset.sum_update_of_notMem hi]
  omega

end Gopherdis.Lib

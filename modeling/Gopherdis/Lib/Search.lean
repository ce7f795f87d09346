/-
Binary search for the first index at which a condition holds, where it holds from some index on. In a list it finds
the place between the elements the condition does not hold for and the others.
-/
import Mathlib.Tactic

namespace Gopherdis.Lib

open List

/-- The window is `[i, j)`. -/
def searchLoop (f : Nat → Bool) : Nat → Nat → Nat → Nat
  | 0, i, _ => i
  | fuel + 1, i, j =>
    if i < j then
      let h := (i + j) / 2
      if f h then searchLoop f fuel i h else searchLoop f fuel (h + 1) j
    else i

/-- The window shrinks with every step, so `n` steps are enough. -/
def search (n : Nat) (f : Nat → Bool) : Nat := searchLoop f n 0 n

lemma searchLoop_spec {n : Nat} {f : Nat → Bool} (hmono : ∀ a b, a ≤ b → b < n → f a = true → f b = true)
    {fuel i j : Nat} (hfuel : j - i ≤ fuel) (hij : i ≤ j) (hj : j ≤ n) (hlow : ∀ k < i, f k = false)
    (hhigh : ∀ k, j ≤ k → k < n → f k = true) : searchLoop f fuel i j ≤ n ∧ (∀ k < searchLoop f fuel i j, f k = false) ∧
      ∀ k, searchLoop f fuel i j ≤ k → k < n → f k = true := by
  induction fuel generalizing i j with
  | zero =>
    obtain rfl : i = j := by omega
    exact ⟨hj, hlow, hhigh⟩
  | succ fuel ih =>
  simp only [searchLoop]
  split_ifs with hlt hh
  · refine ih (by omega) (by omega) (by omega) hlow fun k hk hkn => ?_
    exact hmono _ k hk hkn hh
  · refine ih (by omega) (by omega) hj (fun k hk => ?_) hhigh
    by_contra htrue
    exact hh (hmono k _ (by omega) (by omega) (by simpa using htrue))
  · obtain rfl : i = j := by omega
    exact ⟨hj, hlow, hhigh⟩

section
variable {α : Type} {xs : List α} {p : α → Bool} {q : Nat → Bool}

lemma search_split (hp : xs.Pairwise fun a b => p a = true → p b = true)
    (hq : ∀ (i : Nat) (hi : i < xs.length), q i = p xs[i]) :
    ∃ A B, xs = A ++ B ∧ search xs.length q = A.length ∧ (∀ a ∈ A, p a = false) ∧ ∀ b ∈ B, p b = true := by
  have hmono : ∀ a b, a ≤ b → b < xs.length → q a = true → q b = true := by
    intro a b hab hb ha
    rcases Nat.eq_or_lt_of_le hab with rfl | hlt
    · exact ha
    rw [hq b hb]
    rw [hq a (by omega)] at ha
    exact pairwise_iff_getElem.1 hp a b (by omega) hb hlt ha
  obtain ⟨hle, hlow, hhigh⟩ := searchLoop_spec hmono (by omega : xs.length - 0 ≤ xs.length) (Nat.zero_le _) le_rfl
    (fun k hk => absurd hk (Nat.not_lt_zero k)) (fun k hk hk' => absurd hk' (by omega))
  rw [← search] at hle hlow hhigh
  refine ⟨xs.take (search xs.length q), xs.drop (search xs.length q), (take_append_drop ..).symm,
    (length_take_of_le hle).symm, fun a ha => ?_, fun b hb => ?_⟩
  · obtain ⟨k, hk, rfl⟩ := mem_take_iff_getElem.1 ha
    rw [← hq k (by omega)]
    exact hlow k (by omega)
  · obtain ⟨k, hk, rfl⟩ := mem_drop_iff_getElem.1 hb
    rw [← hq _ (by omega)]
    exact hhigh _ (by omega) (by omega)

end

end Gopherdis.Lib

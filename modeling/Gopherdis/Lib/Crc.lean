/-
Checksums by division of polynomials over the field of two elements, with reflected registers: the lowest bit stands
for the highest power, so that moving a register down by one bit multiplies by `X`. Whatever the constant, the
register holds the remainder of the message, shifted by the width of the register, modulo the polynomial the constant
stands for.
-/
import Mathlib.Algebra.CharP.Two
import Mathlib.Algebra.Field.ZMod
import Mathlib.Algebra.Polynomial.Div
import Mathlib.Tactic

namespace Gopherdis.Lib

open Polynomial Finset

variable {w : Nat}

variable (c : BitVec w)

/-- A register as a polynomial. -/
noncomputable def crcPoly : (ZMod 2)[X] := ∑ k ∈ range w, if c.getMsbD k then X ^ k else 0

variable (constant : BitVec w)

/-- One bit is moved out, and makes the constant come in if it was set. -/
def crcShift (c : BitVec w) : BitVec w := if c.getLsbD 0 then (c >>> 1) ^^^ constant else c >>> 1

/-- What a constant stands for. -/
noncomputable def crcModulus (constant : BitVec w) : (ZMod 2)[X] := X ^ w + crcPoly constant

/-! ## Registers as polynomials -/

lemma coeff_crcPoly (n : Nat) : (crcPoly c).coeff n = if n < w ∧ c.getMsbD n then 1 else 0 := by
  have hterm : ∀ k, (if c.getMsbD k then (X ^ k : (ZMod 2)[X]) else 0).coeff n = if n = k ∧ c.getMsbD k then 1 else 0 := by
    intro k
    split_ifs <;> simp_all [coeff_X_pow]
  simp [crcPoly, finsetSum_coeff, hterm, ite_and, sum_ite_eq, mem_range]

lemma crcPoly_injective : Function.Injective (crcPoly : BitVec w → _) := by
  intro a b hab
  refine BitVec.eq_of_getMsbD_eq fun i hi => ?_
  have hcoeff := congrArg (fun p => p.coeff i) hab
  simp only [coeff_crcPoly, hi, true_and] at hcoeff
  cases ha : a.getMsbD i <;> cases hb : b.getMsbD i <;> simp_all

lemma degree_crcPoly_lt : (crcPoly c).degree < w := by
  refine (degree_lt_iff_coeff_zero _ _).2 fun n hn => ?_
  rw [coeff_crcPoly, if_neg (fun h => absurd h.1 (not_lt.2 hn))]

lemma crcPoly_xor (a b : BitVec w) : crcPoly (a ^^^ b) = crcPoly a + crcPoly b := by
  rw [crcPoly, crcPoly, crcPoly, ← sum_add_distrib]
  refine sum_congr rfl fun k _ => ?_
  cases ha : a.getMsbD k <;> cases hb : b.getMsbD k <;> simp [ha, hb, CharTwo.add_self_eq_zero]

@[simp]
lemma crcPoly_zero : crcPoly (0#w) = 0 := by simp [crcPoly]

lemma monic_crcModulus : (crcModulus constant).Monic := monic_X_pow_add (degree_crcPoly_lt constant)

lemma degree_crcModulus : (crcModulus constant).degree = w := by
  rw [crcModulus, degree_add_eq_left_of_degree_lt (by rw [degree_X_pow]; exact degree_crcPoly_lt constant), degree_X_pow]

lemma crcPoly_setWidth {m : Nat} (hm : m ≤ w) (b : BitVec m) : crcPoly (b.setWidth w) = X ^ (w - m) * crcPoly b := by
  obtain ⟨n, rfl⟩ := Nat.exists_eq_add_of_le' hm
  rw [Nat.add_sub_cancel]
  have hhigh : ∀ k ∈ range n, (if (b.setWidth (n + m)).getMsbD k then (X ^ k : (ZMod 2)[X]) else 0) = 0 := by
    intro k hk
    have hk := mem_range.1 hk
    have hbit : (b.setWidth (n + m)).getMsbD k = false := by
      simp [BitVec.getMsbD_setWidth]
      omega
    rw [hbit, if_neg Bool.false_ne_true]
  rw [crcPoly, sum_range_add, sum_eq_zero hhigh, zero_add, crcPoly, mul_sum]
  refine sum_congr rfl fun k _ => ?_
  have hbit : (b.setWidth (n + m)).getMsbD (n + k) = b.getMsbD k := by
    simp [BitVec.getMsbD_setWidth, show n + k + m - (n + m) = k by omega]
  rw [hbit, mul_ite, mul_zero, pow_add]

lemma crcPoly_shiftRight : crcPoly (c >>> 1) + (if c.getLsbD 0 then X ^ w else 0) = X * crcPoly c := by
  rcases w with _ | w
  · simp [crcPoly]
  have hlow : c.getMsbD w = c.getLsbD 0 := by simp [BitVec.getMsbD]
  have hzero : (c >>> 1).getMsbD 0 = false := by simp
  rw [crcPoly, crcPoly, sum_range_succ', hzero, if_neg Bool.false_ne_true, add_zero, sum_range_succ, hlow,
    mul_add, mul_sum, mul_ite, mul_zero, pow_succ' X w]
  congr 1
  refine sum_congr rfl fun k hk => ?_
  have hk := mem_range.1 hk
  have hbit : (c >>> 1).getMsbD (k + 1) = c.getMsbD k := by
    simp
    omega
  rw [hbit, mul_ite, mul_zero, pow_succ']

/-! ## Remainders -/

section
variable (constant : BitVec w)

/-- Calculating modulo the polynomial of a constant. -/
noncomputable abbrev crcMod : (ZMod 2)[X] →+* (ZMod 2)[X] ⧸ Ideal.span {crcModulus constant} := Ideal.Quotient.mk _

lemma crcMod_shift : crcMod constant (crcPoly (crcShift constant c)) = crcMod constant (X * crcPoly c) := by
  rw [← crcPoly_shiftRight, crcShift]
  split_ifs
  · rw [crcPoly_xor, map_add, map_add]
    congr 1
    refine Ideal.Quotient.eq.2 (Ideal.mem_span_singleton.2 ?_)
    rw [CharTwo.sub_eq_add, add_comm]
    exact dvd_rfl
  · rw [add_zero]

lemma crcMod_shifts (n : Nat) (c : BitVec w) :
    crcMod constant (crcPoly ((crcShift constant)^[n] c)) = crcMod constant (X ^ n * crcPoly c) := by
  induction n with
  | zero => simp
  | succ n ih => rw [Function.iterate_succ_apply', crcMod_shift, map_mul, ih, ← map_mul, ← mul_assoc, ← pow_succ']

lemma crcPoly_eq_modByMonic {c : BitVec w} {p : (ZMod 2)[X]} (h : crcMod constant (crcPoly c) = crcMod constant p) :
    crcPoly c = p %ₘ crcModulus constant := by
  have hmonic := monic_crcModulus constant
  rw [← modByMonic_eq_of_dvd_sub hmonic (Ideal.mem_span_singleton.1 (Ideal.Quotient.eq.1 h)), eq_comm,
    modByMonic_eq_self_iff hmonic, degree_crcModulus]
  exact degree_crcPoly_lt c

end

/-! ## Tables -/

lemma crcShift_xor (k a b : BitVec w) : crcShift k (a ^^^ b) = crcShift k a ^^^ crcShift k b := by
  have hshift : (a ^^^ b) >>> 1 = a >>> 1 ^^^ b >>> 1 := BitVec.ushiftRight_xor_distrib ..
  simp only [crcShift, BitVec.getLsbD_xor, hshift]
  cases a.getLsbD 0 <;> cases b.getLsbD 0 <;> ext i hi <;> simp [Bool.xor_comm, Bool.xor_left_comm]

lemma crcShifts_xor (k : BitVec w) (n : Nat) (a b : BitVec w) :
    (crcShift k)^[n] (a ^^^ b) = (crcShift k)^[n] a ^^^ (crcShift k)^[n] b :=
  Function.Semiconj₂.iterate (crcShift_xor k) n a b

lemma crcShifts_clear (k : BitVec w) {c : BitVec w} {n : Nat} (h : ∀ i < n, c.getLsbD i = false) :
    (crcShift k)^[n] c = c >>> n := by
  induction n with
  | zero => simp
  | succ n ih =>
    have hbit : (c >>> n).getLsbD 0 = false := by simpa using h n n.lt_succ_self
    rw [Function.iterate_succ_apply', ih fun i hi => h i (Nat.lt_succ_of_lt hi), crcShift, hbit,
      if_neg Bool.false_ne_true, BitVec.shiftRight_add]

variable {m : Nat}

lemma crcShifts_table (k c : BitVec w) (b : BitVec m) :
    (crcShift k)^[m] (c ^^^ b.setWidth w) = (crcShift k)^[m] ((c.setWidth m ^^^ b).setWidth w) ^^^ (c >>> m) := by
  have hsplit : c ^^^ b.setWidth w = (c.setWidth m ^^^ b).setWidth w ^^^ (c >>> m) <<< m := by
    refine BitVec.eq_of_getLsbD_eq fun i hi => ?_
    by_cases him : i < m
    · simp [him, hi]
    · simp [him, hi, show m + (i - m) = i by omega, BitVec.getLsbD_of_ge b i (by omega)]
  have hmove : (c >>> m) <<< m >>> m = c >>> m := by
    refine BitVec.eq_of_getLsbD_eq fun i hi => ?_
    by_cases him : m + i < w
    · simp [him]
    · simp [BitVec.getLsbD_of_ge c (m + i) (by omega)]
  have hclear : ∀ i < m, ((c >>> m) <<< m).getLsbD i = false := by simp +contextual
  rw [hsplit, crcShifts_xor, crcShifts_clear k hclear, hmove]

/-! ## Messages -/

/-- A message goes through the register piece by piece. -/
def crcFold (c : BitVec w) (d : List (BitVec m)) : BitVec w :=
  d.foldl (fun c b => (crcShift constant)^[m] (c ^^^ b.setWidth w)) c

/-- The message as a polynomial, its first piece with the highest powers. -/
noncomputable def crcMessage (d : List (BitVec m)) : (ZMod 2)[X] := d.foldl (fun p b => X ^ m * p + crcPoly b) 0

section
variable (hm : m ≤ w) (d : List (BitVec m))
include hm

lemma crcPoly_crcFold (constant : BitVec w) :
    crcPoly (crcFold constant 0 d) = (X ^ w * crcMessage d) %ₘ crcModulus constant := by
  refine crcPoly_eq_modByMonic constant ?_
  induction d using List.reverseRecOn with
  | nil => simp [crcFold, crcMessage]
  | append_singleton d b ih =>
  have hfold : crcFold constant 0 (d ++ [b]) = (crcShift constant)^[m] (crcFold constant 0 d ^^^ b.setWidth w) :=
    List.foldl_concat ..
  have hmessage : crcMessage (d ++ [b]) = X ^ m * crcMessage d + crcPoly b := List.foldl_concat ..
  have hpow : (X ^ w : (ZMod 2)[X]) = X ^ m * X ^ (w - m) := by rw [← pow_add, Nat.add_sub_cancel' hm]
  rw [hfold, crcMod_shifts, crcPoly_xor, crcPoly_setWidth hm, hmessage, map_mul, map_add, ih, hpow]
  simp only [map_mul, map_add]
  ring

lemma crcFold_eq_iff (k k' : BitVec w) : crcFold k 0 d = crcFold k' 0 d ↔
    ∃ r : (ZMod 2)[X], r.degree < w ∧ crcModulus k ∣ X ^ w * crcMessage d - r ∧
      crcModulus k' ∣ X ^ w * crcMessage d - r := by
  constructor
  · have hrem : ∀ k : BitVec w, crcModulus k ∣ X ^ w * crcMessage d - crcPoly (crcFold k 0 d) := by
      intro k
      rw [crcPoly_crcFold hm, dvd_sub_comm]
      exact dvd_modByMonic_sub _ _
    intro h
    exact ⟨crcPoly (crcFold k 0 d), degree_crcPoly_lt _, hrem k, h ▸ hrem k'⟩
  · rintro ⟨r, hr, hk, hk'⟩
    have heq : ∀ k : BitVec w, crcModulus k ∣ X ^ w * crcMessage d - r → crcPoly (crcFold k 0 d) = r := by
      intro k hk
      rw [crcPoly_crcFold hm, modByMonic_eq_of_dvd_sub (monic_crcModulus k) hk,
        modByMonic_eq_self_iff (monic_crcModulus k), degree_crcModulus]
      exact hr
    exact crcPoly_injective ((heq k hk).trans (heq k' hk').symm)

end

end Gopherdis.Lib

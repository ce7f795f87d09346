/-
Bitmaps in an array of bytes: bit `i` is bit `i % 8` of byte `i / 8`.
-/
import Mathlib.Tactic

namespace Gopherdis.Lib

/-- The byte with the one bit `k`. -/
def bitMask (k : Nat) : UInt8 := 1 <<< UInt8.ofNat k

section
variable {k j : Nat} (hk : k < 8) (hj : j < 8) (b : UInt8)
include hk

lemma toBitVec_bitMask : (bitMask k).toBitVec = BitVec.twoPow 8 k := by
  interval_cases k <;> rfl

lemma and_bitMask_ne_zero : b &&& bitMask k ≠ 0 ↔ b.toBitVec.getLsbD k = true := by
  rw [ne_eq, ← UInt8.toBitVec_inj, UInt8.toBitVec_and, toBitVec_bitMask hk, BitVec.and_twoPow]
  have hne : BitVec.twoPow 8 k ≠ 0#8 := by interval_cases k <;> decide
  split_ifs with h <;> simp [h, hne]

include hj

lemma or_bitMask_and : (b ||| bitMask k) &&& bitMask j ≠ 0 ↔ j = k ∨ b &&& bitMask j ≠ 0 := by
  rw [and_bitMask_ne_zero hj, and_bitMask_ne_zero hj, UInt8.toBitVec_or, toBitVec_bitMask hk, BitVec.getLsbD_or,
    BitVec.getLsbD_twoPow]
  rw [Bool.or_eq_true, Bool.and_eq_true, decide_eq_true_iff, decide_eq_true_iff, or_comm, and_iff_right hk,
    @eq_comm _ k]

lemma andNot_bitMask_and : (b &&& ~~~bitMask k) &&& bitMask j ≠ 0 ↔ j ≠ k ∧ b &&& bitMask j ≠ 0 := by
  rw [and_bitMask_ne_zero hj, and_bitMask_ne_zero hj, UInt8.toBitVec_and, UInt8.toBitVec_not, toBitVec_bitMask hk,
    BitVec.getLsbD_and, BitVec.getLsbD_not, BitVec.getLsbD_twoPow]
  have hne : decide (k = j) = decide (j = k) := decide_eq_decide.2 eq_comm
  rw [hne]
  simp [hk, hj, and_comm]

end

/-- A bitmap of `n` bytes. -/
structure Bitmap (n : Nat) where
  bytes : Fin n → UInt8

namespace Bitmap

variable {n : Nat} (m : Bitmap n) (i j : Fin (8 * n))

def empty : Bitmap n := ⟨fun _ => 0⟩

/-- The byte that holds the bit. -/
def byteOf (i : Fin (8 * n)) : Fin n := ⟨i / 8, by omega⟩

def set : Bitmap n := ⟨Function.update m.bytes (byteOf i) (m.bytes (byteOf i) ||| bitMask (i % 8))⟩

def clear : Bitmap n := ⟨Function.update m.bytes (byteOf i) (m.bytes (byteOf i) &&& ~~~bitMask (i % 8))⟩

def has : Bool := m.bytes (byteOf i) &&& bitMask (i % 8) ≠ 0

lemma eq_of_byteOf_eq (hbyte : byteOf j = byteOf i) : j = i ↔ (j : Nat) % 8 = i % 8 := by
  have hdiv : (j : Nat) / 8 = i / 8 := congrArg Fin.val hbyte
  omega

@[simp] lemma has_empty : (empty : Bitmap n).has i = false := by simp [has, empty]

lemma has_iff : m.has i = true ↔ m.bytes (byteOf i) &&& bitMask (i % 8) ≠ 0 := decide_eq_true_iff

@[simp] lemma has_set : (m.set i).has j = (decide (j = i) || m.has j) := by
  rw [Bool.eq_iff_iff, Bool.or_eq_true, decide_eq_true_iff, has_iff, has_iff, set]
  by_cases hbyte : byteOf j = byteOf i
  · simp only [hbyte, Function.update_self]
    rw [or_bitMask_and (Nat.mod_lt _ (by decide)) (Nat.mod_lt _ (by decide)), eq_of_byteOf_eq _ _ hbyte]
  · have hne : j ≠ i := fun h => hbyte (by rw [h])
    simp [Function.update_of_ne hbyte, hne]

@[simp] lemma has_clear : (m.clear i).has j = (decide (j ≠ i) && m.has j) := by
  rw [Bool.eq_iff_iff, Bool.and_eq_true, decide_eq_true_iff, has_iff, has_iff, clear]
  by_cases hbyte : byteOf j = byteOf i
  · simp only [hbyte, Function.update_self]
    rw [andNot_bitMask_and (Nat.mod_lt _ (by decide)) (Nat.mod_lt _ (by decide)), (eq_of_byteOf_eq _ _ hbyte).ne]
  · have hne : j ≠ i := fun h => hbyte (by rw [h])
    simp [Function.update_of_ne hbyte, hne]

end Bitmap

end Gopherdis.Lib

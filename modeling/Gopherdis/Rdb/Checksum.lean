/-
The checksum of a dump beside the one it is named after, `CRC-64/Jones`. Both divide the message by a polynomial over
the field of two elements with a register that moves to the right. Such a register needs the bits of the polynomial
in the opposite order, and the table of the source is made with the constant as it is printed.
-/
import Gopherdis.Lib.Crc
import Gopherdis.Rdb.RoundTrip

namespace Gopherdis.Rdb

open Lib Polynomial

/-! ## The two polynomials -/

variable (c : UInt64)

/-- A word as the usual name of a polynomial: bit `k` for `X ^ k`, and `X ^ 64` not written. -/
noncomputable def named : (ZMod 2)[X] :=
  X ^ 64 + ∑ k ∈ Finset.range 64, if c.toBitVec.getLsbD k then X ^ k else 0

def reflected : UInt64 := ⟨c.toBitVec.reverse⟩

variable (data : Bytes)

def bitsOf : List (BitVec 8) := data.map UInt8.toBitVec

/-- `CRC-64/Jones`, bit by bit: nothing in the register at the start, nothing added at the end. -/
def jones : UInt64 := ⟨crcFold (reflected crc64Poly).toBitVec 0 (bitsOf data)⟩

/-- The message as a polynomial, every octet with its lowest bit first. -/
noncomputable def message : (ZMod 2)[X] := crcMessage (bitsOf data)

lemma crcModulus_reflected : crcModulus (reflected c).toBitVec = named c := by
  simp [crcModulus, crcPoly, named, reflected, BitVec.getMsbD_reverse]

lemma reflected_reflected : reflected (reflected c) = c := by
  simp [reflected]

/-! ## The table -/

lemma crc64Table_toBitVec (i : UInt8) :
    (crc64Table i).toBitVec = (crcShift crc64Poly.toBitVec)^[8] (i.toBitVec.setWidth 64) := by
  have hstep : Function.Semiconj UInt64.toBitVec
      (fun crc => if crc &&& 1 = 1 then (crc >>> 1) ^^^ crc64Poly else crc >>> 1) (crcShift crc64Poly.toBitVec) := by
    intro crc
    have hodd : crc &&& 1 = 1 ↔ crc.toBitVec.getLsbD 0 = true := by
      rw [← UInt64.toBitVec_inj, UInt64.toBitVec_and]
      have hone := BitVec.and_one_eq_setWidth_ofBool_getLsbD (x := crc.toBitVec)
      cases hbit : crc.toBitVec.getLsbD 0 <;> rw [hbit] at hone <;> simp [hone]
    simp only [crcShift, ← hodd]
    split_ifs <;> rfl
  exact (hstep.iterate_right 8) _

lemma crc64Step_toBitVec (crc : UInt64) (b : UInt8) : (crc64Step crc b).toBitVec =
    (crcShift crc64Poly.toBitVec)^[8] (crc.toBitVec ^^^ b.toBitVec.setWidth 64) := by
  rw [crc64Step, UInt64.toBitVec_xor, crc64Table_toBitVec, crcShifts_table]
  simp

lemma crc64_toBitVec : (crc64 0 data).toBitVec = crcFold crc64Poly.toBitVec 0 (bitsOf data) := by
  rw [crcFold, bitsOf, List.foldl_map, crc64]
  exact (List.foldl_hom UInt64.toBitVec fun crc b => (crc64Step_toBitVec crc b).symm).symm

/-! ## The checksum -/

/-- `jones` leaves what the division by the polynomial leaves, the highest power in the lowest bit; the checksum of the
source is the same for the messages that leave a common remainder after the polynomial and after its mirror image;
and a message may be given to it in parts. -/
theorem crc64_eq_jones_iff (data : Bytes) : crcPoly (jones data).toBitVec = (X ^ 64 * message data) %ₘ named crc64Poly ∧
    (crc64 0 data = jones data ↔ ∃ r : (ZMod 2)[X], r.degree < (64 : Nat) ∧
      named (reflected crc64Poly) ∣ X ^ 64 * message data - r ∧ named crc64Poly ∣ X ^ 64 * message data - r) ∧
    ∀ crc rest, crc64 (crc64 crc data) rest = crc64 crc (data ++ rest) := by
  refine ⟨?_, ?_, fun crc rest => (crc64_append crc data rest).symm⟩
  · rw [← crcModulus_reflected]
    exact crcPoly_crcFold (by decide) ..
  · rw [← UInt64.toBitVec_inj, crc64_toBitVec, ← crcModulus_reflected, ← crcModulus_reflected, reflected_reflected]
    exact crcFold_eq_iff (by decide) ..

/-- The digits that every description of a checksum is tried on. -/
theorem digits_crc64 : jones [49, 50, 51, 52, 53, 54, 55, 56, 57] = 0xe9c6d914c4b8d9ca ∧
    crc64 0 [49, 50, 51, 52, 53, 54, 55, 56, 57] = 0xcf228cf2176e85ed := by
  decide +kernel

end Gopherdis.Rdb

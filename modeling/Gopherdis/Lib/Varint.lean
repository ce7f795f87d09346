/-
Numbers in base 128, the least digit first: every byte but the last has its high bit set. Sequences of byte strings,
each behind its length, and where the strings begin.
-/
import Gopherdis.Lib.Text

namespace Gopherdis.Lib

open List UInt8

/-! ## Numbers -/

def putVarint (v : Nat) : Bytes :=
  if v < 128 then [ofNat v] else ofNat (v % 128 + 128) :: putVarint (v / 128)
termination_by v
decreasing_by omega

/-- The number at the head of a buffer, and how many bytes it takes. -/
def readVarint : Bytes → Option (Nat × Nat)
  | [] => none
  | b :: rest =>
    if b.toNat < 128 then some (b.toNat, 1)
    else (readVarint rest).map fun r => (b.toNat % 128 + 128 * r.1, r.2 + 1)

def varintLen (v : Nat) : Nat := if v < 128 then 1 else varintLen (v / 128) + 1
termination_by v
decreasing_by omega

@[simp] lemma length_putVarint (v : Nat) : (putVarint v).length = varintLen v := by
  fun_induction putVarint v with
  | case1 v h => rw [varintLen, if_pos h]; rfl
  | case2 v h ih => rw [varintLen, if_neg h, length_cons, ih]

lemma varintLen_pos (v : Nat) : 0 < varintLen v := by
  rw [varintLen]
  split_ifs <;> omega

lemma readVarint_putVarint (v : Nat) (rest : Bytes) : readVarint (putVarint v ++ rest) = some (v, varintLen v) := by
  fun_induction putVarint v with
  | case1 v h =>
    have hv : (ofNat v).toNat = v := toNat_ofNat_of_lt' (by simp only [size]; omega)
    rw [singleton_append, readVarint, hv, if_pos h, varintLen, if_pos h]
  | case2 v h ih =>
    have hdigit : (ofNat (v % 128 + 128)).toNat = v % 128 + 128 :=
      toNat_ofNat_of_lt' (by simp only [size]; omega)
    have hlen : varintLen v = varintLen (v / 128) + 1 := by rw [varintLen, if_neg h]
    rw [cons_append, readVarint, hdigit, if_neg (by omega), ih, Option.map_some, hlen]
    congr 2
    omega

/-! ## Strings one after the other -/

variable (x : Bytes)

def packOne : Bytes := putVarint x.length ++ x

variable (xs : List Bytes)

def packed : Bytes := xs.flatMap packOne

@[simp] lemma packed_nil : packed [] = [] := rfl

@[simp] lemma packed_cons : packed (x :: xs) = packOne x ++ packed xs := rfl

@[simp] lemma packed_append (xs ys : List Bytes) : packed (xs ++ ys) = packed xs ++ packed ys :=
  flatMap_append

lemma length_packOne : (packOne x).length = varintLen x.length + x.length := by
  simp [packOne]

lemma packOne_pos : 0 < (packOne x).length := by
  have hpos := varintLen_pos x.length
  rw [length_packOne]
  omega

lemma readVarint_packed (rest : Bytes) : readVarint (packOne x ++ rest) = some (x.length, varintLen x.length) := by
  rw [packOne, append_assoc, readVarint_putVarint]

/-- Where the string of an element begins. -/
def startOf (i : Nat) : Nat :=
  (packed (xs.take i)).length + varintLen (xs.getD i []).length

lemma startOf_eq {xs : List Bytes} {i : Nat} (h : i < xs.length) :
    startOf xs i = (packed (xs.take i)).length + varintLen xs[i].length := by
  simp [startOf, getD_eq_getElem?_getD, h]

lemma packed_split {xs : List Bytes} {i : Nat} (h : i < xs.length) :
    packed xs = packed (xs.take i) ++ (packOne xs[i] ++ packed (xs.drop (i + 1))) := by
  rw [← packed_cons, ← packed_append, cons_getElem_drop_succ, take_append_drop]

end Gopherdis.Lib

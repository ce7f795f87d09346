/-
Fixed-width integers as bytes, lowest byte first or last, and their round trip; and loops that take a string by
words of eight bytes.
-/
import Gopherdis.Lib.Decimal

namespace Gopherdis.Lib

open List

/-- The `w` low bytes of `n`, lowest first. -/
def leBytes : Nat → Nat → Bytes
  | 0, _ => []
  | w + 1, n => UInt8.ofNat (n % 256) :: leBytes w (n / 256)

def leVal : Bytes → Nat
  | [] => 0
  | b :: bs => b.toNat + 256 * leVal bs

def beBytes (w n : Nat) : Bytes := (leBytes w n).reverse

variable (bs : Bytes)

def beVal : Nat := leVal bs.reverse

@[simp] lemma leBytes_length (w n : Nat) : (leBytes w n).length = w := by
  induction w generalizing n with
  | zero => rfl
  | succ w ih => rw [leBytes, length_cons, ih]

@[simp] lemma beBytes_length (w n : Nat) : (beBytes w n).length = w := by
  rw [beBytes, length_reverse, leBytes_length]

lemma leVal_leBytes {w n : Nat} (h : n < 256 ^ w) : leVal (leBytes w n) = n := by
  induction w generalizing n with
  | zero => exact (Nat.lt_one_iff.1 h).symm
  | succ w ih =>
    have hdiv : n / 256 < 256 ^ w := Nat.div_lt_of_lt_mul (by rwa [pow_succ, Nat.mul_comm] at h)
    have hlow : (UInt8.ofNat (n % 256)).toNat = n % 256 := UInt8.toNat_ofNat_of_lt (show _ < 256 by omega)
    rw [leBytes, leVal, ih hdiv, hlow]
    omega

lemma beVal_beBytes {w n : Nat} (h : n < 256 ^ w) : beVal (beBytes w n) = n := by
  rw [beVal, beBytes, reverse_reverse, leVal_leBytes h]

/-! ## Words -/

/-- The first `k` words of eight bytes, as numbers. -/
def words : Nat → Bytes → List Nat
  | 0, _ => []
  | k + 1, bs => leVal (bs.take 8) :: words k (bs.drop 8)

/-- `bits.OnesCount`, of the `w` low bits. -/
def onesCount : Nat → Nat → Nat
  | 0, _ => 0
  | w + 1, n => n % 2 + onesCount w (n / 2)

/-- The number of one bits in a string. -/
def onesIn : Nat := (bs.map fun b => onesCount 8 b.toNat).sum

lemma onesCount_add (w v n : Nat) : onesCount (w + v) n = onesCount w n + onesCount v (n / 2 ^ w) := by
  induction w generalizing n with
  | zero => simp [onesCount]
  | succ w ih => rw [Nat.add_right_comm, onesCount, onesCount, ih, Nat.div_div_eq_div_mul, ← pow_succ', add_assoc]

lemma onesCount_leVal : onesCount (8 * bs.length) (leVal bs) = onesIn bs := by
  induction bs with
  | nil => rfl
  | cons b bs ih =>
  have hb := b.toNat_lt
  have hlow : onesCount 8 (b.toNat + 256 * leVal bs) = onesCount 8 b.toNat := by
    simp only [onesCount]
    omega
  rw [length_cons, Nat.mul_succ, Nat.add_comm, onesCount_add, leVal, hlow,
    show (b.toNat + 256 * leVal bs) / 2 ^ 8 = leVal bs by omega, ih]
  rfl

lemma onesCount_words {k : Nat} {bs : Bytes} (h : bs.length = 8 * k) :
    ((words k bs).map (onesCount 64)).sum = onesIn bs := by
  induction k generalizing bs with
  | zero => rw [eq_nil_of_length_eq_zero h]; rfl
  | succ k ih =>
    have hword := onesCount_leVal (bs.take 8)
    rw [length_take_of_le (by omega)] at hword
    rw [words, map_cons, sum_cons, hword, ih (by rw [length_drop]; omega)]
    simp only [onesIn, ← sum_append, ← map_append, take_append_drop]

lemma bitwise_block {f : Bool → Bool → Bool} (hf : f false false = false) (x y : UInt8) (m n : Nat) :
    Nat.bitwise f (x.toNat + 256 * m) (y.toNat + 256 * n) = Nat.bitwise f x.toNat y.toNat + 256 * Nat.bitwise f m n := by
  have hlt := Nat.bitwise_lt_two_pow (f := f) x.toNat_lt y.toNat_lt
  apply Nat.eq_of_testBit_eq
  intro i
  rw [Nat.testBit_bitwise hf, Nat.add_comm, Nat.add_comm y.toNat, Nat.add_comm (Nat.bitwise f _ _),
    Nat.testBit_two_pow_mul_add m x.toNat_lt, Nat.testBit_two_pow_mul_add n y.toNat_lt,
    Nat.testBit_two_pow_mul_add _ hlt]
  split_ifs <;> rw [Nat.testBit_bitwise hf]

lemma leVal_lt : leVal bs < 2 ^ (8 * bs.length) := by
  induction bs with
  | nil => exact Nat.one_pos
  | cons b bs ih =>
    have hb := b.toNat_lt
    rw [leVal, length_cons, Nat.mul_succ, pow_add]
    omega

lemma leBytes_leVal : leBytes bs.length (leVal bs) = bs := by
  induction bs with
  | nil => rfl
  | cons b bs ih =>
    have hb := b.toNat_lt
    rw [length_cons, leBytes, leVal, show (b.toNat + 256 * leVal bs) / 256 = leVal bs by omega, ih,
      show (b.toNat + 256 * leVal bs) % 256 = b.toNat by omega, UInt8.ofNat_toNat]

/-! ## Loops -/

section
variable {σ α : Type} (w : Nat) (step : σ → List α → Option σ)

/-- A loop over a list, `w` elements at a time while there are as many: the state it leaves and the elements left.
A step may break it off. -/
def chunkLoop : Nat → σ → List α → σ × List α
  | 0, s, l => (s, l)
  | fuel + 1, s, l =>
    if l.length < w then (s, l)
    else
      match step s (l.take w) with
      | none => (s, l)
      | some s' => chunkLoop fuel s' (l.drop w)

variable {w step}

lemma chunkLoop_keeps (P : σ → List α → Prop)
    (h : ∀ s s' c l, c.length = w → step s c = some s' → P s (c ++ l) → P s' l) (fuel : Nat) {s : σ} {l : List α}
    (hs : P s l) : P (chunkLoop w step fuel s l).1 (chunkLoop w step fuel s l).2 := by
  induction fuel generalizing s l with
  | zero => exact hs
  | succ fuel ih =>
  rw [chunkLoop]
  split_ifs with hlen
  · exact hs
  cases hstep : step s (l.take w) with
  | none => exact hs
  | some s' =>
    rw [← l.take_append_drop w] at hs
    exact ih (h s s' _ _ (length_take_of_le (not_lt.1 hlen)) hstep hs)

end

end Gopherdis.Lib

/-
Byte strings and decimal text: the printers and parsers of base-ten integers that a line-oriented
wire format needs, with the round trips between them. Sixty-four bit signed arithmetic wraps, so
the parser's range check and the wrapping operations share one `wrap64`.
-/
import Mathlib.Tactic

namespace Gopherdis.Lib

open List

abbrev Bytes := List UInt8

instance decidableMemBytes (b : Bytes) (bs : List Bytes) : Decidable (b ∈ bs) := List.instDecidableMemOfLawfulBEq b bs

/-- The bytes of an ASCII literal. -/
def ascii (s : String) : Bytes := s.toList.map fun c => c.toNat.toUInt8

def CR : UInt8 := 13
def LF : UInt8 := 10
def CRLF : Bytes := [CR, LF]

/-! ## Two's complement -/

variable (x : Int)

/-- The `int64` a mathematical integer wraps to. -/
def wrap64 : Int := (x + 2 ^ 63) % 2 ^ 64 - 2 ^ 63

/-- The range of `int64`. -/
def InInt64 : Prop := -2 ^ 63 ≤ x ∧ x < 2 ^ 63

instance (x : Int) : Decidable (InInt64 x) := inferInstanceAs (Decidable (_ ∧ _))

lemma wrap64_inInt64 : InInt64 (wrap64 x) := by
  unfold wrap64 InInt64; omega

lemma wrap64_of_inInt64 {x : Int} (h : InInt64 x) : wrap64 x = x := by
  unfold wrap64; unfold InInt64 at h; omega

/-! ## Digits -/

def isDigit (b : UInt8) : Bool := 48 ≤ b && b ≤ 57

lemma isDigit_le {b : UInt8} (h : isDigit b = true) : 48 ≤ b ∧ b ≤ 57 := by simpa [isDigit] using h

def digitVal (b : UInt8) : Nat := b.toNat - 48

/-- The value of a digit string read after `acc`. -/
def digitsVal (acc : Nat) (b : Bytes) : Nat := b.foldl (fun v d => 10 * v + digitVal d) acc

/-- A nonempty string of digits, as a natural number. -/
def parseDigits (b : Bytes) : Option Nat :=
  if b ≠ [] ∧ b.all isDigit then some (digitsVal 0 b) else none

variable (n : Nat)

def formatNat : Bytes := (Nat.toDigits 10 n).map fun c => c.toNat.toUInt8

lemma char_isDigit_range {c : Char} (h : c.isDigit = true) : 48 ≤ c.toNat ∧ c.toNat ≤ 57 := by
  simpa [Char.isDigit, UInt32.le_iff_toNat_le] using h

lemma digitVal_char {c : Char} (h : c.isDigit = true) : digitVal c.toNat.toUInt8 = c.toNat - '0'.toNat := by
  obtain ⟨h1, h2⟩ := char_isDigit_range h
  have hm : c.toNat % 2 ^ 8 = c.toNat := Nat.mod_eq_of_lt (by omega)
  rw [digitVal, Nat.toUInt8, UInt8.toNat_ofNat', hm]
  rfl

lemma digitsVal_chars (cs : List Char) (acc : Nat) (h : ∀ c ∈ cs, c.isDigit = true) :
    digitsVal acc (cs.map fun c => c.toNat.toUInt8) = Nat.ofDigitChars 10 cs acc := by
  induction cs generalizing acc with
  | nil => rw [Nat.ofDigitChars_nil]; rfl
  | cons c cs ih =>
    rw [Nat.ofDigitChars_cons, ← digitVal_char (h c (by simp))]
    exact ih _ fun d hd => h d (mem_cons_of_mem _ hd)

lemma formatNat_isDigit : ∀ b ∈ formatNat n, isDigit b = true := by
  intro b hb
  obtain ⟨c, hc, rfl⟩ := mem_map.1 hb
  have := char_isDigit_range (Nat.isDigit_of_mem_toDigits (by decide) (by decide) hc)
  simp only [isDigit, Bool.and_eq_true, decide_eq_true_eq, UInt8.le_iff_toNat_le, Nat.toUInt8,
    UInt8.toNat_ofNat']
  constructor
  · change 48 ≤ _; omega
  · change _ ≤ 57; omega

lemma formatNat_ne_nil : formatNat n ≠ [] := by
  simp [formatNat, Nat.toDigits_ne_nil]

lemma parseDigits_formatNat : parseDigits (formatNat n) = some n := by
  have hd : (formatNat n).all isDigit = true := all_eq_true.2 (formatNat_isDigit n)
  rw [parseDigits, if_pos ⟨formatNat_ne_nil n, hd⟩]
  unfold formatNat
  rw [digitsVal_chars _ _ fun c hc => Nat.isDigit_of_mem_toDigits (by decide) (by decide) hc,
    Nat.ofDigitChars_ten_toDigits]

lemma formatNat_injective {n m : Nat} (h : formatNat n = formatNat m) : n = m := by
  have hparse := parseDigits_formatNat n
  rw [h, parseDigits_formatNat] at hparse
  exact (Option.some.inj hparse).symm

lemma isDigit_ne {b c : UInt8} (hb : isDigit b = true) (hc : isDigit c = false) : b ≠ c := by
  rintro rfl; rw [hb] at hc; cases hc

/-! ## Signed integers -/

/-- `strconv.ParseInt(s, 10, 64)`: an optional sign, then digits, within the `int64` range. -/
def parseInt : Bytes → Option Int
  | [] => none
  | c :: cs =>
    if c = 45 then
      match parseDigits cs with
      | some v => if v ≤ 2 ^ 63 then some (-(v : Int)) else none
      | none => none
    else
      match parseDigits (if c = 43 then cs else c :: cs) with
      | some v => if v < 2 ^ 63 then some (v : Int) else none
      | none => none

/-- `strconv.ParseUint(s, 10, 64)`. -/
def parseUint (b : Bytes) : Option Nat :=
  match parseDigits b with
  | some v => if v < 2 ^ 64 then some v else none
  | none => none

/-- `strconv.FormatInt(n, 10)`. -/
def formatInt (n : Int) : Bytes :=
  if n < 0 then 45 :: formatNat n.natAbs else formatNat n.natAbs

lemma formatInt_length_le {n : Int} (h : InInt64 n) : (formatInt n).length ≤ 20 := by
  have hdigits : (formatNat n.natAbs).length ≤ 19 := by
    rw [formatNat, length_map, Nat.length_toDigits_le_iff (by decide) (by decide)]
    unfold InInt64 at h; omega
  unfold formatInt
  split_ifs
  · rw [length_cons]; omega
  · omega

lemma parseInt_formatNat : parseInt (formatNat n) = if n < 2 ^ 63 then some (n : Int) else none := by
  cases h : formatNat n with
  | nil => exact absurd h (formatNat_ne_nil n)
  | cons c cs =>
    have hc : isDigit c = true := formatNat_isDigit n c (by rw [h]; exact mem_cons_self ..)
    have h45 : c ≠ 45 := isDigit_ne hc (by decide)
    have h43 : c ≠ 43 := isDigit_ne hc (by decide)
    rw [parseInt, if_neg h45, if_neg h43, ← h, parseDigits_formatNat]

lemma parseInt_formatInt {n : Int} (h : InInt64 n) : parseInt (formatInt n) = some n := by
  unfold InInt64 at h
  unfold formatInt
  split
  · rename_i hn
    rw [parseInt, if_pos rfl, parseDigits_formatNat]
    simp only
    rw [if_pos (by omega)]
    congr 1; omega
  · rename_i hn
    rw [parseInt_formatNat, if_pos (by omega)]
    congr 1; omega

lemma parseUint_formatNat {n : Nat} (h : n < 2 ^ 64) : parseUint (formatNat n) = some n := by
  rw [parseUint, parseDigits_formatNat]
  simp only
  rw [if_pos h]

lemma parseInt_inInt64 {b : Bytes} {n : Int} (h : parseInt b = some n) : InInt64 n := by
  unfold InInt64
  cases b with
  | nil => cases h
  | cons c cs =>
  rw [parseInt] at h
  split at h
  all_goals
    split at h
    · split at h
      · cases h; omega
      · cases h
    · cases h

end Gopherdis.Lib

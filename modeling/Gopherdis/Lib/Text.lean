/-
The string functions of the Go library that the command handlers use, on byte strings: white space
trimming, splitting, and the case mappings as far as comparisons with ASCII words can see them.
-/
import Gopherdis.Lib.Decimal

namespace Gopherdis.Lib

open List

variable {b c : UInt8} {α : Type}

/-! ## White space -/

/-- The width in bytes of a white space rune at the head of a UTF-8 string, zero when there is none. -/
def spaceWidth : Bytes → Nat
  | 0xC2 :: 0x85 :: _ => 2
  | 0xC2 :: 0xA0 :: _ => 2
  | 0xE1 :: 0x9A :: 0x80 :: _ => 3
  | 0xE2 :: 0x80 :: c :: _ =>
    if (0x80 ≤ c ∧ c ≤ 0x8A) ∨ c = 0xA8 ∨ c = 0xA9 ∨ c = 0xAF then 3 else 0
  | 0xE2 :: 0x81 :: 0x9F :: _ => 3
  | 0xE3 :: 0x80 :: 0x80 :: _ => 3
  | c :: _ => if (9 ≤ c ∧ c ≤ 13) ∨ c = 32 then 1 else 0
  | [] => 0

/-- The width of the white space rune a string ends in, given the string reversed. -/
def lastSpaceWidth (r : Bytes) : Nat :=
  if spaceWidth (r.take 3).reverse = 3 then 3
  else if spaceWidth (r.take 2).reverse = 2 then 2
  else if spaceWidth (r.take 1).reverse = 1 then 1
  else 0

/-- Drops runes of the width `w` measures, and `skip` more bytes of the current one. -/
def trimLoop (w : Bytes → Nat) : Nat → Bytes → Bytes
  | _, [] => []
  | skip + 1, _ :: bs => trimLoop w skip bs
  | 0, b :: bs =>
    match w (b :: bs) with
    | 0 => b :: bs
    | n + 1 => trimLoop w n bs

def trimSpace (b : Bytes) : Bytes := (trimLoop lastSpaceWidth 0 (trimLoop spaceWidth 0 b).reverse).reverse

/-- Bytes that neither are white space nor begin or end a white space rune. -/
def plain (b : UInt8) : Bool := 33 ≤ b && b < 128

lemma spaceWidth_plain (h : plain b = true) (bs : Bytes) : spaceWidth (b :: bs) = 0 := by
  have hr : 33 ≤ b ∧ b < 128 := by simpa [plain] using h
  unfold spaceWidth
  split <;> first
    | rfl
    | (rename_i he; obtain ⟨rfl, -⟩ := List.cons.inj he; exact absurd hr (by decide))
    | skip
  rename_i he
  obtain ⟨rfl, -⟩ := List.cons.inj he
  simp only [UInt8.le_iff_toNat_le, UInt8.lt_iff_toNat_lt, UInt8.ext_iff] at hr ⊢
  simp at hr ⊢
  omega

lemma spaceWidth_three {a : UInt8} (h : plain c = true) : spaceWidth [a, b, c] ≠ 3 := by
  have hr : 33 ≤ c ∧ c < 128 := by simpa [plain] using h
  unfold spaceWidth
  split
  case h_4 he =>
    obtain ⟨-, he⟩ := List.cons.inj he
    obtain ⟨-, he⟩ := List.cons.inj he
    obtain ⟨rfl, -⟩ := List.cons.inj he
    rw [if_neg]
    · decide
    · simp only [UInt8.le_iff_toNat_le, UInt8.lt_iff_toNat_lt, UInt8.ext_iff] at hr ⊢
      simp at hr ⊢
      omega
  case h_7 => split <;> decide
  all_goals first
    | decide
    | (rename_i he; simp only [List.cons.injEq] at he; obtain ⟨-, -, rfl, -⟩ := he; exact absurd hr (by decide))

lemma spaceWidth_two (h : plain c = true) : spaceWidth [b, c] ≠ 2 := by
  have hr : 33 ≤ c ∧ c < 128 := by simpa [plain] using h
  unfold spaceWidth
  split
  case h_7 => split <;> decide
  all_goals first
    | decide
    | (rename_i he; simp only [List.cons.injEq] at he; obtain ⟨-, rfl, -⟩ := he; exact absurd hr (by decide))

lemma spaceWidth_le_length (b : Bytes) : spaceWidth b ≤ b.length := by
  unfold spaceWidth
  split <;> (try split) <;> simp

lemma lastSpaceWidth_plain (h : plain c = true) (r : Bytes) : lastSpaceWidth (c :: r) = 0 := by
  have h1 : spaceWidth [c] ≠ 1 := by rw [spaceWidth_plain h]; decide
  have h2 (b : UInt8) : spaceWidth [b, c] ≠ 2 := spaceWidth_two h
  have h3 (a b : UInt8) : spaceWidth [a, b, c] ≠ 3 := spaceWidth_three h
  unfold lastSpaceWidth
  match r with
  | [] => simp [spaceWidth_plain h]
  | [b] =>
    have h3' : spaceWidth [b, c] ≠ 3 := by have := spaceWidth_le_length [b, c]; simp at this; omega
    simp [h1, h2, h3']
  | b :: a :: _ => simp [h1, h2, h3]

lemma trimSpace_plain {b : Bytes} (h : ∀ c ∈ b, plain c = true) : trimSpace b = b := by
  have hl : trimLoop spaceWidth 0 b = b := by
    cases b with
    | nil => rfl
    | cons c cs => rw [trimLoop, spaceWidth_plain (h c (mem_cons_self ..))]
  have hr : trimLoop lastSpaceWidth 0 b.reverse = b.reverse := by
    cases hb : b.reverse with
    | nil => rfl
    | cons c cs =>
      have hc : c ∈ b := by rw [← mem_reverse, hb]; exact mem_cons_self ..
      rw [trimLoop, lastSpaceWidth_plain (h c hc)]
  rw [trimSpace, hl, hr, reverse_reverse]

/-! ## Splitting -/

/-- `strings.Split` at a one-byte separator. -/
def split (sep : UInt8) : Bytes → List Bytes
  | [] => [[]]
  | b :: bs =>
    if b = sep then [] :: split sep bs
    else
      match split sep bs with
      | [] => [[b]]
      | part :: parts => (b :: part) :: parts

lemma split_none {sep : UInt8} {b : Bytes} (h : sep ∉ b) : split sep b = [b] := by
  induction b with
  | nil => rfl
  | cons c cs ih =>
    rw [mem_cons, not_or] at h
    rw [split, if_neg (Ne.symm h.1), ih h.2]

lemma split_append {sep : UInt8} {b : Bytes} (h : sep ∉ b) (rest : Bytes) :
    split sep (b ++ sep :: rest) = b :: split sep rest := by
  induction b with
  | nil => rw [nil_append, split, if_pos rfl]
  | cons c cs ih =>
    rw [mem_cons, not_or] at h
    rw [cons_append, split, if_neg (Ne.symm h.1), ih h.2]

/-! ## Pairs -/

/-- The elements of a list two by two; an odd one at the end is left out. -/
def pairUp {α : Type} : List α → List (α × α)
  | a :: b :: rest => (a, b) :: pairUp rest
  | _ => []

def unpair {α : Type} (ps : List (α × α)) : List α := ps.flatMap fun p => [p.1, p.2]

variable (ps : List (α × α))

@[simp] lemma pairUp_unpair : pairUp (unpair ps) = ps := by
  induction ps with
  | nil => rfl
  | cons p ps ih => exact congrArg (p :: ·) ih

@[simp] lemma unpair_length : (unpair ps).length = 2 * ps.length := by
  simp [unpair, length_flatMap, mul_comm]

lemma forall_mem_unpair {p : α → Prop} {ps : List (α × α)} : (∀ a ∈ unpair ps, p a) ↔ ∀ q ∈ ps, p q.1 ∧ p q.2 := by
  simp only [unpair, forall_mem_flatMap, forall_mem_cons, not_mem_nil, false_implies, implies_true,
    and_true]

/-! ## Case -/

/-- `strings.ToUpper`, as far as a comparison of the result with ASCII text can tell: besides the
ASCII letters the dotless i and the long s have an ASCII capital. -/
def toUpper : Bytes → Bytes
  | 0xC4 :: 0xB1 :: bs => 73 :: toUpper bs
  | 0xC5 :: 0xBF :: bs => 83 :: toUpper bs
  | b :: bs => (if 97 ≤ b ∧ b ≤ 122 then b - 32 else b) :: toUpper bs
  | [] => []

lemma toUpper_low (h : b ≤ 57) (bs : Bytes) : toUpper (b :: bs) = b :: toUpper bs := by
  have hlow : ¬ (97 ≤ b ∧ b ≤ 122) := by
    rintro ⟨h1, -⟩
    exact absurd (UInt8.le_trans h1 h) (by decide)
  rw [toUpper, if_neg hlow]
  all_goals
    rintro bs' rfl -
    exact absurd h (by decide)

lemma toUpper_ne_of_parseInt {w : Bytes} {n : Int} (h : parseInt w = some n) (hc : 57 < c) (cs : Bytes) :
    toUpper w ≠ c :: cs := by
  rcases w with _ | ⟨b, bs⟩
  · cases h
  have hb : b ≤ 57 := by
    by_cases hsign : b = 45 ∨ b = 43
    · rcases hsign with rfl | rfl <;> decide
    obtain ⟨hminus, hplus⟩ := not_or.1 hsign
    rw [parseInt, if_neg hminus, if_neg hplus] at h
    by_cases hd : b :: bs ≠ [] ∧ (b :: bs).all isDigit
    · exact (isDigit_le (all_eq_true.1 hd.2 b mem_cons_self)).2
    · rw [parseDigits, if_neg hd] at h
      cases h
  rw [toUpper_low hb]
  intro heq
  obtain ⟨rfl, -⟩ := List.cons.inj heq
  exact absurd hc (UInt8.not_lt.2 hb)

/-- The ASCII lower-casing of command names. -/
def toLowerASCII (b : Bytes) : Bytes := b.map fun c => if 65 ≤ c ∧ c ≤ 90 then c + 32 else c

/-- `strings.ToLower`, as far as a comparison of the result with ASCII text can tell: besides the
ASCII capitals the capital i with a dot and the Kelvin sign have an ASCII small letter. -/
def toLower : Bytes → Bytes
  | 0xC4 :: 0xB0 :: bs => 105 :: toLower bs
  | 0xE2 :: 0x84 :: 0xAA :: bs => 107 :: toLower bs
  | b :: bs => (if 65 ≤ b ∧ b ≤ 90 then b + 32 else b) :: toLower bs
  | [] => []

end Gopherdis.Lib

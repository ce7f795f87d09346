/-
Stream IDs: a millisecond part and a sequence part, compared lexicographically, with the text forms
`ParseID` reads. Only the fully automatic ID looks at the clock.
-/
import Gopherdis.Lib.Text

namespace Gopherdis.Stream

open Lib List UInt64

structure StreamID where
  ms : UInt64
  seq : UInt64
deriving DecidableEq, Repr

def zeroID : StreamID := ⟨0, 0⟩

def maxID : StreamID := ⟨ofNat (2 ^ 64 - 1), ofNat (2 ^ 64 - 1)⟩

/-- `Compare` answers -1. -/
def StreamID.lt (a b : StreamID) : Bool := a.ms < b.ms || (a.ms = b.ms && a.seq < b.seq)

variable (id : StreamID)

def StreamID.format : Bytes := formatNat id.ms.toNat ++ 45 :: formatNat id.seq.toNat

/-- The sequence part of a generated ID: the successor of the last one in the same millisecond. -/
def nextSeq (ms : UInt64) (lastID : StreamID) : UInt64 := if ms = lastID.ms then lastID.seq + 1 else 0

variable (nowMs : Nat) (lastID : StreamID)

/-- The ID `*` stands for at a clock reading: time never runs backwards in a stream. -/
def autoID : StreamID :=
  let now := ofNat nowMs
  let ms := if now < lastID.ms then lastID.ms else now
  ⟨ms, nextSeq ms lastID⟩

/-- `none` is `ErrInvalidIDFormat`. -/
def parseID (text : Bytes) (lastID : StreamID) : Option StreamID :=
  let s := trimSpace text
  if s = ascii "-" then some zeroID
  else if s = ascii "+" then some maxID
  else if s = ascii "*" then some (autoID nowMs lastID)
  else
    match split 45 s with
    | [ms] => (parseUint ms).map fun ms => ⟨ofNat ms, 0⟩
    | [ms, seq] =>
      match parseUint ms with
      | none => none
      | some ms =>
        if seq = ascii "*" then some ⟨ofNat ms, nextSeq (ofNat ms) lastID⟩
        else (parseUint seq).map fun seq => ⟨ofNat ms, ofNat seq⟩
    | _ => none

/-- The text that asks for an ID made from the clock. -/
def isAuto (text : Bytes) : Bool := trimSpace text = ascii "*"

lemma parseID_of_not_auto {text : Bytes} (h : isAuto text = false) (now now' : Nat) (lastID : StreamID) :
    parseID now text lastID = parseID now' text lastID := by
  have hs : trimSpace text ≠ ascii "*" := by simpa [isAuto] using h
  simp [parseID, if_neg hs]

lemma parseID_of_auto {text : Bytes} (h : isAuto text = true) (now : Nat) (lastID : StreamID) :
    parseID now text lastID = some (autoID now lastID) := by
  have hs : trimSpace text = ascii "*" := by simpa [isAuto] using h
  unfold parseID
  rw [hs]
  rfl

/-! ## The printed form -/

lemma plain_of_isDigit {b : UInt8} (h : isDigit b = true) : plain b = true := by
  simp only [isDigit, plain, Bool.and_eq_true, decide_eq_true_eq, UInt8.le_iff_toNat_le,
    UInt8.lt_iff_toNat_lt] at h ⊢
  simp at h ⊢
  omega

lemma formatNat_no_dash (n : Nat) : (45 : UInt8) ∉ formatNat n := fun h =>
  absurd (formatNat_isDigit n 45 h) (by decide)

lemma StreamID.format_plain : ∀ c ∈ id.format, plain c = true := by
  intro c hc
  rw [format, mem_append, mem_cons] at hc
  obtain hc | rfl | hc := hc
  · exact plain_of_isDigit (formatNat_isDigit _ c hc)
  · decide
  · exact plain_of_isDigit (formatNat_isDigit _ c hc)

lemma StreamID.format_ne {id : StreamID} {b : Bytes} (h : b.length ≤ 2) : id.format ≠ b := by
  intro he
  have h1 := length_pos_iff.2 (formatNat_ne_nil id.ms.toNat)
  have h2 := length_pos_iff.2 (formatNat_ne_nil id.seq.toNat)
  rw [← he, format, length_append, length_cons] at h
  omega

lemma parseID_format : parseID nowMs id.format lastID = some id := by
  have hms := parseUint_formatNat id.ms.toNat_lt
  have hseq := parseUint_formatNat id.seq.toNat_lt
  have hstar : formatNat id.seq.toNat ≠ ascii "*" := fun he =>
    absurd (formatNat_isDigit id.seq.toNat 42 (by rw [he]; decide)) (by decide)
  unfold parseID
  simp only [trimSpace_plain id.format_plain]
  rw [if_neg (StreamID.format_ne (by decide)), if_neg (StreamID.format_ne (by decide)),
    if_neg (StreamID.format_ne (by decide)), StreamID.format, split_append (formatNat_no_dash _),
    split_none (formatNat_no_dash _)]
  simp [hms, if_neg hstar, hseq, Option.map_some, UInt64.ofNat_toNat]

end Gopherdis.Stream

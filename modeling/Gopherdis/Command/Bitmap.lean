/-
The bitmap commands. Their loops take four words at a time, then single words, then bytes; `BITCOUNT` counts the
bytes that `GETRANGE` cuts out, but for two negative bounds in the wrong order.
-/
import Gopherdis.Command.Reads
import Gopherdis.Lib.Endian

namespace Gopherdis.Command

open Lib Codec Object Store List UInt8
open Encoded (BitOp)

/-! ## BITCOUNT and GETRANGE -/

variable (buf : Bytes) (start stop : Int)

/-- A bound counted from the end if it is negative, and not before the first byte. -/
def clamped (i : Int) : Int := max 0 (if i < 0 then buf.length + i else i)

/-- The bytes between two bounds. -/
def selected : Bytes :=
  let n := buf.length
  let start := clamped buf start
  let stop := clamped buf stop
  if n ≤ start ∨ stop < start then [] else (buf.take (min stop (n - 1) + 1).toNat).drop start.toNat

def countWords (k : Nat) (count : Nat) (chunk : Bytes) : Option Nat :=
  some (count + ((words k chunk).map (onesCount 64)).sum)

def bitCount : Nat :=
  let sub := selected buf start stop
  let r := chunkLoop 32 (countWords 4) sub.length 0 sub
  let r := chunkLoop 8 (countWords 1) sub.length r.1 r.2
  r.2.foldl (fun count b => count + onesCount 8 b.toNat) r.1

/-- `GETRANGE`, which looks at negative bounds in the wrong order first. -/
def getRange : Bytes := if start < 0 ∧ stop < 0 ∧ stop < start then [] else selected buf start stop

/-- An argument that may be left out. -/
def indexArg (argv : Argv) (i : Nat) (default : Int) : Option Int := (argv[i]?).elim (some default) parseInt

def bitcountCommand := readGeneric Encoded.stringOf (integer 0) fun argv b =>
  match indexArg argv 2 0, indexArg argv 3 (-1) with
  | some start, some stop => integer (bitCount b start stop)
  | _, _ => notAnInteger

def getrangeCommand (ctx : Context) (argv : Argv) (db : Keyspace) : Outcome :=
  match parseInt (argv.getD 2 []), parseInt (argv.getD 3 []) with
  | some start, some stop =>
    readGeneric Encoded.stringOf (bulkString []) (fun _ b => bulkString (getRange b start stop)) ctx argv db
  | _, _ => ⟨db, notAnInteger, none⟩

lemma countWords_keeps {k total : Nat} (s s' : Nat) (c bs : Bytes) (hc : c.length = 8 * k)
    (h : countWords k s c = some s') (hs : s + onesIn (c ++ bs) = total) : s' + onesIn bs = total := by
  cases h
  rw [onesCount_words hc, ← hs, onesIn, onesIn, onesIn, map_append, sum_append, Nat.add_assoc]

/-- The loops count every byte once. -/
lemma bitCount_eq : bitCount buf start stop = onesIn (selected buf start stop) := by
  rw [bitCount]
  generalize selected buf start stop = sub
  have hfold : ∀ r : Nat × Bytes, r.2.foldl (fun count b => count + onesCount 8 b.toNat) r.1 = r.1 + onesIn r.2 := by
    rintro ⟨count, bs⟩
    induction bs generalizing count with
    | nil => rfl
    | cons b bs ih => simp only [foldl_cons, ih, onesIn, map_cons, sum_cons, add_assoc]
  rw [hfold, chunkLoop_keeps (fun c bs => c + onesIn bs = onesIn sub) (countWords_keeps (k := 1)) _
    (chunkLoop_keeps (fun c bs => c + onesIn bs = onesIn sub) (countWords_keeps (k := 4)) _ (Nat.zero_add _))]

/-- Negative bounds in the wrong order, before a first byte that is not zero. -/
def Swapped : Prop := start < 0 ∧ stop < start ∧ buf.length + start ≤ 0 ∧ onesIn (buf.take 1) ≠ 0

lemma bitCount_eq_iff : bitCount buf start stop = onesIn (getRange buf start stop) ↔ ¬ Swapped buf start stop := by
  rw [bitCount_eq, getRange, Swapped]
  by_cases hbad : start < 0 ∧ stop < 0 ∧ stop < start
  · -- both bounds are moved to the first byte, or stay in the wrong order
    have hsel : selected buf start stop = if buf.length + start ≤ 0 then buf.take 1 else [] := by
      simp only [selected, clamped, if_pos hbad.1, if_pos hbad.2.1]
      rcases buf with _ | ⟨b, bs⟩
      · simp
      have hn : ((b :: bs).length : Int) = bs.length + 1 := by simp
      split_ifs
      · omega
      · rfl
      · rw [show (max 0 (((b :: bs).length : Int) + start)).toNat = 0 by omega,
          show (min (max 0 (((b :: bs).length : Int) + stop)) ((b :: bs).length - 1) + 1).toNat = 1 by omega]
        rfl
      · omega
    rw [if_pos hbad, hsel]
    split_ifs with hfront
    · simp [hbad, hfront, onesIn]
    · simp [hfront]
  · rw [if_neg hbad]
    exact iff_of_true rfl fun h => hbad ⟨h.1, h.2.1.trans h.1, h.2.1⟩

/-- The count is of what `GETRANGE` returns, but for swapped negative bounds, which `GETRANGE` checks first. -/
theorem bitcount_counts_getrange_iff {ctx : Context} {db db' : Keyspace} {key b s e : Bytes} {start stop : Int}
    (hget : db.get ctx.now key = (db', some (.str b))) (hs : parseInt s = some start) (he : parseInt e = some stop) :
    (bitcountCommand ctx [ascii "BITCOUNT", key, s, e] db).reply = integer (bitCount b start stop) ∧
      (getrangeCommand ctx [ascii "GETRANGE", key, s, e] db).reply = bulkString (getRange b start stop) ∧
      (bitCount b start stop = onesIn (getRange b start stop) ↔ ¬ Swapped b start stop) := by
  refine ⟨?_, ?_, bitCount_eq_iff b start stop⟩
  · simp [bitcountCommand, readGeneric, hget, indexArg, hs, he, Encoded.stringOf]
  · simp [getrangeCommand, readGeneric, hget, hs, he, Encoded.stringOf]

/-- The letter `a` under the key `k`. -/
def oneLetter : Keyspace := Finmap.singleton (ascii "k") ⟨.str (ascii "a"), 0⟩

/-- All but three of 45 letters, with the bounds counted from the end. -/
theorem bitcount_most_letters : bitCount (List.replicate 45 97) (-43) (-2) =
    onesIn (getRange (List.replicate 45 97) (-43) (-2)) :=
  (@bitcount_counts_getrange_iff (openContext .zero) (Finmap.singleton (ascii "k") ⟨.str (List.replicate 45 97), 0⟩) _
    (ascii "k") (List.replicate 45 97) (ascii "-43") (ascii "-2") (-43) (-2) rfl rfl rfl).2.2.2
    fun h => absurd h.2.1 (by decide)

/-- `BITCOUNT k -5 -6` counts the bits of the letter, where `GETRANGE k -5 -6` returns nothing. -/
theorem bitcount_counts_more :
    (bitcountCommand (openContext .zero) [ascii "BITCOUNT", ascii "k", ascii "-5", ascii "-6"] oneLetter).reply =
        integer 3 ∧
      (getrangeCommand (openContext .zero) [ascii "GETRANGE", ascii "k", ascii "-5", ascii "-6"] oneLetter).reply =
        bulkString [] := by
  decide

/-! ## BITPOS -/

section
variable (bit : Bool)

/-- The byte without the bit. -/
def plain : UInt8 := if bit then 0 else 255

/-- `LeadingZeros8` of the byte or of its complement: where the bit is first. -/
def leading (b : UInt8) : Nat := ((List.range 8).find? fun j => b.toNat.testBit (7 - j) = bit).getD 8

/-- Words without the bit are skipped. -/
def skipWords (k i : Nat) (chunk : Bytes) : Option Nat :=
  if bit then if (words k chunk).foldl (· ||| ·) 0 ≠ 0 then none else some (i + 8 * k)
  else if (words k chunk).foldl (· &&& ·) (2 ^ 64 - 1) ≠ 2 ^ 64 - 1 then none else some (i + 8 * k)

def findByte : Nat → Bytes → Option Nat
  | _, [] => none
  | i, b :: bs => if b ≠ plain bit then some (8 * i + leading bit b) else findByte (i + 1) bs

/-- The bit in the bytes from `first` on. -/
def search (first : Nat) (sub : Bytes) : Option Nat :=
  let r := chunkLoop 32 (skipWords bit 4) sub.length 0 sub
  let r := chunkLoop 8 (skipWords bit 1) sub.length r.1 r.2
  findByte bit (first + r.1) r.2

/-- `BitPos`; an end that is left out is the last byte. -/
def bitPos (stop : Option Int) : Int :=
  let n := buf.length
  let absent : Int := if bit = false ∧ stop = none then 8 * n else -1
  let first := clamped buf start
  if n ≤ first then absent
  else if min (clamped buf (stop.getD (-1))) (n - 1) < first then -1
  else ((search bit first.toNat (selected buf start (stop.getD (-1)))).map Int.ofNat).getD absent

/-- A bit of the string, continued with zeros. -/
def bitAt (buf : Bytes) (p : Nat) : Bool := (buf.getD (p / 8) 0).toNat.testBit (7 - p % 8)

variable {bit}

lemma testBit_plain {j : Nat} (hj : j < 8) : (plain bit).toNat.testBit j ≠ bit := by
  cases bit <;> interval_cases j <;> decide

lemma leading_spec {b : UInt8} (h : b ≠ plain bit) : leading bit b < 8 ∧ b.toNat.testBit (7 - leading bit b) = bit ∧
    ∀ j < leading bit b, b.toNat.testBit (7 - j) ≠ bit := by
  have hall : ∀ bit, ∀ n < 256, ofNat n ≠ plain bit → leading bit (ofNat n) < 8 := by decide +kernel
  have hlt := hall bit b.toNat b.toNat_lt
  rw [UInt8.ofNat_toNat] at hlt
  have hlt := hlt h
  rw [leading] at hlt ⊢
  cases hfind : (List.range 8).find? fun j => b.toNat.testBit (7 - j) = bit with
  | none => rw [hfind] at hlt; exact absurd hlt (by decide)
  | some j =>
    simpa [and_left_comm] using hfind

lemma findByte_append {c : Bytes} (hc : ∀ b ∈ c, b = plain bit) (i : Nat) (l : Bytes) :
    findByte bit i (c ++ l) = findByte bit (i + c.length) l := by
  induction c generalizing i with
  | nil => rfl
  | cons b c ih =>
    rw [forall_mem_cons] at hc
    rw [cons_append, findByte, if_neg (not_not.2 hc.1), ih hc.2, length_cons, Nat.add_right_comm, Nat.add_assoc]

lemma of_foldl {P : Nat → Prop} {f : Nat → Nat → Nat} (hf : ∀ a b, P (f a b) → P a ∧ P b) {ws : List Nat} {acc : Nat}
    (h : P (ws.foldl f acc)) : P acc ∧ ∀ w ∈ ws, P w := by
  induction ws generalizing acc with
  | nil => exact ⟨h, by simp⟩
  | cons w ws ih =>
    obtain ⟨hacc, hws⟩ := ih h
    exact ⟨(hf _ _ hacc).1, forall_mem_cons.2 ⟨(hf _ _ hacc).2, hws⟩⟩

lemma skipWords_keeps {k s : Nat} {r : Option Nat} (i i' : Nat) (c l : Bytes) (hc : c.length = 8 * k)
    (h : skipWords bit k i c = some i') (hr : findByte bit (s + i) (c ++ l) = r) : findByte bit (s + i') l = r := by
  have hi : i' = i + c.length := by
    unfold skipWords at h
    split_ifs at h <;> cases h <;> rw [hc]
  have hwords : ∀ w ∈ words k c, w < 2 ^ 64 → w = leVal (replicate 8 (plain bit)) := by
    unfold skipWords at h
    split_ifs at h with hbit hzero hones
    · intro w hw _
      rw [(of_foldl (P := (· = 0)) (fun _ _ => Nat.or_eq_zero_iff.1) (not_not.1 hzero)).2 w hw, hbit]
      decide
    · intro w hw hlt
      have hle := (of_foldl (P := (2 ^ 64 - 1 ≤ ·)) (f := (· &&& ·))
        (fun _ _ h => ⟨h.trans Nat.and_le_left, h.trans Nat.and_le_right⟩) (not_not.1 hones).ge).2 w hw
      rw [Bool.eq_false_of_not_eq_true hbit, show leVal (replicate 8 (plain false)) = 2 ^ 64 - 1 by decide]
      omega
  have hall : ∀ b ∈ c, b = plain bit := by
    clear h hr hi
    induction k generalizing c with
    | zero => simp [length_eq_zero_iff.1 hc]
    | succ k ih =>
    rw [words, forall_mem_cons] at hwords
    have hlen : (c.take 8).length = 8 := by simp; omega
    have hlt := leVal_lt (c.take 8)
    have hword := leBytes_leVal (c.take 8)
    rw [hlen] at hlt
    rw [hwords.1 hlt, hlen] at hword
    rw [← c.take_append_drop 8, forall_mem_append, hword.symm.trans (leBytes_leVal (replicate 8 (plain bit)))]
    exact ⟨fun b => eq_of_mem_replicate, ih _ (by simp; omega) hwords.2⟩
  rw [hi, ← Nat.add_assoc, ← findByte_append hall, hr]

lemma search_eq (first : Nat) (sub : Bytes) : search bit first sub = findByte bit first sub :=
  chunkLoop_keeps (fun i l => findByte bit (first + i) l = findByte bit first sub) (skipWords_keeps (k := 1)) _
    (chunkLoop_keeps (fun i l => findByte bit (first + i) l = _) (skipWords_keeps (k := 4)) _ rfl)

lemma bitAt_of_div {A B : Bytes} {b : UInt8} {q : Nat} (h : q / 8 = A.length) :
    bitAt (A ++ b :: B) q = b.toNat.testBit (7 - q % 8) := by simp [bitAt, h]

/-- What a search finds is the first of its bits. -/
lemma findByte_spec (bit : Bool) (A sub B : Bytes) :
    (∀ p ∈ findByte bit A.length sub, 8 * A.length ≤ p ∧ bitAt (A ++ sub ++ B) p = bit) ∧
      ∀ q, 8 * A.length ≤ q → q < (findByte bit A.length sub).getD (8 * (A.length + sub.length)) →
        bitAt (A ++ sub ++ B) q ≠ bit := by
  induction sub generalizing A with
  | nil => exact ⟨fun p hp => (by cases hp), fun q h1 h2 => by simp [findByte] at h2; omega⟩
  | cons b sub ih =>
  rw [append_assoc, cons_append, findByte]
  split_ifs with hb
  · obtain ⟨hlt, hat, hfirst⟩ := leading_spec hb
    refine ⟨fun p hp => ?_, fun q h1 h2 => ?_⟩
    · cases hp
      rw [bitAt_of_div (by omega), show (8 * A.length + leading bit b) % 8 = leading bit b by omega]
      exact ⟨by omega, hat⟩
    · rw [Option.getD_some] at h2
      rw [bitAt_of_div (by omega)]
      exact hfirst _ (by omega)
  · obtain ⟨hat, hfirst⟩ := ih (A ++ [b])
    rw [length_append, length_singleton, append_assoc, append_assoc, singleton_append] at hat hfirst
    refine ⟨fun p hp => ⟨by have := (hat p hp).1; omega, (hat p hp).2⟩, fun q h1 h2 => ?_⟩
    by_cases hq : q < 8 * (A.length + 1)
    · rw [bitAt_of_div (by omega), not_not.1 hb]
      exact testBit_plain (by omega)
    · refine hfirst q (by omega) ?_
      rwa [length_cons, Nat.add_comm sub.length, ← Nat.add_assoc] at h2

/-- A position is that of the first bit; without one no selected byte has the bit, and the zeros behind the string do
not count. -/
def FindsFirst (r : Int) (bit : Bool) (stop : Option Int) : Prop :=
  let first := clamped buf start
  (0 ≤ r → 8 * first ≤ r ∧ bitAt buf r.toNat = bit ∧ ∀ q : Nat, 8 * first ≤ q → q < r → bitAt buf q ≠ bit) ∧
    (r = -1 → (∀ q : Nat, 8 * first ≤ q → q < 8 * (clamped buf (stop.getD (-1)) + 1) → q / 8 < buf.length →
      bitAt buf q ≠ bit) ∧ ¬ (bit = false ∧ stop = none ∧ first < buf.length))

lemma bitAt_of_le {q : Nat} (h : buf.length ≤ q / 8) : bitAt buf q = false := by simp [bitAt, h]

lemma findByte_selected (bit : Bool) {stop : Int} (h : clamped buf start ≤ min (clamped buf stop) (buf.length - 1)) :
    (∀ p ∈ findByte bit (clamped buf start).toNat (selected buf start stop),
      8 * clamped buf start ≤ p ∧ bitAt buf p = bit) ∧
    ∀ q : Nat, 8 * clamped buf start ≤ q →
      q < (findByte bit (clamped buf start).toNat (selected buf start stop)).getD
        (8 * (min (clamped buf stop) (buf.length - 1) + 1).toNat) → bitAt buf q ≠ bit := by
  rw [selected, if_neg (by omega)]
  generalize clamped buf start = first at *
  generalize hm : (min (clamped buf stop) (buf.length - 1) + 1).toNat = m at *
  have hspec := findByte_spec bit (buf.take first.toNat) ((buf.take m).drop first.toNat) (buf.drop m)
  have htake : buf.take first.toNat = (buf.take m).take first.toNat := by
    rw [take_take, Nat.min_eq_left (show first.toNat ≤ m by omega)]
  have hA : (buf.take first.toNat).length = first.toNat := length_take_of_le (by omega)
  have hsub : first.toNat + ((buf.take m).drop first.toNat).length = m := by simp; omega
  rw [hA, hsub, htake, take_append_drop, take_append_drop] at hspec
  exact ⟨fun p hp => ⟨by have := (hspec.1 p hp).1; omega, (hspec.1 p hp).2⟩, fun q h1 => hspec.2 q (by omega)⟩

/-- `BITPOS` finds the first bit, unless it looks for a zero from behind the end of the string on. -/
theorem bitPos_first_iff (bit : Bool) (stop : Option Int) : FindsFirst buf start (bitPos buf start bit stop) bit stop ↔
    ¬ (bit = false ∧ stop = none ∧ buf.length < clamped buf start) := by
  have hfirst : 0 ≤ clamped buf start := le_max_left _ _
  have hlast : clamped buf (-1) = max 0 ((buf.length : Int) + -1) := rfl
  have hbehind := bitAt_of_le buf (q := 8 * buf.length) (by omega)
  simp only [FindsFirst, bitPos, search_eq]
  by_cases hout : buf.length ≤ clamped buf start
  · rw [if_pos hout]
    split_ifs with hzero
    · obtain ⟨rfl, rfl⟩ := hzero
      simp only [true_and]
      refine ⟨fun h => ?_, fun h => ⟨fun _ => ⟨by omega, hbehind, fun q h1 h2 => by omega⟩, fun h => by omega⟩⟩
      have := (h.1 (by omega)).1
      omega
    · exact iff_of_true ⟨fun h => by omega, fun _ => ⟨fun q h1 h2 h3 => by omega, by tauto⟩⟩ (by tauto)
  rw [if_neg hout]
  refine iff_of_true ?_ (by omega)
  split_ifs with hrev hzero
  · refine ⟨fun h => by omega, fun _ => ⟨fun q h1 h2 h3 => by omega, ?_⟩⟩
    rintro ⟨-, rfl, -⟩
    rw [Option.getD_none] at hrev
    omega
  all_goals
    obtain ⟨hat, hbefore⟩ := findByte_selected buf start bit (not_lt.1 hrev)
    cases hf : findByte bit (clamped buf start).toNat (selected buf start (stop.getD (-1))) with
    | some p =>
      rw [hf] at hat hbefore
      exact ⟨fun _ => ⟨(hat p rfl).1, (hat p rfl).2, fun q h1 h2 => hbefore q h1 (Int.ofNat_lt.1 h2)⟩, fun h => by cases h⟩
    | none => ?_
    rw [hf] at hbefore
    simp only [Option.map_none, Option.getD_none] at hbefore ⊢
  · obtain ⟨rfl, rfl⟩ := hzero
    rw [Option.getD_none] at hbefore hrev
    exact ⟨fun _ => ⟨by omega, hbehind, fun q h1 h2 => hbefore q h1 (by omega)⟩, fun h => by omega⟩
  · exact ⟨fun h => absurd h (by decide), fun _ => ⟨fun q h1 h2 h3 => hbefore q h1 (by omega), by tauto⟩⟩

/-- In a string of one byte, `BITPOS k 0 5` finds a zero before byte 5. -/
theorem zero_before_start : ¬ FindsFirst (ascii "a") 5 (bitPos (ascii "a") 5 false none) false none := fun h =>
  absurd (h.1 (by decide)).1 (by decide)

end

/-! ## BITOP -/

section
variable (word : Nat → Nat → Nat) (byte : UInt8 → UInt8 → UInt8) (clear : Bool)

def opBytes (chunk : List (UInt8 × UInt8)) : Bytes := chunk.map fun p => byte p.1 p.2

def opWords (k : Nat) (out : Bytes) (chunk : List (UInt8 × UInt8)) : Option Bytes :=
  some (out ++ (zipWith word (words k (chunk.map Prod.fst)) (words k (chunk.map Prod.snd))).flatMap (leBytes 8))

/-- The loops over a source and as much of `dst`; `AND` clears what is behind. -/
def opSource (dst src : Bytes) : Bytes :=
  let r := chunkLoop 32 (opWords word 4) src.length [] (dst.zip src)
  let r := chunkLoop 8 (opWords word 1) src.length r.1 r.2
  let rest := dst.drop src.length
  r.1 ++ opBytes byte r.2 ++ if clear then replicate rest.length 0 else rest

end

/-- `BitOp`. The complement of a word is its exclusive or with ones. -/
def bitOp (op : BitOp) : List Bytes → Bytes
  | [] => []
  | src :: srcs =>
    let n := maxLen (src :: srcs)
    match op with
    | .not => opSource (· ^^^ ·) (· ^^^ ·) false src (replicate src.length 255)
    | .and => srcs.foldl (opSource (· &&& ·) (· &&& ·) true) (src ++ replicate (n - src.length) 0)
    | .or => (src :: srcs).foldl (opSource (· ||| ·) (· ||| ·) false) (replicate n 0)
    | .xor => (src :: srcs).foldl (opSource (· ^^^ ·) (· ^^^ ·) false) (replicate n 0)

section
variable {f : Bool → Bool → Bool} (hf : f false false = false) {byte : UInt8 → UInt8 → UInt8}
  (hbyte : ∀ x y, (byte x y).toNat = Nat.bitwise f x.toNat y.toNat)
include hf hbyte

lemma bitwise_leVal (ps : List (UInt8 × UInt8)) :
    Nat.bitwise f (leVal (ps.map Prod.fst)) (leVal (ps.map Prod.snd)) = leVal (opBytes byte ps) := by
  induction ps with
  | nil => simp [leVal, opBytes, Nat.bitwise]
  | cons p ps ih => rw [map_cons, map_cons, leVal, leVal, bitwise_block hf, ih, ← hbyte]; rfl

lemma opWords_keeps {k : Nat} {total : Bytes} (out out' : Bytes) (c l : List (UInt8 × UInt8)) (hc : c.length = 8 * k)
    (h : opWords (Nat.bitwise f) k out c = some out') (ht : out ++ opBytes byte (c ++ l) = total) :
    out' ++ opBytes byte l = total := by
  have hwords : (zipWith (Nat.bitwise f) (words k (c.map Prod.fst)) (words k (c.map Prod.snd))).flatMap (leBytes 8) =
      opBytes byte c := by
    clear h ht
    induction k generalizing c with
    | zero => rw [length_eq_zero_iff.1 hc]; rfl
    | succ k ih =>
    have hword := leBytes_leVal (opBytes byte (c.take 8))
    rw [opBytes, length_map, length_take_of_le (by omega)] at hword
    rw [words, words, zipWith_cons_cons, flatMap_cons, ← map_take, ← map_take, bitwise_leVal hf hbyte, opBytes, hword,
      ← map_drop, ← map_drop, ih _ (by rw [length_drop]; omega), opBytes, ← map_append, take_append_drop]
    rfl
  cases h
  rw [hwords, ← ht, opBytes, opBytes, opBytes, map_append, append_assoc]

lemma opSource_eq {clear : Bool} (hzero : ∀ x, byte x 0 = if clear then 0 else x) (dst src : Bytes) :
    opSource (Nat.bitwise f) byte clear dst src = dst.mapIdx fun i x => byte x (src.getD i 0) := by
  have hloops := chunkLoop_keeps (fun out l => out ++ opBytes byte l = opBytes byte (dst.zip src))
    (opWords_keeps hf hbyte (k := 1)) src.length (chunkLoop_keeps (fun out l => out ++ opBytes byte l = _)
      (opWords_keeps hf hbyte (k := 4)) src.length (nil_append _))
  rw [opSource, hloops]
  clear hloops
  induction dst generalizing src with
  | nil => simp [opBytes]
  | cons x dst ih =>
    cases src with
    | nil => cases clear <;> simpa [opBytes, hzero, replicate_succ] using ih []
    | cons y src => simpa [opBytes] using ih src

lemma foldl_opSource {clear : Bool} (hzero : ∀ x, byte x 0 = if clear then 0 else x) (srcs : List Bytes) (dst : Bytes) :
    srcs.foldl (opSource (Nat.bitwise f) byte clear) dst =
      (List.range dst.length).map fun i => srcs.foldl (fun acc s => byte acc (s.getD i 0)) (dst.getD i 0) := by
  have hmap : srcs.foldl (opSource (Nat.bitwise f) byte clear) dst =
      dst.mapIdx fun i x => srcs.foldl (fun acc s => byte acc (s.getD i 0)) x := by
    induction srcs generalizing dst with
    | nil => exact ext_getElem (by simp) fun i _ _ => by simp
    | cons s srcs ih => rw [foldl_cons, ih, opSource_eq hf hbyte hzero, mapIdx_mapIdx]; rfl
  rw [hmap]
  refine ext_getElem (by simp) fun i h1 h2 => ?_
  simp at h1 ⊢
  simp [h1]

end

/-- The loops do what the definition says byte by byte. -/
lemma bitOp_eq_eval (op : BitOp) : ∀ srcs, bitOp op srcs = op.eval srcs
  | [] => rfl
  | src :: srcs => by
    have hmax : src.length ≤ maxLen (src :: srcs) := by
      rw [maxLen, map_cons, foldl_cons, max_comm, foldl_assoc]
      exact le_max_left _ _
    cases op with
    | not =>
      refine (opSource_eq rfl UInt8.toNat_xor (fun _ => UInt8.xor_zero) src _).trans ?_
      refine ext_getElem (by simp [BitOp.eval]) fun i h1 h2 => ?_
      have hi : i < src.length := by simpa using h1
      have hnot : src[i] ^^^ 255 = ~~~ src[i] := xor_neg_one
      simp [BitOp.eval, hi, hnot]
    | and =>
      refine (foldl_opSource rfl UInt8.toNat_and (fun _ => UInt8.and_zero) srcs _).trans ?_
      simp [BitOp.eval, Nat.add_sub_cancel' hmax, BitOp.apply]
      intro i hi
      congr 1
      rcases lt_or_ge i src.length with h | h
      · rw [getElem?_append_left h]
      · rw [getElem?_append_right h, getElem?_eq_none h, getElem?_replicate]
        split_ifs <;> rfl
    | or =>
      refine (foldl_opSource rfl UInt8.toNat_or (fun _ => UInt8.or_zero) (src :: srcs) _).trans ?_
      simp [BitOp.eval, BitOp.apply]
    | xor =>
      refine (foldl_opSource rfl UInt8.toNat_xor (fun _ => UInt8.xor_zero) (src :: srcs) _).trans ?_
      simp [BitOp.eval, BitOp.apply]

lemma eval_perm {op : BitOp} (hop : op ≠ .not) {srcs srcs' : List Bytes} (h : srcs.Perm srcs') :
    op.eval srcs = op.eval srcs' := by
  have hfold : ∀ srcs, op.eval srcs = (List.range (maxLen srcs)).map fun i =>
      srcs.foldl (fun acc s => op.apply acc (s.getD i 0)) (if op = .and then 255 else 0) := by
    rintro (_ | ⟨src, srcs⟩)
    · rfl
    · have hones : ∀ x : UInt8, 255 &&& x = x := fun _ => neg_one_and
      cases op <;> simp [BitOp.eval, BitOp.apply, hones] at hop ⊢
  have hcomm : ∀ i, RightCommutative fun acc (s : Bytes) => op.apply acc (s.getD i 0) := by
    refine fun i => ⟨fun a s s' => ?_⟩
    cases op <;> simp only [BitOp.apply] <;> ac_rfl
  rw [hfold, hfold, maxLen, maxLen, (h.map _).foldl_eq]
  exact map_congr_left fun i _ => h.foldl_eq _

/-- `NOT` complements the bytes of its source; the others are folded byte by byte, in any order of the sources. -/
theorem bitOp_folds : (∀ src, bitOp .not [src] = src.map fun b => ~~~ b) ∧
    ∀ op, op ≠ .not → (∀ src srcs, bitOp op (src :: srcs) = (List.range (maxLen (src :: srcs))).map fun i =>
        srcs.foldl (fun acc s => op.apply acc (s.getD i 0)) (src.getD i 0)) ∧
      ∀ srcs srcs', srcs.Perm srcs' → bitOp op srcs = bitOp op srcs' := by
  refine ⟨fun src => bitOp_eq_eval _ _, fun op hop => ⟨fun src srcs => ?_, fun srcs srcs' h => ?_⟩⟩
  · rw [bitOp_eq_eval, BitOp.eval, if_neg hop]
  · rw [bitOp_eq_eval, bitOp_eq_eval, eval_perm hop h]

end Gopherdis.Command

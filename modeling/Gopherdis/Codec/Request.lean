/-
The request framing of clients, the append-only file and the replication stream: commands are written by
`encodeCommand` (the bytes of `FeedCommand`) and read back by `ParseRequest`. What the reader does on a stream
cut at any byte is computed from the lengths alone by `cutCommand`, so whole frames, torn frames and frames past
the limits are one statement.
-/
import Gopherdis.Lib.Text

namespace Gopherdis.Codec

open Lib List

/-- A command as the parser delivers it: the name, then the arguments. -/
abbrev Argv := List Bytes

/-! ## Writing -/

variable (a : Bytes)

def bulkHeader : Bytes := 36 :: formatNat a.length ++ CRLF

def encodeBulk : Bytes := bulkHeader a ++ a ++ CRLF

variable (argv : Argv)

def commandHeader : Bytes := 42 :: formatNat argv.length ++ CRLF

/-- `encodeCommand` of the append-only file, and the body `FeedCommand` builds. -/
def encodeCommand : Bytes := commandHeader argv ++ argv.flatMap encodeBulk

/-! ## Reading -/

/-- The error values a request read can end with. `io.ErrUnexpectedEOF` and the parser's own
`ErrUnexpectedEOF` are different values. -/
inductive ReadErr
  | eof
  | ioUnexpectedEOF
  | unexpectedEOF
  | invalidMultiBulkLength
  | invalidBulkLength
  deriving DecidableEq, Repr

def maxMultiBulkLength : Nat := 1024 * 1024
def maxBulkLength : Nat := 512 * 1024 * 1024

/-- `ReadBytes('\n')`: the bytes before the first line feed, and those after it. -/
def readBytes : Bytes → Option (Bytes × Bytes)
  | [] => none
  | b :: bs =>
    if b = LF then some ([], bs)
    else match readBytes bs with
      | some (l, rest) => some (b :: l, rest)
      | none => none

variable (r : Bytes)

/-- Reads until the line feed and strips `\r\n` or `\n`. -/
def readLine : Except ReadErr (Bytes × Bytes) :=
  match readBytes r with
  | none => .error .eof
  | some (l, rest) => .ok (if l.getLast? = some CR then l.dropLast else l, rest)

/-- One argument: the length line, then the body and its closing `\r\n`. -/
def parseBulk : Except ReadErr (Bytes × Bytes) :=
  match readLine r with
  | .error e => .error e
  | .ok (line, rest) =>
  if line.length < 2 ∨ line.head? ≠ some 36 then .error .invalidBulkLength
  else match parseInt line.tail with
    | none => .error .invalidBulkLength
    | some n =>
      if n < 0 ∨ n > maxBulkLength then .error .invalidBulkLength
      -- `io.ReadFull` of the body and its line end
      else if rest.length < n.toNat + 2 then .error .unexpectedEOF
      else if (rest.take (n.toNat + 2)).drop n.toNat ≠ CRLF then .error .invalidBulkLength
      else .ok (rest.take n.toNat, rest.drop (n.toNat + 2))

def parseArgs : Nat → Bytes → Except ReadErr (Argv × Bytes)
  | 0, r => .ok ([], r)
  | argc + 1, r =>
    match parseBulk r with
    | .error e => .error e
    | .ok (arg, rest) =>
      match parseArgs argc rest with
      | .error e => .error e
      | .ok (args, rest) => .ok (arg :: args, rest)

def parseMultiBulkRequest : Except ReadErr (Argv × Bytes) :=
  match readLine r with
  | .error e => .error e
  | .ok (line, rest) =>
  if line.length < 2 ∨ line.head? ≠ some 42 then .error .invalidMultiBulkLength
  else match parseInt line.tail with
    | none => .error .invalidMultiBulkLength
    | some argc =>
      if argc ≤ 0 ∨ argc > maxMultiBulkLength then .error .invalidMultiBulkLength
      else parseArgs argc.toNat rest

/-- `bytes.Fields`, reading `skip` more bytes of a separator before anything else. -/
def fieldsLoop : Bytes → Nat → Bytes → List Bytes
  | [], _, cur => if cur = [] then [] else [cur]
  | _ :: bs, skip + 1, cur => fieldsLoop bs skip cur
  | b :: bs, 0, cur =>
    match spaceWidth (b :: bs) with
    | 0 => fieldsLoop bs 0 (cur ++ [b])
    | w + 1 => if cur = [] then fieldsLoop bs w [] else cur :: fieldsLoop bs w []

def fields (b : Bytes) : List Bytes := fieldsLoop b 0 []

/-- An inline command; a blank line is the empty command. -/
def parseInlineRequest : Except ReadErr (Argv × Bytes) := do
  let (line, rest) ← readLine r
  return (fields line, rest)

/-- One request off the reader, and the bytes left. -/
def parseRequest : Except ReadErr (Argv × Bytes) :=
  match r with
  | [] => .error .eof
  | b :: _ => if b = 42 then parseMultiBulkRequest r else parseInlineRequest r

/-! ## Lines -/

lemma readBytes_none {r : Bytes} (h : LF ∉ r) : readBytes r = none := by
  induction r with
  | nil => rfl
  | cons b bs ih =>
    rw [mem_cons, not_or] at h
    rw [readBytes, if_neg (Ne.symm h.1), ih h.2]

lemma readBytes_append {l : Bytes} (h : LF ∉ l) (rest : Bytes) : readBytes (l ++ LF :: rest) = some (l, rest) := by
  induction l with
  | nil => simp [readBytes]
  | cons b bs ih =>
    rw [mem_cons, not_or] at h
    rw [cons_append, readBytes, if_neg (Ne.symm h.1), ih h.2]

lemma readLine_take {l : Bytes} (h : LF ∉ l) (rest : Bytes) (n : Nat) : readLine ((l ++ CRLF ++ rest).take n) =
      if n < l.length + 2 then .error .eof else .ok (l, rest.take (n - (l.length + 2))) := by
  have hl : LF ∉ l ++ [CR] := by
    rw [mem_append, not_or]; exact ⟨h, by decide⟩
  have e : l ++ CRLF ++ rest = (l ++ [CR]) ++ LF :: rest := by simp [CRLF]
  rw [e, take_append, length_append, length_singleton]
  split
  · rename_i hn
    have : n - (l.length + 1) = 0 := by omega
    rw [this, take_zero, append_nil]
    rw [readLine, readBytes_none fun hm => hl (mem_of_mem_take hm)]
  rename_i hn
  obtain ⟨k, hk⟩ : ∃ k, n - (l.length + 1) = k + 1 := ⟨n - (l.length + 2), by omega⟩
  rw [hk, take_succ_cons, take_of_length_le (by simp; omega), readLine, readBytes_append hl]
  simp only [getLast?_append, getLast?_singleton, Option.some_or, if_true,
    dropLast_concat]
  congr 3; omega

variable (n : Nat)

lemma formatNat_no_LF : LF ∉ formatNat n := fun h =>
  isDigit_ne (formatNat_isDigit n _ h) (by decide) rfl

lemma encodeBulk_injective : Function.Injective encodeBulk := by
  intro a b h
  have hread (c : Bytes) : readBytes (encodeBulk c) = some (36 :: formatNat c.length ++ [CR], c ++ CRLF) := by
    have hLF : LF ∉ 36 :: formatNat c.length ++ [CR] := by
      simp only [cons_append, mem_cons, mem_append, not_mem_nil, or_false, not_or]
      exact ⟨by decide, formatNat_no_LF _, by decide⟩
    rw [← readBytes_append hLF]
    simp [encodeBulk, bulkHeader, CRLF]
  have := hread a
  rw [h, hread b] at this
  exact (append_cancel_right (Prod.mk.inj (Option.some.inj this)).2).symm

/-! ## A stream cut at any byte -/

/-- What the reader makes of an argument when `n` bytes are left from its start: the bytes left
after it, or the error. -/
def cutBulk : Except ReadErr Nat :=
  if n < (bulkHeader a).length then .error .eof
  else if maxBulkLength < a.length then .error .invalidBulkLength
  else if n < (encodeBulk a).length then .error .unexpectedEOF
  else .ok (n - (encodeBulk a).length)

def cutArgs : Argv → Nat → Except ReadErr Nat
  | [], n => .ok n
  | a :: as, n =>
    match cutBulk a n with
    | .error e => .error e
    | .ok n => cutArgs as n

/-- What the reader makes of a command when `n` bytes are left from its start. -/
def cutCommand : Except ReadErr Nat :=
  if n < (commandHeader argv).length then .error .eof
  else if argv = [] ∨ maxMultiBulkLength < argv.length then .error .invalidMultiBulkLength
  else cutArgs argv (n - (commandHeader argv).length)

lemma bulkHeader_length : (bulkHeader a).length = (formatNat a.length).length + 1 + 2 := by
  simp [bulkHeader, CRLF]

lemma encodeBulk_length : (encodeBulk a).length = (bulkHeader a).length + (a.length + 2) := by
  simp [encodeBulk, CRLF]

lemma commandHeader_length : (commandHeader argv).length = (formatNat argv.length).length + 1 + 2 := by
  simp [commandHeader, CRLF]

lemma headerLine (c : UInt8) (n : Nat) (hc : c ≠ LF) :
    LF ∉ c :: formatNat n ∧ ¬ ((c :: formatNat n).length < 2 ∨ (c :: formatNat n).head? ≠ some c) := by
  have h1 := formatNat_no_LF n
  have h2 := length_pos_of_ne_nil (formatNat_ne_nil n)
  constructor
  · rw [mem_cons, not_or]; exact ⟨hc.symm, h1⟩
  · rw [not_or, length_cons]; exact ⟨by omega, by simp⟩

lemma parseBulk_take (a rest : Bytes) (n : Nat) :
    parseBulk ((encodeBulk a ++ rest).take n) = (cutBulk a n).map fun m => (a, rest.take m) := by
  obtain ⟨hLF, h2⟩ := headerLine 36 a.length (by decide)
  have e : encodeBulk a ++ rest = (36 :: formatNat a.length) ++ CRLF ++ (a ++ CRLF ++ rest) := by
    simp [encodeBulk, bulkHeader]
  have hlen : (36 :: formatNat a.length : Bytes).length + 2 = (bulkHeader a).length := by
    rw [bulkHeader_length]; rfl
  rw [parseBulk, e, readLine_take hLF, hlen, cutBulk]
  by_cases hn : n < (bulkHeader a).length
  · rw [if_pos hn, if_pos hn]; rfl
  rw [if_neg hn, if_neg hn]
  simp only [if_neg h2, tail_cons, parseInt_formatNat]
  by_cases hb : maxBulkLength < a.length
  · rw [if_pos hb]
    by_cases hi : a.length < 2 ^ 63
    · rw [if_pos hi]
      simp only
      rw [if_pos (Or.inr (by exact_mod_cast hb))]; rfl
    · rw [if_neg hi]; rfl
  have hmax : maxBulkLength < 2 ^ 63 := by decide
  rw [if_neg hb, if_pos (by omega)]
  simp only
  rw [if_neg (by push Not; exact ⟨by omega, by exact_mod_cast not_lt.1 hb⟩), Int.toNat_natCast, encodeBulk_length]
  generalize hm : n - (bulkHeader a).length = m
  by_cases hs : m < a.length + 2
  · rw [if_pos (by rw [length_take]; omega), if_pos (by omega)]; rfl
  have hge : a.length + 2 ≤ m := by omega
  have ht : ((a ++ CRLF ++ rest).take m).take (a.length + 2) = a ++ CRLF := by
    rw [take_take, Nat.min_eq_left hge]
    exact take_left' (by simp [CRLF])
  have ha : ((a ++ CRLF ++ rest).take m).take a.length = a := by
    rw [take_take, Nat.min_eq_left (by omega), append_assoc, take_left]
  have hd : ((a ++ CRLF ++ rest).take m).drop (a.length + 2) = rest.take (m - (a.length + 2)) := by
    rw [drop_take]
    congr 1
    exact drop_left' (by simp [CRLF])
  have hl : ¬ ((a ++ CRLF ++ rest).take m).length < a.length + 2 := by
    rw [length_take]; simp [CRLF]; omega
  rw [if_neg hl, ht, ha, hd, drop_left, if_neg (by simp), if_neg (by omega)]
  have : n - ((bulkHeader a).length + (a.length + 2)) = m - (a.length + 2) := by omega
  rw [this]; rfl

lemma parseArgs_take (args : Argv) (rest : Bytes) (n : Nat) :
    parseArgs args.length ((args.flatMap encodeBulk ++ rest).take n) =
      (cutArgs args n).map fun m => (args, rest.take m) := by
  induction args generalizing n with
  | nil => rfl
  | cons a as ih =>
  rw [flatMap_cons, append_assoc, length_cons, parseArgs, parseBulk_take, cutArgs]
  cases cutBulk a n with
  | error e => rfl
  | ok m =>
    simp only [Except.map, ih]
    cases cutArgs as m <;> rfl

lemma parseRequest_take (rest : Bytes) (n : Nat) : parseRequest ((encodeCommand argv ++ rest).take n) =
      (cutCommand argv n).map fun m => (argv, rest.take m) := by
  obtain ⟨hLF, h2⟩ := headerLine 42 argv.length (by decide)
  have e : encodeCommand argv ++ rest =
      (42 :: formatNat argv.length) ++ CRLF ++ (argv.flatMap encodeBulk ++ rest) := by
    simp [encodeCommand, commandHeader]
  have hlen : (42 :: formatNat argv.length : Bytes).length + 2 = (commandHeader argv).length := by
    rw [commandHeader_length]; rfl
  have hm : parseRequest ((encodeCommand argv ++ rest).take n) =
      parseMultiBulkRequest ((encodeCommand argv ++ rest).take n) := by
    cases n with
    | zero => rfl
    | succ n => rw [e]; rfl
  rw [hm, parseMultiBulkRequest, e, readLine_take hLF, hlen, cutCommand]
  by_cases hn : n < (commandHeader argv).length
  · rw [if_pos hn, if_pos hn]; rfl
  rw [if_neg hn, if_neg hn]
  simp only [if_neg h2, tail_cons, parseInt_formatNat]
  by_cases hb : argv = [] ∨ maxMultiBulkLength < argv.length
  · rw [if_pos hb]
    by_cases hi : argv.length < 2 ^ 63
    · rw [if_pos hi]
      simp only
      rw [if_pos (hb.imp (fun h => by simp [h]) fun h => by exact_mod_cast h)]; rfl
    · rw [if_neg hi]; rfl
  rw [if_neg hb]
  rw [not_or] at hb
  have hpos : 0 < argv.length := length_pos_of_ne_nil hb.1
  have hmax : maxMultiBulkLength < 2 ^ 63 := by decide
  rw [if_pos (by omega)]
  simp only
  rw [if_neg (by push Not; exact ⟨by omega, by exact_mod_cast not_lt.1 hb.2⟩)]
  exact parseArgs_take argv rest _

/-! ## Whole frames -/

/-- The commands the reader accepts: at least one argument, the counts within its limits. -/
def Framed : Prop :=
  argv ≠ [] ∧ argv.length ≤ maxMultiBulkLength ∧ ∀ a ∈ argv, a.length ≤ maxBulkLength

instance (argv : Argv) : Decidable (Framed argv) := inferInstanceAs (Decidable (_ ∧ _ ∧ _))

lemma cutBulk_whole {a : Bytes} {n : Nat} (h : a.length ≤ maxBulkLength) (hn : (encodeBulk a).length ≤ n) :
    cutBulk a n = .ok (n - (encodeBulk a).length) := by
  have := encodeBulk_length a
  rw [cutBulk, if_neg (by omega), if_neg (by omega), if_neg (by omega)]

lemma cutArgs_whole {args : Argv} {n : Nat} (h : ∀ a ∈ args, a.length ≤ maxBulkLength)
    (hn : (args.flatMap encodeBulk).length ≤ n) : cutArgs args n = .ok (n - (args.flatMap encodeBulk).length) := by
  induction args generalizing n with
  | nil => rfl
  | cons a as ih =>
  rw [flatMap_cons, length_append] at hn ⊢
  rw [cutArgs, cutBulk_whole (h a (mem_cons_self ..)) (by omega)]
  simp only
  rw [ih (fun b hb => h b (mem_cons_of_mem _ hb)) (by omega)]
  congr 1; omega

lemma cutCommand_whole {argv : Argv} {n : Nat} (h : Framed argv) (hn : (encodeCommand argv).length ≤ n) :
    cutCommand argv n = .ok (n - (encodeCommand argv).length) := by
  rw [encodeCommand, length_append] at hn ⊢
  rw [cutCommand, if_neg (by omega), if_neg (by rw [not_or]; exact ⟨h.1, not_lt.2 h.2.1⟩),
    cutArgs_whole h.2.2 (by omega)]
  congr 1; omega

lemma parseRequest_encodeCommand {argv : Argv} (h : Framed argv) (rest : Bytes) :
    parseRequest (encodeCommand argv ++ rest) = .ok (argv, rest) := by
  have := parseRequest_take argv rest (encodeCommand argv ++ rest).length
  rw [take_length] at this
  rw [this, cutCommand_whole h (by simp)]
  simp [Except.map]

lemma encodeCommand_append_inj {c d : Argv} {rest rest' : Bytes} (hc : Framed c) (hd : Framed d)
    (h : encodeCommand c ++ rest = encodeCommand d ++ rest') : c = d ∧ rest = rest' := by
  have hp := parseRequest_encodeCommand hc rest
  rw [h, parseRequest_encodeCommand hd] at hp
  cases hp
  exact ⟨rfl, rfl⟩

example : parseRequest (encodeCommand [ascii "GET", ascii "k"] ++ ascii "*") =
    .ok ([ascii "GET", ascii "k"], ascii "*") := by decide

end Gopherdis.Codec

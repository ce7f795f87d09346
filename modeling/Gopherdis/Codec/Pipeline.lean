/-
Reading pipelined requests, with or without an arena. An argument is copied into a buffer of the arena if it
gives one, and kept where it was read otherwise, so the arena makes no difference to what is read; and a reader
that is given the encodings of commands reads these commands, up to the bytes that follow.
-/
import Gopherdis.Codec.Request

namespace Gopherdis.Codec

open Lib List

/-! ## The arena -/

/-- An arena, by the buffer its `i`-th allocation gives: none, or a new one of the length asked for, with
anything in it. -/
structure Arena where
  alloc : Nat → Nat → Option Bytes
  length_alloc : ∀ {i n buf}, alloc i n = some buf → buf.length = n

/-- Go's `copy`: the bytes of `src` over the first ones of `dst`. -/
def copyBytes (dst src : Bytes) : Bytes := src.take dst.length ++ dst.drop src.length

variable (a : Option Arena) (i : Nat)

/-- Where an argument is kept, after `i` allocations. -/
def keepArg (arg : Bytes) : Bytes :=
  match a with
  | none => arg
  | some a => (a.alloc i arg.length).elim arg fun buf => copyBytes buf arg

@[simp] lemma keepArg_eq (arg : Bytes) : keepArg a i arg = arg := by
  cases a with
  | none => rfl
  | some a =>
  simp only [keepArg]
  cases halloc : a.alloc i arg.length with
  | none => rfl
  | some buf =>
    have hlen := a.length_alloc halloc
    simp [copyBytes, hlen]

/-! ## Requests -/

/-- `parseArgs`, keeping the arguments. -/
def parseArgsIn (a : Option Arena) : Nat → Nat → Bytes → Except ReadErr (Argv × Bytes)
  | 0, _, r => .ok ([], r)
  | argc + 1, i, r =>
    match parseBulk r with
    | .error e => .error e
    | .ok (arg, rest) =>
      match parseArgsIn a argc (i + 1) rest with
      | .error e => .error e
      | .ok (args, rest) => .ok (keepArg a i arg :: args, rest)

variable (r : Bytes)

def parseMultiBulkRequestIn : Except ReadErr (Argv × Bytes) :=
  match readLine r with
  | .error e => .error e
  | .ok (line, rest) =>
  if line.length < 2 ∨ line.head? ≠ some 42 then .error .invalidMultiBulkLength
  else match parseInt line.tail with
    | none => .error .invalidMultiBulkLength
    | some argc =>
      if argc ≤ 0 ∨ argc > maxMultiBulkLength then .error .invalidMultiBulkLength
      else parseArgsIn a argc.toNat i rest

def keepArgs (a : Option Arena) : Nat → List Bytes → List Bytes
  | _, [] => []
  | i, arg :: args => keepArg a i arg :: keepArgs a (i + 1) args

def parseInlineRequestIn : Except ReadErr (Argv × Bytes) := do
  let (line, rest) ← readLine r
  return (keepArgs a i (fields line), rest)

/-- `ParseRequest` after `i` allocations of the arena. -/
def parseRequestIn : Except ReadErr (Argv × Bytes) :=
  match r with
  | [] => .error .eof
  | b :: _ => if b = 42 then parseMultiBulkRequestIn a i r else parseInlineRequestIn a i r

lemma parseArgsIn_eq (argc i : Nat) (r : Bytes) : parseArgsIn a argc i r = parseArgs argc r := by
  induction argc generalizing i r with
  | zero => rfl
  | succ argc ih =>
  rw [parseArgsIn, parseArgs]
  cases parseBulk r with
  | error e => rfl
  | ok x =>
    obtain ⟨arg, rest⟩ := x
    cases hrest : parseArgs argc rest <;> simp [ih, keepArg_eq, hrest]

lemma keepArgs_eq (args : List Bytes) : keepArgs a i args = args := by
  induction args generalizing i with
  | nil => rfl
  | cons arg args ih => rw [keepArgs, keepArg_eq, ih]

lemma parseRequestIn_eq : parseRequestIn a i r = parseRequest r := by
  have hmulti : parseMultiBulkRequestIn a i r = parseMultiBulkRequest r := by
    unfold parseMultiBulkRequestIn parseMultiBulkRequest
    cases readLine r with
    | error e => rfl
    | ok x =>
      obtain ⟨line, rest⟩ := x
      cases hcount : parseInt line.tail <;> simp [parseArgsIn_eq, hcount]
  have hinline : parseInlineRequestIn a i r = parseInlineRequest r := by
    simp [parseInlineRequestIn, parseInlineRequest, keepArgs_eq]
  cases r with
  | nil => rfl
  | cons b bs =>
    unfold parseRequestIn parseRequest
    simp [hmulti, hinline]

/-! ## Pipelines -/

def readAll (a : Option Arena) : Nat → Nat → Bytes → Except ReadErr (List Argv × Bytes)
  | 0, _, r => .ok ([], r)
  | n + 1, i, r =>
    match parseRequestIn a i r with
    | .error e => .error e
    | .ok (argv, rest) =>
      match readAll a n (i + argv.length) rest with
      | .error e => .error e
      | .ok (argvs, rest) => .ok (argv :: argvs, rest)

/-- The bytes `FeedCommand` sends, none for an empty command. -/
def feedCommand (argv : Argv) : Bytes :=
  if argv.length = 0 then []
  else 42 :: formatNat argv.length ++ CRLF ++ argv.flatMap fun arg => 36 :: formatNat arg.length ++ CRLF ++ arg ++ CRLF

lemma feedCommand_eq {argv : Argv} (h : argv ≠ []) : feedCommand argv = encodeCommand argv := by
  rw [feedCommand, if_neg fun hlen => h (length_eq_zero_iff.1 hlen)]
  rfl

lemma readAll_encode {cmds : List Argv} (h : ∀ argv ∈ cmds, Framed argv) (i : Nat) (r : Bytes) :
    readAll a cmds.length i (cmds.flatMap encodeCommand ++ r) = .ok (cmds, r) := by
  induction cmds generalizing i with
  | nil => rfl
  | cons argv cmds ih =>
    rw [forall_mem_cons] at h
    rw [length_cons, readAll, flatMap_cons, append_assoc, parseRequestIn_eq,
      parseRequest_encodeCommand h.1]
    simp [ih h.2]

/-- Commands within the limits of the reader, encoded for the append-only file or for replicas and followed by
anything, are read back in order, and what follows is left. -/
theorem requests_round_trip (a : Option Arena) (cmds : List Argv)
    (h : ∀ argv ∈ cmds, 1 ≤ argv.length ∧ argv.length ≤ 1048576 ∧ ∀ arg ∈ argv, arg.length ≤ 512 * 2 ^ 20) (i : Nat)
    (r : Bytes) : readAll a cmds.length i (cmds.flatMap encodeCommand ++ r) = .ok (cmds, r) ∧
      readAll a cmds.length i (cmds.flatMap feedCommand ++ r) = .ok (cmds, r) := by
  have hframed : ∀ argv ∈ cmds, Framed argv := fun argv hargv =>
    ⟨ne_nil_of_length_pos (h argv hargv).1, (h argv hargv).2⟩
  have hfeed : cmds.flatMap feedCommand = cmds.flatMap encodeCommand :=
    flatMap_congr fun argv hargv => feedCommand_eq (hframed argv hargv).1
  rw [hfeed]
  exact ⟨readAll_encode a hframed i r, readAll_encode a hframed i r⟩

/-- An arena that always gives a buffer, of zeros. -/
def zeroArena : Arena := ⟨fun _ n => some (List.replicate n 0), by
  intro i n buf h
  obtain rfl := Option.some.inj h
  exact length_replicate⟩

theorem payload_of_line_ends_is_read :
    readAll (some zeroArena) 2 0 (encodeCommand [ascii "SET", ascii "k", ascii "\r\n$3\r\n*"] ++
      encodeCommand [ascii "GET", ascii "k"] ++ ascii "$") =
      .ok ([[ascii "SET", ascii "k", ascii "\r\n$3\r\n*"], [ascii "GET", ascii "k"]], ascii "$") := by
  have h := (requests_round_trip (some zeroArena) [[ascii "SET", ascii "k", ascii "\r\n$3\r\n*"], [ascii "GET", ascii "k"]]
    (by decide) 0 (ascii "$")).1
  simpa using h

end Gopherdis.Codec

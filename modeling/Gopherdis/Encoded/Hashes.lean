/-
The commands on hashes. A hash is a listpack of fields and values until one of them is long or there
are too many, and a hash table from then on.
-/
import Gopherdis.Encoded.View

namespace Gopherdis.Encoded

open Lib Codec Object Store Command

variable (S : Settings) (c : Call)

def double (x : Score) : Bytes :=
  if ¬ c.resp3 then bulkString (S.E.formatFloat x)
  else if S.E.scoreEq x S.out.inf then ascii ",inf\r\n"
  else if S.E.scoreEq x S.out.negInf then ascii ",-inf\r\n"
  else if S.E.isNaN x then ascii ",nan\r\n"
  else ascii "," ++ S.E.formatFloat x ++ CRLF

lemma succeeded_double {S : Settings} {c : Call} (x : Score) : succeeded (double S c x) = true := by
  unfold double
  split_ifs <;> rfl

/-! ## Changes of a hash -/

variable (es : List (Bytes × Bytes))

def hashGet (field : Bytes) : Option Bytes := (es.find? fun e => e.1 = field).map Prod.snd

def hashShouldPromote (field val : Bytes) : Bool :=
  S.E.hashMaxListpackValue < val.length || S.E.hashMaxListpackValue < field.length ||
    ((hashGet es field).isNone && S.E.hashMaxListpackEntries ≤ es.length)

variable (h : Held (Bytes × Bytes))

/-- `hashView.Set`. -/
def hashSetEdits (e : Bytes × Bytes) : List (Edit (Bytes × Bytes)) :=
  (if h.enc = .listpack ∧ hashShouldPromote S h.items e.1 e.2 then [.publish ⟨h.items, .hashtable⟩] else []) ++
    [.inPlace (hashSet h.items e.1 e.2)]

/-- `hashView.Del`. -/
def hashDelEdits (field : Bytes) : List (Edit (Bytes × Bytes)) :=
  if (hashGet h.items field).isSome then [.inPlace (h.items.eraseP fun e => e.1 = field)] else []

/-! ## The commands -/

def hsetGeneric (name : String) (argv : Argv) : MemM S.E Bytes := do
  if (argv.drop 2).length % 2 ≠ 0 then
    return error (ascii "wrong number of arguments for '" ++ ascii name ++ ascii "' command")
  else
    match ← getOrCreate hashKind S c (argv.getD 1 []) with
    | .error e => return e
    | .ok (w, _) =>
      let w' ← w.performAll hashKind S (editAll (hashSetEdits S) w.held (pairUp (argv.drop 2)))
      return integer (w'.held.items.length - w.held.items.length)

def hsetCommand : Argv → MemM S.E Bytes := hsetGeneric S c "hset"

variable (argv : Argv)

def hmsetCommand : MemM S.E Bytes := do
  let reply ← hsetGeneric S c "hmset" argv
  return if succeeded reply then ok else reply

def hsetnxCommand : MemM S.E Bytes := do
  let field := argv.getD 2 []
  match ← getOrCreate hashKind S c (argv.getD 1 []) with
  | .error e => return e
  | .ok (w, _) =>
    if (hashGet w.held.items field).isSome then return integer 0
    else
      let _ ← w.performAll hashKind S (hashSetEdits S w.held (field, argv.getD 3 []))
      return integer 1

def hdelCommand : MemM S.E Bytes := do
  match ← getView hashKind S c (argv.getD 1 []) with
  | .error e => return e
  | .ok none => return integer 0
  | .ok (some w) =>
    let w' ← w.performAll hashKind S (editAll hashDelEdits w.held (argv.drop 2))
    w'.drop S c
    return integer (w.held.items.length - w'.held.items.length)

/-- A sum that leaves `int64`. -/
def addOverflows (current delta : Int) : Bool :=
  (0 < delta && 2 ^ 63 - 1 - delta < current) || (delta < 0 && current < -2 ^ 63 - delta)

def hincrbyCommand : MemM S.E Bytes :=
  match parseInt (argv.getD 3 []) with
  | none => pure notAnInteger
  | some incr => do
    let field := argv.getD 2 []
    match ← getOrCreate hashKind S c (argv.getD 1 []) with
    | .error e => return e
    | .ok (w, _) =>
    match (hashGet w.held.items field).elim (some 0) parseInt with
    | none => return error (ascii "hash value is not an integer")
    | some current =>
      if addOverflows current incr then return error (ascii "increment or decrement would overflow")
      else
        let _ ← w.performAll hashKind S (hashSetEdits S w.held (field, formatInt (current + incr)))
        return integer (current + incr)

def notAFloat : Bytes := error (ascii "value is not a valid float")

def hincrbyfloatCommand : MemM S.E Bytes :=
  let (delta, fine) := S.E.parseFloat (argv.getD 3 [])
  if ¬ fine ∨ S.E.isNaN delta ∨ S.out.isInf delta then pure notAFloat
  else do
    let field := argv.getD 2 []
    match ← getOrCreate hashKind S c (argv.getD 1 []) with
    | .error e => return e
    | .ok (w, _) =>
    let (current, fine) :=
      (hashGet w.held.items field).elim (S.out.zero, true) fun b => S.E.parseFloat (S.out.trimSpace b)
    let sum := S.E.scoreAdd current delta
    if ¬ fine then return error (ascii "hash value is not a float")
    else if S.E.isNaN sum ∨ S.out.isInf sum then return error (ascii "increment would produce NaN or Infinity")
    else
      let _ ← w.performAll hashKind S (hashSetEdits S w.held (field, S.E.formatFloat sum))
      return double S c sum

end Gopherdis.Encoded

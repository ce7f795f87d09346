/-
The commands on sets. A set is an intset while its members are integers and few, then a listpack while
they are short and few, then a hash table.
-/
import Gopherdis.Command.TwoKeys
import Gopherdis.Encoded.View

namespace Gopherdis.Encoded

open Lib Codec Object Store Command

variable (S : Settings) (c : Call)

/-! ## Changes of a set -/

/-- A listpack takes one more member of this length. -/
def setFitsListpack (ms : List Bytes) (m : Bytes) : Bool :=
  m.length ≤ S.E.setMaxListpackValue && ms.length < S.E.setMaxListpackEntries

/-- `addOne`, for a member that is not there. -/
def setAddEdits (h : Held Bytes) (m : Bytes) : List (Edit Bytes) :=
  let added : Edit Bytes := .inPlace (h.items ++ [m])
  if m ∈ h.items then []
  else
    match h.enc with
    | .intset =>
      if isCanonicalInt m ∧ h.items.length < S.E.setMaxIntsetEntries then [added]
      else if setFitsListpack S h.items m then [.publish ⟨h.items, .listpack⟩, added]
      else [.publish ⟨h.items, .hashtable⟩, added]
    | .listpack => if setFitsListpack S h.items m then [added] else [.publish ⟨h.items, .hashtable⟩, added]
    | _ => [added]

/-- `Remove`, of one member. -/
def setRemoveEdits (h : Held Bytes) (m : Bytes) : List (Edit Bytes) :=
  if m ∈ h.items then [.inPlace (h.items.erase m)] else []

/-! ## The commands -/

variable (argv : Argv)

def saddCommand : MemM S.E Bytes := do
  match ← getOrCreate setKind S c (argv.getD 1 []) with
  | .error e => return e
  | .ok (w, _) =>
    let w' ← w.performAll setKind S (editAll (setAddEdits S) w.held (argv.drop 2))
    return integer (w'.held.items.length - w.held.items.length)

def sremCommand : MemM S.E Bytes := do
  match ← getView setKind S c (argv.getD 1 []) with
  | .error e => return e
  | .ok none => return integer 0
  | .ok (some w) =>
    let w' ← w.performAll setKind S (editAll setRemoveEdits w.held (argv.drop 2))
    w'.drop S c
    return integer (w.held.items.length - w'.held.items.length)

def maxRandCount : Int := 2 ^ 24

/-- `SetReply`, of elements that are encoded already. -/
def setReply (elements : List Bytes) : Bytes :=
  (if c.resp3 then 126 else 42) :: (formatNat elements.length ++ CRLF ++ elements.flatten)

/-- The number of members `SPOP` takes, one if it is not given. -/
def spopCount : Except Bytes Int :=
  if argv.length < 3 then .ok 1
  else
    match parseInt (argv.getD 2 []) with
    | none => .error (error (ascii "value is out of range, must be positive"))
    | some n =>
      if n < 0 then .error (error (ascii "value is out of range, must be positive"))
      else if maxRandCount < n then .error (error (ascii "value is out of range"))
      else .ok n

/-- What is propagated in the place of `SPOP`. -/
def spopEffect (key : Bytes) (popped rest : List Bytes) : Option Argv :=
  if popped = [] then none
  else if rest = [] then some [if S.E.lazyServerDel then ascii "UNLINK" else ascii "DEL", key]
  else some (ascii "SREM" :: key :: popped)

def spopCommand : MemM S.E Answer :=
  let key := argv.getD 1 []
  match spopCount argv with
  | .error e => pure ⟨e, none⟩
  | .ok count => do
    match ← getView setKind S c key with
    | .error e => return ⟨e, none⟩
    | .ok none => return ⟨if argv.length < 3 then null c.resp3 else setReply c [], none⟩
    | .ok (some w) =>
    let popped := (c.walk w.held.items).take count.toNat
    let w ← w.performAll setKind S (editAll setRemoveEdits w.held popped)
    w.drop S c
    let reply :=
      if argv.length < 3 then popped.head?.elim (null c.resp3) bulkString else setReply c (popped.map bulkString)
    return ⟨reply, some (spopEffect S key popped w.held.items)⟩

def smoveCommand : MemM S.E Bytes := do
  let src := argv.getD 1 []
  let dst := argv.getD 2 []
  let member := argv.getD 3 []
  match ← getView setKind S c src with
  | .error e => return e
  | .ok w =>
  if ← holdsOther setKind S c dst then return wrongType
  else
    match w with
    | none => return integer 0
    | some w =>
    if member ∉ w.held.items then return integer 0
    else
      let w ← w.performAll setKind S (setRemoveEdits w.held member)
      w.drop S c
      match ← getOrCreate setKind S c dst with
      | .error e => return e
      | .ok (w, _) =>
        let _ ← w.performAll setKind S (setAddEdits S w.held member)
        return integer 1

/-! ## Stored results -/

/-- The sets at the keys, in their order; the first key of another type ends it. -/
def getSets : List Bytes → MemM S.E (Except Bytes (List (Option (List Bytes))))
  | [] => return .ok []
  | key :: keys => do
    match ← getView setKind S c key with
    | .error e => return .error e
    | .ok w =>
      match ← getSets keys with
      | .error e => return .error e
      | .ok sets => return .ok (w.map (fun w => c.walk w.held.items) :: sets)

def storeOp (op : SetOp) (argv : Argv) : MemM S.E Bytes := do
  let dst := argv.getD 1 []
  match ← getSets S c (argv.drop 2) with
  | .error e => return e
  | .ok sets =>
  let members := op.eval sets
  let _ ← MemM.del c.now dst
  if members.isEmpty then return integer 0
  else
    match ← getOrCreate setKind S c dst with
    | .error e => return e
    | .ok (w, _) =>
      let _ ← w.performAll setKind S (editAll (setAddEdits S) w.held members)
      return integer members.length

def sinterstoreCommand : Argv → MemM S.E Bytes := storeOp S c .inter

def sunionstoreCommand : Argv → MemM S.E Bytes := storeOp S c .union

def sdiffstoreCommand : Argv → MemM S.E Bytes := storeOp S c .diff

end Gopherdis.Encoded

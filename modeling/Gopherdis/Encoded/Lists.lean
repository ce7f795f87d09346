/-
The commands on lists. A list is a listpack until an element is long or there are too many, and a
quicklist from then on; the commands that reshape a list build it anew.
-/
import Gopherdis.Command.TwoKeys
import Gopherdis.Encoded.View
import Gopherdis.Lib.Slice

namespace Gopherdis.Encoded

open Lib Codec Object Store Command

variable (S : Settings) (c : Call)

/-! ## Changes of a list -/

/-- `listWouldExceed`: by entries, or by bytes if the setting is negative. -/
def listWouldExceed (limit : Int) (items : List Bytes) (added : Nat) : Bool :=
  if 0 ≤ limit then limit ≤ items.length else listpackBudget limit < packedBytes items + added

variable (h : Held Bytes)

def growWouldPromote (val : Bytes) : Bool :=
  h.enc = .listpack &&
    (listMaxListpackValue < val.length || listWouldExceed S.server.listMaxListpackSize h.items val.length)

variable (side : ListEnd)

/-- `LPush` and `RPush`. -/
def pushEdits (h : Held Bytes) (val : Bytes) : List (Edit Bytes) :=
  (if growWouldPromote S h val then [.publish ⟨h.items, .quicklist⟩] else []) ++
    [.inPlace (pushEnd val side h.items)]

lemma edited_pushEdits (h : Held Bytes) (val : Bytes) : h.edited (pushEdits S side h val) =
      ⟨pushEnd val side h.items, if growWouldPromote S h val then .quicklist else h.enc⟩ := by
  unfold pushEdits
  split_ifs <;> rfl

def listIndex (n : Nat) (i : Int) : Option Nat :=
  let i := if i < 0 then i + n else i
  if i < 0 ∨ n ≤ i then none else some i.toNat

/-- `LSet`, and whether there is such an element; the list is promoted before that is known. -/
def lsetEdits (i : Int) (val : Bytes) : List (Edit Bytes) × Bool :=
  let promote : List (Edit Bytes) :=
    if h.enc = .listpack ∧ listMaxListpackValue < val.length then [.publish ⟨h.items, .quicklist⟩] else []
  match listIndex h.items.length i with
  | none => (promote, false)
  | some j => (promote ++ [.inPlace (h.items.set j val)], true)

def replaceAll (items : List Bytes) : Edit Bytes :=
  .publish ⟨items, if h.enc = .quicklist then .quicklist else listEncoding S.server.listMaxListpackSize items⟩

/-! ## Pushing and popping -/

variable (argv : Argv)

def pushGeneric : MemM S.E Bytes := do
  match ← getOrCreate listKind S c (argv.getD 1 []) with
  | .error e => return e
  | .ok (w, _) =>
    let w ← w.performAll listKind S (editAll (pushEdits S side) w.held (argv.drop 2))
    return integer w.held.items.length

def lpushCommand : Argv → MemM S.E Bytes := pushGeneric S c .left

def rpushCommand : Argv → MemM S.E Bytes := pushGeneric S c .right

def pushxGeneric : MemM S.E Bytes := do
  match ← getView listKind S c (argv.getD 1 []) with
  | .error e => return e
  | .ok none => return integer 0
  | .ok (some w) =>
    let w ← w.performAll listKind S (editAll (pushEdits S side) w.held (argv.drop 2))
    return integer w.held.items.length

def lpushxCommand : Argv → MemM S.E Bytes := pushxGeneric S c .left

def rpushxCommand : Argv → MemM S.E Bytes := pushxGeneric S c .right

def popGeneric : MemM S.E Bytes := do
  match ← getView listKind S c (argv.getD 1 []) with
  | .error e => return e
  | .ok none => return nullBulkString
  | .ok (some w) =>
  match popEnd side w.held.items with
  | none => return nullBulkString
  | some (val, rest) =>
    let w ← w.perform listKind S (.inPlace rest)
    w.drop S c
    return bulkString val

def lpopCommand : Argv → MemM S.E Bytes := popGeneric S c .left

def rpopCommand : Argv → MemM S.E Bytes := popGeneric S c .right

def lsetCommand : MemM S.E Bytes :=
  match parseInt (argv.getD 2 []) with
  | none => pure notAnInteger
  | some i => do
    match ← getView listKind S c (argv.getD 1 []) with
    | .error e => return e
    | .ok none => return noSuchKey
    | .ok (some w) =>
      let r := lsetEdits w.held i (argv.getD 3 [])
      let _ ← w.performAll listKind S r.1
      return if r.2 then ok else error (ascii "index out of range")

/-! ## Reshaping -/

def storeList (key : Bytes) (items : List Bytes) : MemM S.E Unit := do
  if items.isEmpty then
    let _ ← MemM.del c.now key
  else
    match ← getOrCreate listKind S c key with
    | .error _ => return
    | .ok (w, _) =>
      let _ ← w.perform listKind S (replaceAll S w.held items)

def linsertCommand : MemM S.E Bytes := do
  let key := argv.getD 1 []
  let side := toUpper (argv.getD 2 [])
  if side ≠ ascii "BEFORE" ∧ side ≠ ascii "AFTER" then return syntaxError
  else
    match ← getView listKind S c key with
    | .error e => return e
    | .ok none => return integer 0
    | .ok (some w) =>
    match w.held.items.idxOf? (argv.getD 3 []) with
    | none => return integer (-1)
    | some i =>
      let i := if side = ascii "AFTER" then i + 1 else i
      let out := w.held.items.take i ++ [argv.getD 4 []] ++ w.held.items.drop i
      storeList S c key out
      return integer out.length

def ltrimCommand : MemM S.E Bytes :=
  match parseInt (argv.getD 2 []), parseInt (argv.getD 3 []) with
  | some start, some stop => do
    let key := argv.getD 1 []
    match ← getView listKind S c key with
    | .error e => return e
    | .ok none => return ok
    | .ok (some w) =>
      storeList S c key (cut w.held.items start stop)
      return ok
  | _, _ => pure notAnInteger

/-- The elements without the first matches, and how many these were; zero stands for no limit. -/
def dropMatches (target : Bytes) (limit : Int) : Nat → List Bytes → List Bytes × Nat
  | removed, [] => ([], removed)
  | removed, it :: items =>
    if it = target ∧ (limit = 0 ∨ removed < limit) then dropMatches target limit (removed + 1) items
    else (it :: (dropMatches target limit removed items).1, (dropMatches target limit removed items).2)

/-- What `LREM` leaves, and how many it removes; from the end if the count is negative. -/
def lremResult (target : Bytes) (count : Int) (items : List Bytes) : List Bytes × Nat :=
  if count < 0 then
    let r := dropMatches target (wrap64 (-count)) 0 items.reverse
    (r.1.reverse, r.2)
  else dropMatches target count 0 items

def lremCommand : MemM S.E Bytes :=
  match parseInt (argv.getD 2 []) with
  | none => pure notAnInteger
  | some count => do
    let key := argv.getD 1 []
    let target := argv.getD 3 []
    match ← getView listKind S c key with
    | .error e => return e
    | .ok none => return integer 0
    | .ok (some w) =>
    let r := lremResult target count w.held.items
    if r.2 = 0 then return integer 0
    else
      storeList S c key r.1
      return integer r.2

/-! ## Moving -/

def moveElement (src dst : Bytes) (source target : ListEnd) : MemM S.E Bytes := do
  match ← getView listKind S c src with
  | .error e => return e
  | .ok none => return nullBulkString
  | .ok (some w) =>
  if ← holdsOther listKind S c dst then return wrongType
  else
    match popEnd source w.held.items with
    | none => return nullBulkString
    | some (val, rest) =>
    let w ← w.perform listKind S (.inPlace rest)
    w.drop S c
    match ← getOrCreate listKind S c dst with
    | .error e => return e
    | .ok (w, _) =>
      let _ ← w.performAll listKind S (pushEdits S target w.held val)
      return bulkString val

def lmoveGeneric (src dst source target : Bytes) : MemM S.E Bytes :=
  match listEnd? source, listEnd? target with
  | some source, some target => moveElement S c src dst source target
  | _, _ => pure syntaxError

def lmoveCommand : MemM S.E Bytes :=
  lmoveGeneric S c (argv.getD 1 []) (argv.getD 2 []) (toUpper (argv.getD 3 [])) (toUpper (argv.getD 4 []))

def rpoplpushCommand : MemM S.E Bytes :=
  lmoveGeneric S c (argv.getD 1 []) (argv.getD 2 []) (ascii "RIGHT") (ascii "LEFT")

end Gopherdis.Encoded

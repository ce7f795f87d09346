/-
The stream: a list of chunks of records, each chunk backed by an arena of fixed size, with the
interned field names, the number of entries and the last ID. An entry is appended to the last chunk
or, when that is full or its arena exhausted, to a new one; trimming drops chunks from the head and
marks records deleted.
-/
import Gopherdis.Stream.Id

namespace Gopherdis.Stream

open Lib

/-! ## Chunks -/

structure EntryRecord where
  id : StreamID
  fieldIDs : List UInt16
  values : List Bytes
  deleted : Bool
deriving DecidableEq, Repr

/-- A chunk, with the bytes its arena has handed out. -/
structure StreamChunk where
  arena : Nat
  entries : List EntryRecord
  deletedCount : Nat
deriving DecidableEq, Repr

def chunkArenaSize : Nat := 8192

def maxChunkEntries : Nat := 512

def newChunk : StreamChunk := ⟨0, [], 0⟩

variable (c : StreamChunk)

def StreamChunk.numActive : Int := c.entries.length - c.deletedCount

/-- `Arena.Alloc` on an arena of one slab: it fails exactly when the bytes left do not suffice. -/
def arenaAlloc (used n : Nat) : Option Nat := if used + n ≤ chunkArenaSize then some (used + n) else none

/-- Allocates the nonempty values one after the other; what was handed out before a failure stays
handed out. -/
def allocValues : Nat → List Bytes → Nat × Bool
  | used, [] => (used, true)
  | used, v :: vs =>
    if v = [] then allocValues used vs
    else
      match arenaAlloc used v.length with
      | none => (used, false)
      | some used => allocValues used vs

/-- `Append`: the chunk, and whether it took the entry. -/
def StreamChunk.append (id : StreamID) (fieldIDs : List UInt16) (values : List Bytes) :
    StreamChunk × Bool :=
  if maxChunkEntries ≤ c.entries.length then (c, false)
  else
    match allocValues c.arena values with
    | (arena, false) => ({ c with arena }, false)
    | (arena, true) => ({ c with arena, entries := c.entries ++ [⟨id, fieldIDs, values, false⟩] }, true)

/-! ## Streams -/

/-- The consumer groups and the blocked readers of a stream play no part here. The field map sends a
name to its index among the interned names, as a `uint16`. -/
structure Stream where
  chunks : List StreamChunk
  length : Int
  firstID : StreamID
  lastID : StreamID
  fields : List Bytes
deriving DecidableEq, Repr

def newStream : Stream := ⟨[], 0, zeroID, zeroID, []⟩

structure StreamEntry where
  id : StreamID
  fields : List Bytes
  values : List Bytes
deriving DecidableEq, Repr

def internField (fields : List Bytes) (name : Bytes) : List Bytes × UInt16 :=
  match fields.idxOf? name with
  | some i => (fields, UInt16.ofNat i)
  | none => (fields ++ [name], UInt16.ofNat fields.length)

def internFields : List Bytes → List Bytes → List Bytes × List UInt16
  | fields, [] => (fields, [])
  | fields, name :: names =>
    let (fields, id) := internField fields name
    let (fields, ids) := internFields fields names
    (fields, id :: ids)

/-- Appends to the last chunk, or to a new one after it; an entry that does not fit an empty arena
is stored nowhere. -/
def appendLast (id : StreamID) (fieldIDs : List UInt16) (values : List Bytes) :
    List StreamChunk → List StreamChunk
  | [] => []
  | [tail] =>
    match tail.append id fieldIDs values with
    | (tail, true) => [tail]
    | (tail, false) => [tail, (newChunk.append id fieldIDs values).1]
  | c :: cs => c :: appendLast id fieldIDs values cs

/-- Marks the oldest live records deleted until the length is down to `maxLen`. -/
def markOldest (maxLen : Int) : Int → List EntryRecord → List EntryRecord × Int
  | length, [] => ([], length)
  | length, r :: rs =>
    if r.deleted then
      let (rs, length) := markOldest maxLen length rs
      (r :: rs, length)
    else if length - 1 ≤ maxLen then ({ r with deleted := true } :: rs, length - 1)
    else
      let (rs, length) := markOldest maxLen (length - 1) rs
      ({ r with deleted := true } :: rs, length)

/-- `trimInternal`, one chunk after the other from the head. A head chunk that still has live
records after the marking has brought the length down to `maxLen`. -/
def trimChunks (maxLen : Int) (approx : Bool) : Int → List StreamChunk → List StreamChunk × Int
  | length, [] => ([], length)
  | length, c :: cs =>
    if length ≤ maxLen then (c :: cs, length)
    else if approx ∧ maxLen ≤ length - c.numActive then trimChunks maxLen approx (length - c.numActive) cs
    else
      let (entries, length') := markOldest maxLen length c.entries
      let c' := { c with entries, deletedCount := c.deletedCount + (length - length').toNat }
      if c'.numActive = 0 then trimChunks maxLen approx length' cs else (c' :: cs, length')

variable (s : Stream)

def Stream.trimInternal (maxLen : Int) (approx : Bool) : Stream :=
  let (chunks, length) := trimChunks maxLen approx s.length s.chunks
  { s with chunks, length }

/-- `AddRaw`, on `[name1, val1, name2, val2, ...]`; `none` is `ErrInvalidStreamID`. -/
def Stream.addRaw (s : Stream) (id : StreamID) (pairs : List Bytes) (maxLen : Int) (approx : Bool) : Option Stream :=
  if 0 < s.length ∧ ¬ s.lastID.lt id then none
  else
    let (fields, fieldIDs) := internFields s.fields ((pairUp pairs).map Prod.fst)
    let values := (pairUp pairs).map Prod.snd
    let chunks := if s.chunks = [] then [newChunk] else s.chunks
    let firstID := if s.chunks = [] then id else s.firstID
    let s' : Stream :=
      ⟨appendLast id fieldIDs values chunks, s.length + 1, firstID, id, fields⟩
    some (if 0 < maxLen ∧ maxLen < s'.length then s'.trimInternal maxLen approx else s')

/-! ## Reading and deleting -/

def Stream.unpackEntry (r : EntryRecord) : StreamEntry :=
  ⟨r.id, r.fieldIDs.map fun i => s.fields.getD i.toNat [], r.values⟩

/-- The forward walk of `Range` over the records of a chunk, and whether it went past the end. -/
def rangeRecords (start stop : StreamID) : List EntryRecord → List EntryRecord × Bool
  | [] => ([], false)
  | r :: rs =>
    if r.deleted ∨ r.id.lt start then rangeRecords start stop rs
    else if stop.lt r.id then ([], true)
    else
      let (found, past) := rangeRecords start stop rs
      (r :: found, past)

def rangeChunks (start stop : StreamID) : List StreamChunk → List EntryRecord
  | [] => []
  | c :: cs =>
    if (c.entries.getLast?).any (fun r => r.id.lt start) then rangeChunks start stop cs
    else
      match rangeRecords start stop c.entries with
      | (found, true) => found
      | (found, false) => found ++ rangeChunks start stop cs

/-- The forward `Range`; a positive count bounds the number of entries. -/
def Stream.range (start stop : StreamID) (count : Nat) : List StreamEntry :=
  let found := (rangeChunks start stop s.chunks).map s.unpackEntry
  if 0 < count then found.take count else found

/-- All entries, as the snapshot writers read them. -/
def Stream.entries : List StreamEntry := s.range zeroID maxID 0

/-- What a client sees of a stream: its entries and its last ID. -/
def shown : List StreamEntry × StreamID := (s.entries, s.lastID)

variable (ids : List StreamID) (rs : List EntryRecord)

def deleteRecords : List EntryRecord :=
  rs.map fun r => if ¬ r.deleted ∧ r.id ∈ ids then { r with deleted := true } else r

def hits : Nat :=
  rs.countP fun r => ¬ r.deleted ∧ r.id ∈ ids

def StreamChunk.delete : StreamChunk :=
  { c with entries := deleteRecords ids c.entries, deletedCount := c.deletedCount + hits ids c.entries }

def Stream.delete (s : Stream) (ids : List StreamID) : Stream :=
  { s with
    chunks := s.chunks.map fun c => c.delete ids
    length := s.length - (s.chunks.map fun c => hits ids c.entries).sum }

def trimBelowMinID (minID : StreamID) : Stream :=
  let ids := ((s.range zeroID minID 0).map StreamEntry.id).filter fun id => id.lt minID
  if ids = [] then s else s.delete ids

end Gopherdis.Stream

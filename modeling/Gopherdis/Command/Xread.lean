/-
`XREAD`: the query its arguments ask for, and one fetch of it. A missing argument of an option is an
index out of range, which ends the process; it is told apart from the errors that are replied.
-/
import Gopherdis.Command.Collections

namespace Gopherdis.Command

open Lib Codec Object Store Gopherdis.Stream

/-! ## The query -/

/-- The options up to `STREAMS`: the count, the time to block and the arguments after it. The error
`none` is a panic. -/
def xreadOptions : List Bytes → Int → Int → Except (Option Bytes) (Int × Int × List Bytes)
  | [], count, blockMs => .ok (count, blockMs, [])
  | word :: rest, count, blockMs =>
    let opt := toUpper word
    if opt = ascii "COUNT" then
      match rest with
      | [] => .error none
      | arg :: rest => (parseInt arg).elim (.error (some notAnInteger)) fun c => xreadOptions rest c blockMs
    else if opt = ascii "BLOCK" then
      match rest with
      | [] => .error none
      | arg :: rest => (parseInt arg).elim (.error (some notAnInteger)) fun b => xreadOptions rest count b
    else if opt = ascii "STREAMS" then .ok (count, blockMs, rest)
    else .error (some (error (ascii "syntax error in XREAD")))

/-- `getOrCreateStream(ctx, key, false)`, which finds no stream where there is none and where there is
something else. -/
def streamAt (now : Clock) (db : Keyspace) (key : Bytes) : Keyspace × Option Stream :=
  match db.get now key with
  | (db, v) => (db, v.bind streamOf)

/-- The ID to read after, `$` being the last one of the stream. -/
def xreadStart (now : Clock) (s : Option Stream) (idStr : Bytes) : Option StreamID :=
  if idStr = ascii "$" then some ((s.map Stream.lastID).getD zeroID) else parseID now.ms idStr zeroID

def xreadStarts (now : Clock) : List (Bytes × Bytes) → Keyspace → Keyspace × Option (List (Bytes × StreamID))
  | [], db => (db, some [])
  | (key, idStr) :: rest, db =>
    let (db, s) := streamAt now db key
    match xreadStart now s idStr with
    | none => (db, none)
    | some start =>
      let (db, starts) := xreadStarts now rest db
      (db, starts.map fun starts => (key, start) :: starts)

/-- What to read after which ID, how many entries of each stream at most, and how long to wait. -/
structure XreadQuery where
  count : Int
  blockMs : Int
  streams : List (Bytes × StreamID)
deriving DecidableEq, Repr

def xreadQuery (now : Clock) (argv : Argv) (db : Keyspace) : Keyspace × Except (Option Bytes) XreadQuery :=
  match xreadOptions (argv.drop 1) 0 (-1) with
  | .error e => (db, .error e)
  | .ok (count, blockMs, rem) =>
  if rem = [] ∨ rem.length % 2 ≠ 0 then (db, .error (some (error (ascii "syntax error in XREAD STREAMS"))))
  else
    let numStreams := rem.length / 2
    match xreadStarts now ((rem.take numStreams).zip (rem.drop numStreams)) db with
    | (db, none) => (db, .error (some invalidIDFormat))
    | (db, some streams) => (db, .ok ⟨count, blockMs, streams⟩)

/-! ## One fetch -/

/-- The entries of a stream that are read: the range is asked for one entry more than the count, as the
first one may be the start itself, and then without the start. -/
def xreadEntries (count : Int) (start : StreamID) (s : Stream) : List StreamEntry :=
  let filtered := (s.range start maxID (wrap64 (count + 1)).toNat).filter fun e => start.lt e.id
  if 0 < count then filtered.take count.toNat else filtered

def formatStreamEntry (e : StreamEntry) : Bytes :=
  array [bulkString e.id.format, array ((e.fields.zip e.values).flatMap fun p => [bulkString p.1, bulkString p.2])]

def formatStreamEntries (entries : List StreamEntry) : Bytes := array (entries.map formatStreamEntry)

/-- `fetch`: a reply for each stream with something to read. -/
def xreadFetch (now : Clock) (count : Int) : List (Bytes × StreamID) → Keyspace → Keyspace × List Bytes
  | [], db => (db, [])
  | (key, start) :: rest, db =>
    let (db, s) := streamAt now db key
    let filtered := (s.map (xreadEntries count start)).getD []
    let (db, results) := xreadFetch now count rest db
    if filtered = [] then (db, results)
    else (db, array [bulkString key, formatStreamEntries filtered] :: results)

end Gopherdis.Command

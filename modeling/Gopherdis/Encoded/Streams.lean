/-
The commands on streams that may make one. A stream is changed where it is; its consumer groups are a map
of their own, which lives and dies with it.
-/
import Gopherdis.Encoded.View

namespace Gopherdis.Encoded

open Lib Codec Object Store Command Gopherdis.Stream

/-- The consumer groups of the streams, each with the ID last delivered to it. -/
abbrev Groups : Type := Bytes → List (Bytes × StreamID)

/-- A stream, whether it was made just now, and whether its key has it. -/
structure Found where
  stream : Stream
  made : Bool
  attached : Bool

def freshStream : Robj := ⟨.stream newStream, .raw⟩

variable (S : Settings) (c : Call)

def getOrCreateStream (key : Bytes) (createIfMissing : Bool) : MemM S.E (Except Bytes (Option Found)) := do
  match ← MemM.get c.now key with
  | some o => return (streamOf o.val).elim (.error wrongType) fun s => .ok (some ⟨s, false, true⟩)
  | none =>
    if !createIfMissing then return .ok none
    else
      let stored ← MemM.set S.server key freshStream
      return .ok (some ⟨newStream, true, stored⟩)

/-- The stream has changed in its place. -/
def Found.update (f : Found) (key : Bytes) (s : Stream) : MemM S.E Unit := do
  if f.attached then Traced.perform (.edit key ⟨.stream s, .raw⟩)

def xaddCommand (argv : Argv) : MemM S.E Bytes :=
  let key := argv.getD 1 []
  match xaddOptions c.now (argv.drop 2) {} with
  | .error e => pure e
  | .ok (_, []) => pure xaddArity
  | .ok (o, idStr :: fieldsRaw) =>
  if fieldsRaw = [] ∨ fieldsRaw.length % 2 ≠ 0 then pure xaddArity
  else do
    match ← getOrCreateStream S c key (!o.nomkstream) with
    | .error e => return e
    | .ok none => return nullBulkString
    | .ok (some f) =>
    match parseID c.now.ms idStr f.stream.lastID with
    | none => return invalidIDFormat
    | some id =>
    match xaddStream o id fieldsRaw f.stream with
    | none => return invalidStreamID
    | some s =>
      f.update S key s
      return bulkString id.format

/-! ## XGROUP -/

/-- The groups of a stream, none if it is new. -/
def Found.groups (f : Found) (groups : Groups) (key : Bytes) : List (Bytes × StreamID) :=
  if f.made then [] else groups key

/-- The ID a group starts from. -/
def groupStart (s : Stream) (text : Bytes) : Option StreamID :=
  if text = ascii "$" then some s.lastID else parseID c.now.ms text zeroID

def xgroupArity (what : String) : Bytes := error (ascii "wrong number of arguments for '" ++ ascii what ++ ascii "' command")

variable (groups : Groups)

/-- `XGROUP CREATE`: the stream is made before the ID is read. -/
def xgroupCreate (argv : Argv) : MemM S.E (Bytes × Groups) :=
  let key := argv.getD 2 []
  let name := argv.getD 3 []
  if argv.length < 5 then pure (xgroupArity "xgroup create", groups)
  else do
    match ← getOrCreateStream S c key true with
    | .error e => return (e, groups)
    | .ok none => return (ok, groups)
    | .ok (some f) =>
    match groupStart c f.stream (argv.getD 4 []) with
    | none => return (invalidIDFormat, groups)
    | some id =>
      if ((f.groups groups key).lookup name).isSome then
        return (error (ascii "BUSYGROUP Consumer Group name already exists"), groups)
      else if f.attached then return (ok, Function.update groups key ((name, id) :: f.groups groups key))
      else return (ok, groups)

def xgroupSetID (argv : Argv) : MemM S.E (Bytes × Groups) :=
  let key := argv.getD 2 []
  let name := argv.getD 3 []
  if argv.length < 5 then pure (xgroupArity "xgroup setid", groups)
  else do
    match ← getOrCreateStream S c key false with
    | .error e => return (e, groups)
    | .ok none =>
      return (error (ascii "NOGROUP No such key '" ++ key ++ ascii "' or consumer group '" ++ name ++ ascii "'"), groups)
    | .ok (some f) =>
    match groupStart c f.stream (argv.getD 4 []) with
    | none => return (invalidIDFormat, groups)
    | some id =>
    if ((groups key).lookup name).isSome then
      return (ok, Function.update groups key ((groups key).map fun g => if g.1 = name then (name, id) else g))
    else
      return (error (ascii "NOGROUP No such consumer group '" ++ name ++ ascii "' for key name '" ++ key ++
        ascii "'"), groups)

def xgroupDestroy (argv : Argv) : MemM S.E (Bytes × Groups) :=
  let key := argv.getD 2 []
  let name := argv.getD 3 []
  if argv.length < 4 then pure (xgroupArity "xgroup destroy", groups)
  else do
    match ← getOrCreateStream S c key false with
    | .error e => return (e, groups)
    | .ok none => return (integer 0, groups)
    | .ok (some _) =>
      if ((groups key).lookup name).isSome then
        return (integer 1, Function.update groups key ((groups key).filter fun g => g.1 ≠ name))
      else return (integer 0, groups)

/-- Consumers are made by the first read, so there is nothing to do for them. -/
def xgroupCommand (argv : Argv) : MemM S.E (Bytes × Groups) :=
  let sub := toUpper (argv.getD 1 [])
  if sub = ascii "CREATE" then xgroupCreate S c groups argv
  else if sub = ascii "SETID" then xgroupSetID S c groups argv
  else if sub = ascii "CREATECONSUMER" ∨ sub = ascii "DELCONSUMER" then
    if argv.length < 5 then pure (xgroupArity "xgroup", groups) else pure (integer 0, groups)
  else if sub = ascii "DESTROY" then xgroupDestroy S c groups argv
  else pure (error (ascii "unknown subcommand '" ++ sub ++ ascii "'"), groups)

end Gopherdis.Encoded

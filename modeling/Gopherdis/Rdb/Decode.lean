/-
The snapshot decoder. A deadline opcode sets a variable of the loop that the next value record takes
and clears; every other opcode leaves it alone.
-/
import Gopherdis.Lib.Reader
import Gopherdis.Rdb.Encode

namespace Gopherdis.Rdb

open Lib Object Store Reader

inductive RdbError
  | eof
  | unexpectedEOF
  | invalidMagicHeader
  | unsupportedVersion (ver : Int)
  | checksumMismatch
  | corruptedRDB
  | lzfCorruptedData
deriving DecidableEq, Repr

/-- Readers with the checksum of what they have consumed. -/
abbrev Dec := Reader UInt64 RdbError

/-! ## Lengths and strings -/

def readFull (n : Nat) : Dec Bytes := Reader.readFull crc64Step .eof .unexpectedEOF n

def readByte : Dec UInt8 := do
  let buf ← readFull 1
  return buf.headD 0

def readHeader : Dec Int := do
  let header ← readFull 9
  if header.take 5 ≠ ascii "REDIS" then fail .invalidMagicHeader
  else
    match parseInt (header.drop 5) with
    | none => fail (.unsupportedVersion 0)
    | some ver => if ver < 1 ∨ 15 < ver then fail (.unsupportedVersion ver) else return ver

/-- `ReadLen`: the length, or that it is a special encoding and which. -/
def readLen : Dec (Nat × Option Nat) := do
  let first ← readByte
  match first.toNat / 2 ^ 6 with
  | 0 => return (first.toNat % 2 ^ 6, none)
  | 1 => do
    let second ← readByte
    return (first.toNat % 2 ^ 6 * 2 ^ 8 + second.toNat, none)
  | 2 =>
    if first = 0x80 then do
      let buf ← readFull 4
      return (beVal buf, none)
    else if first = 0x81 then do
      let buf ← readFull 8
      return (beVal buf, none)
    else fail .corruptedRDB
  | _ => return (0, some (first.toNat % 2 ^ 6))

/-- A little-endian integer of `w` bytes in two's complement, in decimal. -/
def readIntString (w : Nat) : Dec Bytes := do
  let buf ← readFull w
  let n := leVal buf
  return formatInt (if n < 2 ^ (8 * w - 1) then n else n - 2 ^ (8 * w))

def readString : Dec Bytes := do
  let (length, encType) ← readLen
  match encType with
  | none => readFull length
  | some 0 => readIntString 1
  | some 1 => readIntString 2
  | some 2 => readIntString 4
  | some 3 => do
    let cLen ← readLen
    let uLen ← readLen
    let cData ← readFull cLen.1
    match decompress cData uLen.1 with
    | some data => return data
    | none => fail .lzfCorruptedData
  | some _ => fail .corruptedRDB

/-! ## Values -/

variable (E : Env)

/-- The order of `sort.SliceStable` on loaded sorted-set entries. -/
def entryLess (a b : Bytes × Score) : Bool := if E.scoreEq a.2 b.2 then a.1 < b.1 else E.scoreLt a.2 b.2

def readPair : Dec (Bytes × Bytes) := do
  let a ← readString
  let b ← readString
  return (a, b)

/-- A count, and that many readings. -/
def readCounted {α : Type} (p : Dec α) : Dec (List α) := do
  let count ← readLen
  times p count.1

/-- The value of a record, by its type; an unknown one is passed over. -/
def readValue (valType : UInt8) : Dec (Option Value) :=
  match valType.toNat with
  | 0 => do
    let b ← readString
    return some (.str b)
  | 1 | 14 => do
    let items ← readCounted readString
    return some (.list items)
  | 2 => do
    let members ← readCounted readString
    return some (newSetFrom E members)
  | 4 => do
    let entries ← readCounted readPair
    return some (newHashFrom E entries)
  | 3 | 5 => do
    let pairs ← readCounted readPair
    let entries := pairs.map fun p => (p.1, (E.parseFloat p.2).1)
    return some (newZSetFrom E (entries.mergeSort fun a b => !entryLess E b a))
  | _ => do
    skip readString
    return none

/-! ## The load loop -/

variable (now : Clock)

/-- Stores a loaded value; one that is past its deadline is dropped. -/
def storeLoaded (db : Keyspace) (key : Bytes) (robj : Value) (expireAt : Int) : Keyspace :=
  if 0 < expireAt then
    let ttlMs := expireAt - now.ms
    if 0 < ttlMs then db.setWithExpire now key robj (wrap64 (ttlMs * 10 ^ 6)) else db
  else db.set key robj

/-- Compares the checksum; a file that ends before it, or has none, is taken as it is. -/
def readFooter : Dec Unit := fun s =>
  if 8 ≤ s.rest.length then
    let expectedCRC := leVal (s.rest.take 8)
    if expectedCRC ≠ 0 ∧ expectedCRC ≠ s.digest.toNat then (.error .checksumMismatch, ⟨s.rest.drop 8, s.digest⟩)
    else (.ok (), ⟨s.rest.drop 8, s.digest⟩)
  else (.ok (), ⟨[], s.digest⟩)

/-- One turn of the loop after its first byte: the pending deadline and the keyspace to go on with,
or `none` at the end of the file. -/
def loadRecord (b : UInt8) (expireAt : Int) (db : Keyspace) : Dec (Option (Int × Keyspace)) :=
  match b.toNat with
  | 250 => do
    skip readString
    skip readString
    return some (expireAt, db)
  | 254 => do
    skip readLen
    return some (expireAt, db)
  | 251 => do
    skip readLen
    skip readLen
    return some (expireAt, db)
  | 252 => do
    let expBuf ← readFull 8
    return some (wrap64 (leVal expBuf), db)
  | 253 => do
    let expBuf ← readFull 4
    return some (leVal expBuf * 1000, db)
  | 255 => do
    readFooter
    return none
  | _ => do
    let key ← readString
    let robj ← readValue E b
    return some (0, robj.elim db fun v => storeLoaded now db key v expireAt)

/-- The loop of `Load`, which stops without an error where the input does. -/
def loadLoop : Nat → Int → Keyspace → Input UInt64 → Except RdbError Unit × Keyspace
  | 0, _, db, _ => (.ok (), db)
  | fuel + 1, expireAt, db, s =>
    match readByte s with
    | (.error .eof, _) => (.ok (), db)
    | (.error e, _) => (.error e, db)
    | (.ok b, s) =>
      match loadRecord E now b expireAt db s with
      | (.error e, _) => (.error e, db)
      | (.ok none, _) => (.ok (), db)
      | (.ok (some (expireAt, db)), s) => loadLoop fuel expireAt db s

/-- `Load` of a whole file into `db`; every turn of the loop reads at least a byte. -/
def load (data : Bytes) (db : Keyspace) : Except RdbError Unit × Keyspace :=
  match readHeader ⟨data, 0⟩ with
  | (.error e, _) => (.error e, db)
  | (.ok _, s) => loadLoop E now (s.rest.length + 1) 0 db s

end Gopherdis.Rdb

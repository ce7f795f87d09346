/-
The snapshot format as the encoder writes it: a header, one record for each entry with its deadline
in an opcode of its own before it, and a footer with the checksum.
-/
import Gopherdis.Lib.Endian
import Gopherdis.Rdb.Lzf
import Gopherdis.Store.Keyspace

namespace Gopherdis.Rdb

open Lib Object Store

/-! ## The checksum -/

def crc64Poly : UInt64 := 0xad93d23594c935a9

def crc64Table (i : UInt8) : UInt64 :=
  (List.range 8).foldl (fun crc _ => if crc &&& 1 = 1 then (crc >>> 1) ^^^ crc64Poly else crc >>> 1) i.toUInt64

def crc64Step (crc : UInt64) (b : UInt8) : UInt64 := crc64Table (crc.toUInt8 ^^^ b) ^^^ (crc >>> 8)

def crc64 (crc : UInt64) (data : Bytes) : UInt64 := data.foldl crc64Step crc

/-! ## Lengths and strings -/

/-- `WriteLen`: six, fourteen, thirty-two or sixty-four bits. -/
def writeLen (length : Nat) : Bytes :=
  if length < 2 ^ 6 then [UInt8.ofNat length]
  else if length < 2 ^ 14 then [UInt8.ofNat (length / 2 ^ 8 + 0x40), UInt8.ofNat (length % 2 ^ 8)]
  else if length < 2 ^ 32 then 0x80 :: beBytes 4 length
  else 0x81 :: beBytes 8 length

/-- `WriteString`: compressed, with both lengths, when that makes it shorter. -/
def writeString (data : Bytes) : Bytes :=
  match compress data with
  | some compressed => 0xC3 :: (writeLen compressed.length ++ (writeLen data.length ++ compressed))
  | none => writeLen data.length ++ data

/-! ## The encoder -/

/-- What has been written, and its checksum. -/
structure Encoder where
  out : Bytes
  crc : UInt64

namespace Encoder

variable (enc : Encoder)

def writeRaw (b : Bytes) : Encoder := ⟨enc.out ++ b, crc64 enc.crc b⟩

/-- Every form of a length is written in one piece. -/
def writeLen (length : UInt64) : Encoder := enc.writeRaw (Rdb.writeLen length.toNat)

def writeString (data : Bytes) : Encoder :=
  match compress data with
  | some compressed =>
    (((enc.writeRaw [0xC3]).writeLen (.ofNat compressed.length)).writeLen (.ofNat data.length)).writeRaw compressed
  | none => (enc.writeLen (.ofNat data.length)).writeRaw data

end Encoder

/-! ## Entries -/

variable (E : Env)

/-- The opcode that carries a deadline to the next record. -/
def writeExpire (expireAt : Int) : Bytes := if 0 < expireAt then 0xFC :: leBytes 8 expireAt.toNat else []

/-- The record of a value; a stream has none. -/
def writeValue (key : Bytes) : Value → Bytes
  | .str b => 0 :: (writeString key ++ writeString b)
  | .list items => 1 :: (writeString key ++ (writeLen items.length ++ items.flatMap writeString))
  | .set members => 2 :: (writeString key ++ (writeLen members.length ++ members.flatMap writeString))
  | .zset es =>
    3 :: (writeString key ++
      (writeLen es.length ++ es.flatMap fun e => writeString e.1 ++ writeString (E.formatFloat e.2)))
  | .hash es =>
    4 :: (writeString key ++ (writeLen es.length ++ es.flatMap fun e => writeString e.1 ++ writeString e.2))
  | .stream _ => []

def writeEntry (key : Bytes) (e : Entry) : Bytes := writeExpire e.expireAt ++ writeValue E key e.val

/-! ## Whole files -/

def writeHeader : Bytes := ascii "REDIS0009"

def writeAux (key val : Bytes) : Bytes := 0xFA :: (writeString key ++ writeString val)

def writeStandardAuxFields (now : Clock) : Bytes :=
  writeAux (ascii "redis-ver") (ascii "7.2.0") ++ writeAux (ascii "redis-bits") (ascii "64") ++
    writeAux (ascii "ctime") (formatInt (now.ns / 10 ^ 9))

def writeSelectDB (dbIndex : Nat) : Bytes := 0xFE :: writeLen dbIndex

/-- Ends a file: the end opcode, and the checksum of all that comes before. -/
def writeFooter (body : Bytes) : Bytes := body ++ 0xFF :: leBytes 8 (crc64 0 (body ++ [0xFF])).toNat

/-- What stands between header and entries: `Save` writes the standard fields and the database index,
`DUMP` nothing. -/
def writePrelude : Option Clock → Bytes
  | some savedAt => writeStandardAuxFields savedAt ++ writeSelectDB 0
  | none => []

def writeSnapshot (savedAt : Option Clock) (entries : List (Bytes × Entry)) : Bytes :=
  writeFooter (writeHeader ++ (writePrelude savedAt ++ entries.flatMap fun e => writeEntry E e.1 e.2))

end Gopherdis.Rdb

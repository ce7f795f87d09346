/-
Objects with their encodings: what a pointer of the keyspace leads to, as far as its size is concerned.
A small collection is one listpack, a small set of integers an intset, and these count by what they
hold; the other collections count as a fixed amount. Which encoding a new object has is decided by its
contents.
-/
import Gopherdis.Object.Value

namespace Gopherdis.Object

open Lib

/-- `raw` is a byte slice and `embstr` a string; a stream is the only object of its kind. -/
inductive Encoding
  | raw
  | embstr
  | int
  | listpack
  | intset
  | quicklist
  | hashtable
  | skiplist
  | stream
deriving DecidableEq, Repr

structure Robj where
  val : Value
  enc : Encoding
deriving DecidableEq, Repr

/-- `EncodingName`, which `OBJECT ENCODING` reports. -/
def Robj.encodingName (o : Robj) : String :=
  match o.enc with
  | .raw => "raw"
  | .embstr => "embstr"
  | .int => "int"
  | .listpack => "listpack"
  | .intset => "intset"
  | .quicklist => "quicklist"
  | .hashtable => "hashtable"
  | .skiplist => "skiplist"
  | .stream => "stream"

lemma Robj.encodingName_eq_iff {o o' : Robj} : o.encodingName = o'.encodingName ↔ o.enc = o'.enc := by
  obtain ⟨_, enc⟩ := o
  obtain ⟨_, enc'⟩ := o'
  cases enc <;> cases enc' <;> simp [encodingName]

/-! ## Sizes -/

/-- The bytes of a length header, the number shifted by seven bits at a time. -/
def uvarintLenFrom : Nat → Nat → Nat
  | 0, _ => 1
  | fuel + 1, v => if v < 0x80 then 1 else uvarintLenFrom fuel (v / 0x80) + 1

/-- `uvarintLen`, of a `uint64`. -/
def uvarintLen (v : Nat) : Nat := uvarintLenFrom 10 v

variable (b : Bytes)

def packedLen : Nat := uvarintLen b.length + b.length

variable (E : Env)

/-- The elements a listpack holds: keys and values, or members and scores, alternate. -/
def Value.elements : Value → List Bytes
  | .list items => items
  | .hash es => es.flatMap fun e => [e.1, e.2]
  | .set ms => ms
  | .zset es => es.flatMap fun e => [e.1, E.formatFloat e.2]
  | .str _ | .stream _ => []

def packedBytes (elements : List Bytes) : Nat := (elements.map packedLen).sum

/-- What `estimateObjectSize` adds for the payload. -/
def Robj.payloadSize (o : Robj) : Nat :=
  match o.enc, o.val with
  | .raw, .str b | .embstr, .str b => b.length
  | .int, _ => 8
  | .listpack, v => packedBytes (v.elements E)
  | .intset, v => (v.elements E).length * 8
  | _, _ => 64

def estimateObjectSize (key : Bytes) (o : Robj) : Int := key.length + 16 + o.payloadSize E

lemma estimateObjectSize_pos (key : Bytes) (o : Robj) : 0 < estimateObjectSize E key o := by
  unfold estimateObjectSize
  omega

/-! ## New objects -/

/-- `CreateRawStringObject`. -/
def rawString : Robj := ⟨.str b, .raw⟩

/-- `CreateStringObject`. -/
def embString : Robj := ⟨.str b, .embstr⟩

/-- `CreateStringObjectFromLongLong`. -/
def intString (n : Int) : Robj := ⟨.str (formatInt n), .int⟩

def embstrSizeLimit : Nat := 44

def tryEncodeString : Robj :=
  if isCanonicalInt b then ⟨.str b, .int⟩ else if b.length ≤ embstrSizeLimit then embString b else rawString b

/-- The longest element a list keeps in a listpack. -/
def listMaxListpackValue : Nat := 64

variable (limit : Int)

/-- `listpackSizeLimits`: the byte budget of a negative `list-max-listpack-size`. -/
def listpackBudget : Nat :=
  if limit = -1 then 4 * 1024
  else if limit = -3 then 16 * 1024
  else if limit = -4 then 32 * 1024
  else if limit = -5 then 64 * 1024
  else 8 * 1024

variable (items : List Bytes)

/-- The elements are too many for a listpack, or too large together; two bytes are counted for a header. -/
def listTooBig : Bool :=
  if 0 ≤ limit then limit < items.length else listpackBudget limit < (items.map fun it => it.length + 2).sum

/-- `NewListFrom`, and the choice `replaceAll` makes for a list that is not a quicklist yet. -/
def listEncoding : Encoding :=
  if items.any (fun it => listMaxListpackValue < it.length) || listTooBig limit items then .quicklist else .listpack

/-- `NewHashFrom`. -/
def hashEncoding (es : List (Bytes × Bytes)) : Encoding :=
  let longest := maxLen (es.flatMap fun e => [e.1, e.2])
  if es.length ≤ E.hashMaxListpackEntries ∧ longest ≤ E.hashMaxListpackValue then .listpack else .hashtable

/-- `NewSetFrom`. -/
def setEncoding (ms : List Bytes) : Encoding :=
  if ms.all isCanonicalInt ∧ ms.length ≤ E.setMaxIntsetEntries then .intset
  else if ms.length ≤ E.setMaxListpackEntries ∧ maxLen ms ≤ E.setMaxListpackValue then .listpack
  else .hashtable

/-- `NewZSetFrom`. -/
def zsetEncoding (es : List (Bytes × Score)) : Encoding :=
  if es.length ≤ E.zsetMaxListpackEntries ∧ maxLen (es.map Prod.fst) ≤ E.zsetMaxListpackValue then .listpack
  else .skiplist

/-- An object as the snapshot decoder makes it. -/
def loadedObject (listLimit : Int) (v : Value) : Robj :=
  ⟨v, match v with
    | .str _ => .raw
    | .list items => listEncoding listLimit items
    | .hash es => hashEncoding E es
    | .set ms => setEncoding E ms
    | .zset es => zsetEncoding E es
    | .stream _ => .raw⟩

end Gopherdis.Object

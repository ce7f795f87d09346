/-
The commands on strings, bitmaps and HyperLogLogs among them. Whether the deadline stays is decided by the
operation the new value is stored with, and whether the value was refused is asked nowhere.
-/
import Gopherdis.Encoded.Hashes
import Gopherdis.Lib.Endian

namespace Gopherdis.Encoded

open Lib Codec Object Store Command MemM

variable (S : Settings) (c : Call)

/-- What the handlers that were written for one keyspace read of a call. -/
def Call.context : Context := ⟨S.E, c.now, c.resp3, fun _ => true, fun _ => none, true⟩

def stringOf : Value → Option Bytes
  | .str b => some b
  | _ => none

/-- `Get`, and the check that there is a string if there is anything. -/
def getString (key : Bytes) : MemM S.E (Except Bytes (Option (Bytes × Encoding))) := do
  match ← get c.now key with
  | none => return .ok none
  | some o => return (stringOf o.val).elim (.error wrongType) fun b => .ok (some (b, o.enc))

/-! ## SET and its relatives -/

/-- A value is stored with the deadline its options ask for. -/
def storeTimed (x : Expiry) (key : Bytes) (obj : Robj) : MemM S.E Unit :=
  match x.ttl with
  | some ttl => do
    let _ ← setWithExpire S.server c.now key obj ttl
  | none => do
    if 0 < x.expAt then
      let _ ← set S.server key obj
      let _ ← setExpireAt c.now key x.expAt
    else if x.keepTTL then setKeepTTL key obj
    else
      let _ ← set S.server key obj

variable (argv : Argv)

def setCommand : MemM S.E Answer :=
  let key := argv.getD 1 []
  match setOptions (argv.drop 3) {} with
  | .error e => pure ⟨e, none⟩
  | .ok o =>
  if (o.nx ∧ o.xx) ∨ (o.compare.isSome ∧ (o.nx ∨ o.xx)) then pure ⟨syntaxError, none⟩
  else do
    let old ← get c.now key
    match setDecision (c.context S) o (old.map Robj.val) with
    | .leave reply override => return ⟨reply, override⟩
    | .write reply =>
      storeTimed S c o.expiry key (tryEncodeString (argv.getD 2 []))
      return ⟨reply, none⟩

def setnxCommand : MemM S.E Bytes := do
  let key := argv.getD 1 []
  if ← has c.now key then return integer 0
  else
    let _ ← set S.server key (tryEncodeString (argv.getD 2 []))
    return integer 1

def setexGeneric (unit : Int) (argv : Argv) : MemM S.E Bytes :=
  match parseInt (argv.getD 2 []) with
  | none => pure notAnInteger
  | some n =>
    if n ≤ 0 ∨ ¬ validExpireMillis ((wrap64 (n * unit)).tdiv (10 ^ 6)) then pure (invalidExpire "setex")
    else do
      let _ ← setWithExpire S.server c.now (argv.getD 1 []) (tryEncodeString (argv.getD 3 [])) (wrap64 (n * unit))
      return ok

def setexCommand : Argv → MemM S.E Bytes := setexGeneric S c (10 ^ 9)

def psetexCommand : Argv → MemM S.E Bytes := setexGeneric S c (10 ^ 6)

def getsetCommand : MemM S.E Bytes := do
  let key := argv.getD 1 []
  match ← getString S c key with
  | .error e => return e
  | .ok old =>
    let _ ← set S.server key (tryEncodeString (argv.getD 2 []))
    return old.elim nullBulkString fun b => bulkString b.1

def getdelCommand : MemM S.E Bytes := do
  let key := argv.getD 1 []
  match ← getString S c key with
  | .error e => return e
  | .ok none => return nullBulkString
  | .ok (some (b, _)) =>
    let _ ← del c.now key
    return bulkString b

/-- The options of `GETEX`, each applied before the next is read. -/
def getexLoop (key out : Bytes) : List Bytes → MemM S.E Bytes
  | [] => pure out
  | word :: rest =>
    if toUpper word = ascii "PERSIST" then do
      let _ ← persist c.now key
      return out
    else
      match rest with
      | [] => pure syntaxError
      | num :: rest =>
      match parseInt num with
      | none => pure notAnInteger
      | some n =>
      match expireOpt? (toUpper word) with
      | none => pure syntaxError
      | some x =>
      match getexDeadline c.now x n with
      | none => pure (invalidExpire "getex")
      | some exp => do
        let _ ← setExpireAt c.now key exp
        getexLoop key out rest

def getexCommand : MemM S.E Bytes := do
  let key := argv.getD 1 []
  match ← getString S c key with
  | .error e => return e
  | .ok none => return nullBulkString
  | .ok (some (b, _)) => getexLoop S c key (bulkString b) (argv.drop 2)

/-! ## Several keys -/

def setAll : List (Bytes × Bytes) → MemM S.E Unit
  | [] => return
  | p :: pairs => do
    let _ ← set S.server p.1 (tryEncodeString p.2)
    setAll pairs

def msetCommand (_ : Call) (argv : Argv) : MemM S.E Bytes :=
  if (argv.drop 1).length % 2 ≠ 0 then pure (error (ascii "wrong number of arguments for 'mset' command"))
  else do
    setAll S (pairUp (argv.drop 1))
    return ok

/-- Some key is there, or some is not, where it must not be so. -/
def anyBlocks (nx xx : Bool) : List Bytes → MemM S.E Bool
  | [] => return false
  | key :: keys => do
    let has ← has c.now key
    if (nx && has) || (xx && !has) then return true else anyBlocks nx xx keys

def msetnxCommand : MemM S.E Bytes :=
  let pairs := pairUp (argv.drop 1)
  if (argv.drop 1).length % 2 ≠ 0 then pure (error (ascii "wrong number of arguments for 'msetnx' command"))
  else do
    if ← anyBlocks S c true false (pairs.map Prod.fst) then return integer 0
    else
      setAll S pairs
      return integer 1

def storeAllTimed (x : Expiry) : List (Bytes × Bytes) → MemM S.E Unit
  | [] => return
  | p :: pairs => do
    storeTimed S c x p.1 (tryEncodeString p.2)
    storeAllTimed x pairs

def msetexCommand : MemM S.E Bytes :=
  match msetexArgs argv with
  | .error e => pure e
  | .ok (pairs, o) => do
    if ← anyBlocks S c o.nx o.xx (pairs.map Prod.fst) then return integer 0
    else
      storeAllTimed S c o.expiry pairs
      return integer 1

/-! ## Counting and appending -/

def incrGeneric (key : Bytes) (delta : Int) : MemM S.E Bytes := do
  match ← getString S c key with
  | .error e => return e
  | .ok old =>
  match old.elim (some 0) fun b => parseInt b.1 with
  | none => return notAnInteger
  | some current =>
    if addOverflows current delta then return error (ascii "increment or decrement would overflow")
    else
      let _ ← set S.server key (intString (current + delta))
      return integer (current + delta)

def incrCommand : MemM S.E Bytes := incrGeneric S c (argv.getD 1 []) 1

def decrCommand : MemM S.E Bytes := incrGeneric S c (argv.getD 1 []) (-1)

def incrbyCommand : MemM S.E Bytes :=
  match parseInt (argv.getD 2 []) with
  | none => pure notAnInteger
  | some delta => incrGeneric S c (argv.getD 1 []) delta

/-- The least number has no opposite and is refused. -/
def decrbyCommand : MemM S.E Bytes :=
  match parseInt (argv.getD 2 []) with
  | none => pure notAnInteger
  | some delta =>
    if delta = -2 ^ 63 then pure (error (ascii "decrement would overflow"))
    else incrGeneric S c (argv.getD 1 []) (-delta)

variable (old : Option (Bytes × Encoding))

/-- The number a string holds, without blanks around it; zero for an absent key. -/
def currentFloat : Option Score :=
  match old with
  | none => some S.out.zero
  | some (b, _) =>
    if S.out.trimSpace b ≠ b then none
    else if (S.E.parseFloat b).2 then some (S.E.parseFloat b).1
    else none

def incrbyfloatCommand : MemM S.E Bytes :=
  let key := argv.getD 1 []
  let (delta, fine) := S.E.parseFloat (argv.getD 2 [])
  if ¬ fine ∨ S.E.isNaN delta then pure notAFloat
  else do
    match ← getString S c key with
    | .error e => return e
    | .ok old =>
    match currentFloat S old with
    | none => return notAFloat
    | some current =>
    let sum := S.E.scoreAdd current delta
    if S.E.isNaN sum ∨ S.out.isInf sum then return error (ascii "increment would produce NaN or Infinity")
    else
      let _ ← set S.server key (embString (S.E.formatFloat sum))
      return double S c sum

def oldBytes : Bytes := old.elim [] Prod.fst

def appendCommand : MemM S.E Bytes := do
  let key := argv.getD 1 []
  match ← getString S c key with
  | .error e => return e
  | .ok old =>
    let bytes := oldBytes old ++ argv.getD 2 []
    let _ ← set S.server key (rawString bytes)
    return integer bytes.length

def maxStringLength : Int := 512 * 1024 * 1024

/-- `value` written over `cur` at an offset, with zeros up to it. -/
def overwrite (cur : Bytes) (offset : Nat) (value : Bytes) : Bytes :=
  (cur ++ List.replicate (offset - cur.length) 0).take offset ++ value ++ cur.drop (offset + value.length)

def setrangeCommand : MemM S.E Bytes :=
  let key := argv.getD 1 []
  let value := argv.getD 3 []
  match parseInt (argv.getD 2 []) with
  | none => pure notAnInteger
  | some offset =>
  if offset < 0 then pure (error (ascii "offset is out of range"))
  else if maxStringLength < offset ∨ maxStringLength < offset + value.length then
    pure (error (ascii "string exceeds maximum allowed size (proto-max-bulk-len)"))
  else do
    match ← getString S c key with
    | .error e => return e
    | .ok old =>
    if value = [] then return integer (oldBytes old).length
    else
      let buf := overwrite (oldBytes old) offset.toNat value
      let _ ← set S.server key (rawString buf)
      return integer buf.length

/-! ## Bitmaps -/

/-- A byte with one of its bits set or cleared, the highest counted as zero. -/
def byteWithBit (b : UInt8) (i : Nat) (bit : Bool) : UInt8 :=
  let mask : UInt8 := 1 <<< UInt8.ofNat (7 - i)
  if bit then b ||| mask else b &&& ~~~ mask

variable (buf : Bytes)

/-- `bitmap.SetBit`, on a buffer that is grown with zeros. -/
def bitmapSetBit (offset : Nat) (bit : Bool) : Bytes :=
  let buf := buf ++ List.replicate (offset / 8 + 1 - buf.length) 0
  buf.set (offset / 8) (byteWithBit (buf.getD (offset / 8) 0) (offset % 8) bit)

def bitmapGetBit (offset : Nat) : Int :=
  if (buf.getD (offset / 8) 0) &&& (1 <<< UInt8.ofNat (7 - offset % 8)) = 0 then 0 else 1

def setbitArgs : Except Bytes (Nat × Bool) :=
  match (parseInt (argv.getD 2 [])).filter fun n => 0 ≤ n ∧ n ≤ 2 ^ 32 - 1 with
  | none => .error (error (ascii "bit offset is not an integer or out of range"))
  | some offset =>
    match (parseInt (argv.getD 3 [])).filter fun n => n = 0 ∨ n = 1 with
    | none => .error (error (ascii "bit is not an integer or out of range"))
    | some n => .ok (offset.toNat, n = 1)

/-- A byte slice that has the bit is changed where it is; otherwise the deadline is kept all the same. -/
def setbitCommand : MemM S.E Bytes :=
  let key := argv.getD 1 []
  match setbitArgs argv with
  | .error e => pure e
  | .ok (offset, bit) => do
    match ← getString S c key with
    | .error e => return e
    | .ok none =>
      let _ ← set S.server key (rawString (bitmapSetBit [] offset bit))
      return integer 0
    | .ok (some (b, enc)) =>
      let new := rawString (bitmapSetBit b offset bit)
      if enc = .raw ∧ offset / 8 < b.length then Traced.perform (.edit key new)
      else setKeepTTL key new
      return integer (bitmapGetBit b offset)

inductive BitOp
  | and
  | or
  | xor
  | not
deriving DecidableEq, Repr

def bitOp? (word : Bytes) : Option BitOp :=
  if word = ascii "AND" then some .and
  else if word = ascii "OR" then some .or
  else if word = ascii "XOR" then some .xor
  else if word = ascii "NOT" then some .not
  else none

def BitOp.apply : BitOp → UInt8 → UInt8 → UInt8
  | and, a, b => a &&& b
  | or, a, b => a ||| b
  | xor, a, b => a ^^^ b
  | not, a, _ => ~~~ a

/-- `bitmap.BitOp`: shorter sources count as padded with zeros. -/
def BitOp.eval (op : BitOp) : List Bytes → Bytes
  | [] => []
  | src :: srcs =>
    if op = not then src.map fun b => ~~~ b
    else
      (List.range (maxLen (src :: srcs))).map fun i => srcs.foldl (fun acc s => op.apply acc (s.getD i 0)) (src.getD i 0)

def getStrings : List Bytes → MemM S.E (Except Bytes (List Bytes))
  | [] => return .ok []
  | key :: keys => do
    match ← getString S c key with
    | .error e => return .error e
    | .ok old =>
      match ← getStrings keys with
      | .error e => return .error e
      | .ok rest => return .ok (oldBytes old :: rest)

def bitopCommand : MemM S.E Bytes :=
  let word := toUpper (argv.getD 1 [])
  let dst := argv.getD 2 []
  match bitOp? word with
  | none => pure (error (ascii "unknown bitop operation '" ++ word ++ ascii "'"))
  | some op =>
  if op = .not ∧ argv.length ≠ 4 then pure (error (ascii "BITOP NOT takes exactly one source key"))
  else do
    match ← getStrings S c (argv.drop 3) with
    | .error e => return e
    | .ok srcs =>
    let out := op.eval srcs
    if out = [] then
      let _ ← del c.now dst
    else
      let _ ← set S.server dst (rawString out)
    return integer out.length

/-! ## HyperLogLogs -/

def hllDenseSize : Nat := 16 + 16384 * 6 / 8

/-- `NewHLL`: the magic word, and the mark that no cardinality is cached. -/
def newHLL : Bytes := ascii "HYLL" ++ List.replicate 11 0 ++ [0x80] ++ List.replicate (hllDenseSize + 2 - 16) 0

/-- `FromBytes`: a buffer that is too short is copied over a new one. -/
def hllFromBytes : Bytes := if buf.length < hllDenseSize + 2 then buf ++ newHLL.drop buf.length else buf

def murmurHash64A (key : Bytes) (seed : UInt64) : UInt64 :=
  let m : UInt64 := 0xc6a4a7935bd1e995
  let mix (h : UInt64) (block : Nat) : UInt64 :=
    let k := UInt64.ofNat block * m
    (h ^^^ ((k ^^^ (k >>> 47)) * m)) * m
  let h := (words (key.length / 8) key).foldl mix (seed ^^^ (UInt64.ofNat key.length * m))
  let tail := key.drop (key.length / 8 * 8)
  let h := if tail = [] then h else (h ^^^ UInt64.ofNat (leVal tail)) * m
  let h := (h ^^^ (h >>> 47)) * m
  h ^^^ (h >>> 47)

/-- The two bytes a register of six bits is in, as a number, with their offset and the bits before it. -/
def hllWord (data : Bytes) (i : Nat) : Nat × Nat × Nat :=
  let offset := 16 + i * 6 / 8
  (leVal ((data.drop offset).take 2), offset, i * 6 % 8)

def hllRegister (data : Bytes) (i : Nat) : Nat :=
  let (w, _, before) := hllWord data i
  w / 2 ^ before % 64

/-- `SetRegister`: the cached cardinality is not valid any more. -/
def hllSetRegister (data : Bytes) (i val : Nat) : Bytes :=
  let (w, offset, before) := hllWord data i
  let w := w - hllRegister data i * 2 ^ before + val * 2 ^ before
  (data.take offset ++ leBytes 2 w ++ data.drop (offset + 2)).modify 15 (· ||| 0x80)

/-- `Add`: the position of the lowest bit behind the fourteen that choose the register. -/
def hllAdd (data elem : Bytes) : Bytes × Bool :=
  let hash := (murmurHash64A elem 0xadc83b19).toNat
  let count := ((List.range 50).find? fun i => hash.testBit (14 + i)).getD 50 + 1
  if hllRegister data (hash % 16384) < count then (hllSetRegister data (hash % 16384) count, true) else (data, false)

def hllMerge (data other : Bytes) : Bytes :=
  let merged := (List.range 16384).foldl (fun data i =>
    if hllRegister data i < hllRegister other i then hllSetRegister data i (hllRegister other i) else data) data
  merged.modify 15 (· ||| 0x80)

/-- The registers after some elements, and whether any has changed. -/
def hllAddAll (data : Bytes) (elems : List Bytes) : Bytes × Bool :=
  elems.foldl (fun s e => ((hllAdd s.1 e).1, s.2 || (hllAdd s.1 e).2)) (data, false)

/-- A stored byte slice that is long enough is changed where it is, and stored anew all the same. -/
def pfaddCommand : MemM S.E Bytes := do
  let key := argv.getD 1 []
  match ← getString S c key with
  | .error e => return e
  | .ok old =>
  let start := old.elim newHLL fun b => hllFromBytes b.1
  let shared := old.any fun b => b.2 = .raw && hllDenseSize + 2 ≤ b.1.length
  let (data, updated) := hllAddAll start (argv.drop 2)
  if shared && updated then Traced.perform (.edit key (rawString data))
  if old.isNone || updated then
    let _ ← set S.server key (rawString (data.take hllDenseSize))
  return integer (if updated then 1 else 0)

def getPresent : List Bytes → MemM S.E (Except Bytes (List Bytes))
  | [] => return .ok []
  | key :: keys => do
    match ← getString S c key with
    | .error e => return .error e
    | .ok old =>
      match ← getPresent keys with
      | .error e => return .error e
      | .ok rest => return .ok ((old.map Prod.fst).toList ++ rest)

def pfmergeCommand : MemM S.E Bytes := do
  match ← getPresent S c (argv.drop 1) with
  | .error e => return e
  | .ok srcs =>
    let merged := srcs.foldl (fun data b => hllMerge data (hllFromBytes b)) newHLL
    let _ ← set S.server (argv.getD 1 []) (rawString (merged.take hllDenseSize))
    return ok

/-! ## DELEX -/

def delexCondition : Except Bytes (Option (CompareMode × Bytes)) :=
  let arity := error (ascii "wrong number of arguments for 'delex' command")
  if 3 ≤ argv.length then
    match compareMode? (toUpper (argv.getD 2 [])) with
    | none => .error (error (ascii "Invalid condition for 'delex' command"))
    | some mode => if argv.length ≠ 4 then .error arity else .ok (some (mode, argv.getD 3 []))
  else if argv.length ≠ 2 then .error arity
  else .ok none

/-- Whether the condition holds of a value, or the error. -/
def delexHolds (val : Value) : Option (CompareMode × Bytes) → Except Bytes Bool
  | none => .ok true
  | some (mode, operand) =>
    if (stringOf val).isNone then .error (error (ascii "DELEX conditions can only be used with string values"))
    else compareHolds S.E mode operand (some val)

/-- The deletion is propagated, and never the condition. -/
def delexCommand : MemM S.E Answer :=
  let key := argv.getD 1 []
  match delexCondition argv with
  | .error e => pure ⟨e, none⟩
  | .ok condition => do
    match ← get c.now key with
    | none => return ⟨integer 0, some none⟩
    | some o =>
    match delexHolds S o.val condition with
    | .error e => return ⟨e, none⟩
    | .ok false => return ⟨integer 0, some none⟩
    | .ok true =>
      if ← del c.now key then return ⟨integer 1, some (some [ascii "DEL", key])⟩
      else return ⟨integer 0, some none⟩

end Gopherdis.Encoded

/-
The commands on sorted sets. A sorted set is a listpack of members and scores, in score order, until a
member is long or there are too many, and a skiplist from then on. `GEOADD` makes its sorted set before
it has read the first position.
-/
import Gopherdis.Encoded.Hashes
import Gopherdis.Encoded.Lists

namespace Gopherdis.Encoded

open Lib Codec Object Store Command

variable (S : Settings) (c : Call)

/-! ## Changes of a sorted set -/

variable (es : List (Bytes × Score)) (member : Bytes)

def zsetShouldPromote : Bool :=
  S.E.zsetMaxListpackValue < member.length ||
    ((zScore es member).isNone && S.E.zsetMaxListpackEntries ≤ es.length)

def zRemoveItem : List (Bytes × Score) := es.eraseP fun e => e.1 = member

/-- `Add` once it is known which encoding the set has: a listpack compares scores as they are written. -/
def zPlaceEdits (enc : Encoding) (es : List (Bytes × Score)) (e : Bytes × Score) : List (Edit (Bytes × Score)) :=
  let same (old : Score) : Bool :=
    if enc = .listpack then S.E.formatFloat old = S.E.formatFloat e.2 else S.E.scoreEq old e.2
  match zScore es e.1 with
  | none => [.inPlace (zInsert S.E e es)]
  | some old => if same old then [] else [.inPlace (zInsert S.E e (zRemoveItem es e.1))]

variable (h : Held (Bytes × Score))

def zAddEdits (e : Bytes × Score) : List (Edit (Bytes × Score)) :=
  if h.enc = .listpack ∧ zsetShouldPromote S h.items e.1 then
    .publish ⟨h.items, .skiplist⟩ :: zPlaceEdits S .skiplist h.items e
  else zPlaceEdits S h.enc h.items e

def zRemoveEdits (member : Bytes) : List (Edit (Bytes × Score)) :=
  if (zScore h.items member).isSome then [.inPlace (zRemoveItem h.items member)] else []

/-! ## ZADD, ZINCRBY -/

/-- `ZADD` of one member, unless the conditions keep it at its score. -/
def zaddEdits (o : ZaddOpts) (h : Held (Bytes × Score)) (e : Bytes × Score) : List (Edit (Bytes × Score)) :=
  if o.skips S.E (zScore h.items e.1) e.2 then [] else zAddEdits S h e

/-- How many of the members are added or get another score. -/
def zaddChanged (o : ZaddOpts) : Held (Bytes × Score) → List (Bytes × Score) → Nat
  | _, [] => 0
  | h, e :: es =>
    (if (zaddEdits S o h e).any Edit.isInPlace then 1 else 0) + zaddChanged o (h.edited (zaddEdits S o h e)) es

variable (argv : Argv)

def zaddArgs : Except Bytes (ZaddOpts × List (Bytes × Score)) :=
  let (o, pairs) := zaddOptions (argv.drop 2) {}
  if o.nx ∧ o.xx then .error (error (ascii "XX and NX options at the same time are not compatible"))
  else if (o.nx ∧ (o.gt ∨ o.lt)) ∨ (o.gt ∧ o.lt) then
    .error (error (ascii "GT, LT, and/or NX options at the same time are not compatible"))
  else if pairs = [] ∨ pairs.length % 2 ≠ 0 then .error syntaxError
  else if o.incr ∧ pairs.length ≠ 2 then
    .error (error (ascii "INCR option supports a single increment-element pair"))
  else
    match zaddScores S.E (pairUp pairs) with
    | none => .error notAFloat
    | some scores => .ok (o, scores)

/-- A sorted set made here is dropped again if it has no member. -/
def dropIfCreated (w : View (Bytes × Score)) (created : Bool) : MemM S.E Unit := do
  if created then w.drop S c

/-- `ZADD ... INCR`, of its only pair. -/
def zaddIncr (o : ZaddOpts) (w : View (Bytes × Score)) (created : Bool) (member : Bytes) (delta : Score) :
    MemM S.E Bytes := do
  let cur := zScore w.held.items member
  let score := cur.elim delta fun c => S.E.scoreAdd delta c
  if (o.nx ∧ cur.isSome) ∨ (o.xx ∧ cur.isNone) then
    dropIfCreated S c w created
    return nullBulkString
  else if cur.isSome ∧ S.E.isNaN score then return error (ascii "resulting score is not a number (NaN)")
  else if o.skips S.E cur score then
    dropIfCreated S c w created
    return nullBulkString
  else
    let _ ← w.performAll zsetKind S (zAddEdits S w.held (member, score))
    return bulkString (S.E.formatFloat score)

def zaddCommand : MemM S.E Bytes :=
  match zaddArgs S argv with
  | .error e => pure e
  | .ok (o, scores) => do
    match ← getOrCreate zsetKind S c (argv.getD 1 []) with
    | .error e => return e
    | .ok (w, created) =>
    match o.incr, scores with
    | true, (member, delta) :: _ => zaddIncr S c o w created member delta
    | _, _ =>
      let w' ← w.performAll zsetKind S (editAll (zaddEdits S o) w.held scores)
      dropIfCreated S c w' created
      return integer (if o.ch then zaddChanged S o w.held scores else w'.held.items.length - w.held.items.length)

def zincrbyCommand : MemM S.E Bytes :=
  let (delta, fine) := S.E.parseFloat (argv.getD 2 [])
  let member := argv.getD 3 []
  if ¬ fine ∨ S.E.isNaN delta then pure notAFloat
  else do
    match ← getOrCreate zsetKind S c (argv.getD 1 []) with
    | .error e => return e
    | .ok (w, _) =>
    let score := S.E.scoreAdd ((zScore w.held.items member).getD S.out.zero) delta
    if S.E.isNaN score then return error (ascii "resulting score is not a number (NaN)")
    else
      let _ ← w.performAll zsetKind S (zAddEdits S w.held (member, score))
      return double S c score

/-! ## Removals -/

/-- The members are removed, and the key with the last one; an absent key is looked for all the same. -/
def zremoveAll (key : Bytes) (w : Option (View (Bytes × Score))) (members : List Bytes) : MemM S.E Unit := do
  match w with
  | none =>
    let _ ← MemM.del c.now key
  | some w =>
    let w ← w.performAll zsetKind S (editAll zRemoveEdits w.held members)
    w.drop S c

variable (w : Option (View (Bytes × Score)))

def elementsOf : List (Bytes × Score) := w.elim [] fun w => w.held.items

def zremCommand : MemM S.E Bytes := do
  let key := argv.getD 1 []
  match ← getView zsetKind S c key with
  | .error e => return e
  | .ok w =>
    zremoveAll S c key w (argv.drop 2)
    let left := (elementsOf w).length - ((argv.drop 2).foldl zRemoveItem (elementsOf w)).length
    return integer left

def zsetReply (items : List (Bytes × Score)) : Bytes :=
  if c.resp3 then array (items.map fun e => array [bulkString e.1, double S c e.2])
  else array (items.flatMap fun e => [bulkString e.1, double S c e.2])

/-- The number of elements `ZPOPMIN` and `ZPOPMAX` take, one if it is not given. -/
def zpopCount : Option Int :=
  if argv.length < 3 then some 1 else (parseInt (argv.getD 2 [])).filter fun n => 0 ≤ n

/-- `zpopGeneric`; for a count of zero the range is that of all elements. -/
def zpopGeneric (reverse : Bool) (argv : Argv) : MemM S.E Bytes :=
  let key := argv.getD 1 []
  match zpopCount argv with
  | none => pure (error (ascii "value is out of range, must be positive"))
  | some count => do
    match ← getView zsetKind S c key with
    | .error e => return e
    | .ok none => return array []
    | .ok (some w) =>
      let items := cut (if reverse then w.held.items.reverse else w.held.items) 0 (count - 1)
      zremoveAll S c key (some w) (items.map Prod.fst)
      return zsetReply S c items

def zpopminCommand : Argv → MemM S.E Bytes := zpopGeneric S c false

def zpopmaxCommand : Argv → MemM S.E Bytes := zpopGeneric S c true

/-- The removal of the elements that are selected, which the reply counts. -/
def zremrange (select : List (Bytes × Score) → List (Bytes × Score)) (key : Bytes) : MemM S.E Bytes := do
  match ← getView zsetKind S c key with
  | .error e => return e
  | .ok w =>
    let items := select (elementsOf w)
    zremoveAll S c key w (items.map Prod.fst)
    return integer items.length

def zremrangebyrankCommand : MemM S.E Bytes :=
  match parseInt (argv.getD 2 []), parseInt (argv.getD 3 []) with
  | some start, some stop => zremrange S c (fun es => cut es start stop) (argv.getD 1 [])
  | _, _ => pure notAnInteger

structure ScoreBound where
  val : Score
  exclusive : Bool

def scoreBound (arg : Bytes) : Option ScoreBound :=
  let exclusive := arg.head? = some 40
  let arg := if exclusive then arg.drop 1 else arg
  let word := toLowerASCII arg
  if word = ascii "+inf" ∨ word = ascii "inf" then some ⟨S.out.inf, exclusive⟩
  else if word = ascii "-inf" then some ⟨S.out.negInf, exclusive⟩
  else
    let (x, fine) := S.E.parseFloat arg
    if ¬ fine ∨ S.E.isNaN x then none else some ⟨x, exclusive⟩

def scoreLe (a b : Score) : Bool := S.E.scoreLt a b || S.E.scoreEq a b

def inScoreRange (lo hi : ScoreBound) (x : Score) : Bool :=
  !(lo.exclusive && scoreLe S x lo.val) && !(!lo.exclusive && S.E.scoreLt x lo.val) &&
    !(hi.exclusive && scoreLe S hi.val x) && !(!hi.exclusive && S.E.scoreLt hi.val x)

def notFloatBounds : Bytes := error (ascii "min or max is not a float")

def zremrangebyscoreCommand : MemM S.E Bytes :=
  match scoreBound S (argv.getD 2 []), scoreBound S (argv.getD 3 []) with
  | some lo, some hi => zremrange S c (fun es => es.filter fun e => inScoreRange S lo hi e.2) (argv.getD 1 [])
  | _, _ => pure notFloatBounds

/-- One end of a range of members. -/
inductive LexBound
  | min
  | max
  | inclusive (value : Bytes)
  | exclusive (value : Bytes)
deriving DecidableEq, Repr

/-- `parseLexBound`: `-`, `+`, or a value after `[` or `(`. -/
def parseLexBound (arg : Bytes) : Option LexBound :=
  if arg = ascii "-" then some .min
  else if arg = ascii "+" then some .max
  else if arg.head? = some 91 then some (.inclusive (arg.drop 1))
  else if arg.head? = some 40 then some (.exclusive (arg.drop 1))
  else none

def LexBound.aboveMin : LexBound → Bool
  | min => true
  | max => false
  | inclusive v => v ≤ member
  | exclusive v => v < member

def LexBound.belowMax : LexBound → Bool
  | min => false
  | max => true
  | inclusive v => member ≤ v
  | exclusive v => member < v

def lexRange (lo hi : LexBound) (es : List (Bytes × Score)) : List (Bytes × Score) :=
  es.filter fun e => lo.aboveMin e.1 && hi.belowMax e.1

def notLexBounds : Bytes := error (ascii "min or max not valid string range item")

def zremrangebylexCommand : MemM S.E Bytes :=
  match parseLexBound (argv.getD 2 []), parseLexBound (argv.getD 3 []) with
  | some lo, some hi => zremrange S c (lexRange lo hi) (argv.getD 1 [])
  | _, _ => pure notLexBounds

/-! ## Stored results -/

/-- The end of the commands that store a sorted set. -/
def zstoreItems (dst : Bytes) (items : List (Bytes × Score)) : MemM S.E Bytes := do
  let _ ← MemM.del c.now dst
  if items.isEmpty then return integer 0
  else
    match ← getOrCreate zsetKind S c dst with
    | .error e => return e
    | .ok (w, _) =>
      let _ ← w.performAll zsetKind S (editAll (zAddEdits S) w.held items)
      return integer items.length

inductive Aggregate
  | sum
  | min
  | max
  | count
deriving DecidableEq, Repr

def aggregate? (word : Bytes) : Option Aggregate :=
  if word = ascii "SUM" then some .sum
  else if word = ascii "MIN" then some .min
  else if word = ascii "MAX" then some .max
  else if word = ascii "COUNT" then some .count
  else none

structure ZsetOpArgs where
  keys : List Bytes
  weights : List Score
  mode : Aggregate := .sum

def zsetWeights (words : List Bytes) : Option (List Score) :=
  words.mapM fun word => if (S.E.parseFloat word).2 then some (S.E.parseFloat word).1 else none

/-- The options after the keys; `LIMIT` is not taken here. -/
def zsetOpOptions : Nat → List Bytes → ZsetOpArgs → Except Bytes ZsetOpArgs
  | 0, _, a => .ok a
  | _, [], a => .ok a
  | fuel + 1, word :: rest, a =>
    let opt := toUpper word
    if opt = ascii "WEIGHTS" then
      if rest.length < a.keys.length then .error syntaxError
      else
        match zsetWeights S (rest.take a.keys.length) with
        | none => .error (error (ascii "weight value is not a float"))
        | some weights => zsetOpOptions fuel (rest.drop a.keys.length) { a with weights }
    else if opt = ascii "AGGREGATE" then
      match rest with
      | [] => .error syntaxError
      | word :: rest =>
        match aggregate? (toUpper word) with
        | none => .error syntaxError
        | some mode => zsetOpOptions fuel rest { a with mode }
    else if opt = ascii "WITHSCORES" then zsetOpOptions fuel rest a
    else .error syntaxError

variable (args : List Bytes)

/-- `parseZsetOp`, without a limit. -/
def parseZsetOp : Except Bytes ZsetOpArgs :=
  match parseInt (args.headD []) with
  | none => .error notAnInteger
  | some numKeys =>
  if numKeys ≤ 0 then .error (error (ascii "at least 1 input key is needed for the operation"))
  else if (args.length : Int) < 1 + numKeys then .error syntaxError
  else
    let keys := (args.drop 1).take numKeys.toNat
    zsetOpOptions S args.length (args.drop (1 + numKeys.toNat)) { keys, weights := keys.map fun _ => S.out.one }

/-- `zsetOperand`: a plain set counts as one whose members all score one. -/
def zsetOperand (key : Bytes) : MemM S.E (Except Bytes (List (Bytes × Score))) := do
  match ← MemM.get c.now key with
  | none => return .ok []
  | some ⟨.zset es, _⟩ => return .ok es
  | some ⟨.set ms, _⟩ => return .ok ((c.walk ms).map fun m => (m, S.out.one))
  | some _ => return .error wrongType

def zsetOperands : List Bytes → MemM S.E (Except Bytes (List (List (Bytes × Score))))
  | [] => return .ok []
  | key :: keys => do
    match ← zsetOperand S c key with
    | .error e => return .error e
    | .ok es =>
      match ← zsetOperands keys with
      | .error e => return .error e
      | .ok rest => return .ok (es :: rest)

/-- A product or a sum that is not a number counts as zero. -/
def orZero (x : Score) : Score := if S.E.isNaN x then S.out.zero else x

def Aggregate.apply : Aggregate → Score → Score → Score
  | .min, a, b => S.out.min a b
  | .max, a, b => S.out.max a b
  | _, a, b => orZero S (S.E.scoreAdd a b)

/-- In score order, members breaking ties. -/
def zSorted : List (Bytes × Score) := es.foldl (fun acc e => zInsert S.E e acc) []

/-- One element of an operand joins the union. -/
def unionOne (mode : Aggregate) (acc : List (Bytes × Score)) (e : Bytes × Score) : List (Bytes × Score) :=
  match zScore acc e.1 with
  | none => acc ++ [e]
  | some cur => acc.map fun x => if x.1 = e.1 then (x.1, mode.apply S cur e.2) else x

def weighted (weight : Score) (es : List (Bytes × Score)) : List (Bytes × Score) :=
  es.map fun e => (e.1, orZero S (S.out.mul e.2 weight))

/-- How many operands have the member. -/
def occurrences (operands : List (List (Bytes × Score))) (member : Bytes) : Nat :=
  (operands.filter fun es => (zScore es member).isSome).length

/-- `zsetCombine` before its result is sorted. -/
def zsetCombine (op : SetOp) (a : ZsetOpArgs) (operands : List (List (Bytes × Score))) : List (Bytes × Score) :=
  let members := (operands.flatten.map Prod.fst).foldl setAdd []
  let count (m : Bytes) : Score := S.out.ofNat (occurrences operands m)
  let first := operands.headD []
  match op, a.mode with
  | .union, .count => members.map fun m => (m, count m)
  | .inter, .count =>
    (first.filter fun e => occurrences operands e.1 = operands.length).map fun e => (e.1, count e.1)
  | .diff, .count => first.filter fun e => occurrences operands e.1 ≠ operands.length ∧ occurrences operands e.1 = 1
  | .union, mode =>
    (operands.zip a.weights).foldl (fun acc p => (weighted S p.2 p.1).foldl (unionOne S mode) acc) []
  | .inter, mode =>
    let others := (operands.zip a.weights).drop 1
    (weighted S (a.weights.headD S.out.one) first).filterMap fun e =>
      (others.mapM fun p => (zScore p.1 e.1).map fun x => orZero S (S.out.mul x p.2)).map fun xs =>
        (e.1, xs.foldl (mode.apply S) e.2)
  | .diff, _ => first.filter fun e => (operands.drop 1).all fun es => (zScore es e.1).isNone

def zsetStoreGeneric (op : SetOp) (argv : Argv) : MemM S.E Bytes :=
  match parseZsetOp S (argv.drop 2) with
  | .error e => pure e
  | .ok a => do
    match ← zsetOperands S c a.keys with
    | .error e => return e
    | .ok operands => zstoreItems S c (argv.getD 1 []) (zSorted S (zsetCombine S op a operands))

def zunionstoreCommand : Argv → MemM S.E Bytes := zsetStoreGeneric S c .union

def zinterstoreCommand : Argv → MemM S.E Bytes := zsetStoreGeneric S c .inter

def zdiffstoreCommand : Argv → MemM S.E Bytes := zsetStoreGeneric S c .diff

structure ZrangeOpts where
  byScore : Bool := false
  byLex : Bool := false
  reverse : Bool := false
  limit : Option (Int × Int) := none

def zrangeOptions : List Bytes → ZrangeOpts → Except Bytes ZrangeOpts
  | [], o => .ok o
  | word :: rest, o =>
    let opt := toUpper word
    if opt = ascii "BYSCORE" then zrangeOptions rest { o with byScore := true }
    else if opt = ascii "BYLEX" then zrangeOptions rest { o with byLex := true }
    else if opt = ascii "REV" then zrangeOptions rest { o with reverse := true }
    else if opt = ascii "WITHSCORES" then zrangeOptions rest o
    else if opt = ascii "LIMIT" then
      match rest with
      | offset :: count :: rest =>
        match parseInt offset, parseInt count with
        | some offset, some count => zrangeOptions rest { o with limit := some (offset, count) }
        | _, _ => .error notAnInteger
      | _ => .error syntaxError
    else .error syntaxError

def limited {β : Type} (limit : Option (Int × Int)) (items : List β) : List β :=
  match limit with
  | none => items
  | some (offset, count) =>
    let items := if offset < 0 then [] else items.drop offset.toNat
    if 0 ≤ count ∧ count < items.length then items.take count.toNat else items

/-- The elements `zrangeSelect` picks, from the first bound to the second. -/
def zrangePick (o : ZrangeOpts) (start stop : Bytes) (es : List (Bytes × Score)) :
    Except Bytes (List (Bytes × Score)) :=
  let lo := if o.reverse then stop else start
  let hi := if o.reverse then start else stop
  let ordered (es : List (Bytes × Score)) := if o.reverse then es.reverse else es
  if o.byLex then
    match parseLexBound lo, parseLexBound hi with
    | some lo, some hi => .ok (ordered (lexRange lo hi es))
    | _, _ => .error notLexBounds
  else if o.byScore then
    match scoreBound S lo, scoreBound S hi with
    | some lo, some hi => .ok (ordered (es.filter fun e => inScoreRange S lo hi e.2))
    | _, _ => .error notFloatBounds
  else
    match parseInt start, parseInt stop with
    | some start, some stop => .ok (cut (ordered es) start stop)
    | _, _ => .error notAnInteger

/-- `zrangeSelect`: a key, two bounds, and options. -/
def zrangeSelect : MemM S.E (Except Bytes (List (Bytes × Score))) :=
  if args.length < 3 then pure (.error syntaxError)
  else
    match zrangeOptions (args.drop 3) {} with
    | .error e => pure (.error e)
    | .ok o =>
    if o.byScore ∧ o.byLex then pure (.error syntaxError)
    else if o.limit.isSome ∧ ¬ o.byScore ∧ ¬ o.byLex then
      pure (.error (error (ascii
        "syntax error, LIMIT is only supported in combination with either BYSCORE or BYLEX")))
    else do
      match ← getView zsetKind S c (args.getD 0 []) with
      | .error e => return .error e
      | .ok w => return (zrangePick S o (args.getD 1 []) (args.getD 2 []) (elementsOf w)).map (limited o.limit)

def zrangestoreCommand : MemM S.E Bytes := do
  match ← zrangeSelect S c (argv.drop 2) with
  | .error e => return e
  | .ok items => zstoreItems S c (argv.getD 1 []) items

/-! ## GEOADD -/

structure GeoaddOpts where
  nx : Bool := false
  xx : Bool := false
  ch : Bool := false
deriving DecidableEq, Repr

/-- The flags, up to the first word that is none. -/
def geoaddOptions : List Bytes → GeoaddOpts → GeoaddOpts × List Bytes
  | [], o => (o, [])
  | word :: rest, o =>
    let opt := toUpper word
    if opt = ascii "NX" then geoaddOptions rest { o with nx := true }
    else if opt = ascii "XX" then geoaddOptions rest { o with xx := true }
    else if opt = ascii "CH" then geoaddOptions rest { o with ch := true }
    else (o, word :: rest)

/-- The half of an interval that a coordinate is in, and its bit. -/
def geoHalf (x : Score) (range : Score × Score) : Nat × Score × Score :=
  let mid := S.out.half (S.E.scoreAdd range.1 range.2)
  if S.E.scoreLt mid x || S.E.scoreEq mid x then (1, mid, range.2) else (0, range.1, mid)

/-- The loop of `geo.Encode`: a bit of the longitude and one of the latitude in turns. -/
def geoBits (lon lat : Score) : Nat → Score × Score → Score × Score → Nat → Nat
  | 0, _, _, hash => hash
  | n + 1, lons, lats, hash =>
    let (lonBit, lons) := geoHalf S lon lons
    let (latBit, lats) := geoHalf S lat lats
    geoBits lon lat n lons lats (4 * hash + 2 * lonBit + latBit)

/-- `geo.Encode`, as a score. -/
def geoEncode (lon lat : Score) : Except Bytes Score :=
  if S.E.scoreLt lon S.out.lonMin || S.E.scoreLt S.out.lonMax lon || S.E.scoreLt lat S.out.latMin ||
      S.E.scoreLt S.out.latMax lat then .error (ascii "ERR coordinates are out of range")
  else .ok (S.out.ofNat (geoBits S lon lat 26 (S.out.lonMin, S.out.lonMax) (S.out.latMin, S.out.latMax) 0))

def geoScore (lon lat : Bytes) : Except Bytes Score :=
  if (S.E.parseFloat lon).2 ∧ (S.E.parseFloat lat).2 then
    match geoEncode S (S.E.parseFloat lon).1 (S.E.parseFloat lat).1 with
    | .error msg => .error (error msg)
    | .ok score => .ok score
  else .error (error (ascii "ERR value is not a valid float"))

/-- The loop of `GEOADD`: a position that is not valid ends it, and those before it stay. -/
def geoaddLoop (o : GeoaddOpts) : View (Bytes × Score) → Int → Int → List Bytes → MemM S.E Bytes
  | w, added, changed, lon :: lat :: member :: rest =>
    match geoScore S lon lat with
    | .error e => pure e
    | .ok score => do
      let old := zScore w.held.items member
      if (old.isSome ∧ o.nx) ∨ (old.isNone ∧ o.xx) then geoaddLoop o w added changed rest
      else
        let edits := zAddEdits S w.held (member, score)
        let w ← w.performAll zsetKind S edits
        let updated := edits.any Edit.isInPlace && old.any fun x => !S.E.scoreEq x score
        geoaddLoop o w (if old.isNone then added + 1 else added)
          (if old.isNone ∨ updated then changed + 1 else changed) rest
  | _, added, changed, _ => return integer (if o.ch then changed else added)

def geoaddCommand : MemM S.E Bytes := do
  let (o, rem) := geoaddOptions (argv.drop 2) {}
  if rem = [] ∨ rem.length % 3 ≠ 0 then return error (ascii "syntax error in GEOADD")
  else
    match ← getOrCreate zsetKind S c (argv.getD 1 []) with
    | .error e => return e
    | .ok (w, _) => geoaddLoop S o w 0 0 rem

end Gopherdis.Encoded

/-
The handlers that add to lists, hashes, sets, sorted sets and streams. A value that is there is
changed in place, so its deadline stays.
-/
import Gopherdis.Command.Expire

namespace Gopherdis.Command

open Lib Codec Object Store Gopherdis.Stream List

/-- The `getOrCreate` functions: the collection at a key, empty if there is none, or the error. -/
def getOrCreate {α : Type} (view : Value → Option α) (empty : α) (now : Clock) (db : Keyspace) (key : Bytes) :
    Keyspace × Except Bytes α :=
  match db.get now key with
  | (db, none) => (db, .ok empty)
  | (db, some v) => (db, (view v).elim (.error wrongType) .ok)

def listOf : Value → Option (List Bytes)
  | .list items => some items
  | _ => none

def hashOf : Value → Option (List (Bytes × Bytes))
  | .hash es => some es
  | _ => none

def setOf : Value → Option (List Bytes)
  | .set ms => some ms
  | _ => none

def zsetOf : Value → Option (List (Bytes × Score))
  | .zset es => some es
  | _ => none

def streamOf : Value → Option Stream
  | .stream s => some s
  | _ => none

/-! ## Lists, hashes, sets -/

variable (ctx : Context) (argv : Argv) (db : Keyspace)

def rpushCommand : Outcome :=
  let key := argv.getD 1 []
  match getOrCreate listOf [] ctx.now db key with
  | (db, .error e) => ⟨db, e, none⟩
  | (db, .ok items) =>
    let items := items ++ argv.drop 2
    ⟨db.setKeepTTL key (.list items), integer items.length, none⟩

def hsetCommand : Outcome :=
  let key := argv.getD 1 []
  if (argv.drop 2).length % 2 ≠ 0 then ⟨db, error (ascii "wrong number of arguments for 'hset' command"), none⟩
  else
    match getOrCreate hashOf [] ctx.now db key with
    | (db, .error e) => ⟨db, e, none⟩
    | (db, .ok es) =>
      let es' := (pairUp (argv.drop 2)).foldl (fun es p => hashSet es p.1 p.2) es
      ⟨db.setKeepTTL key (.hash es'), integer (es'.length - es.length), none⟩

def saddCommand : Outcome :=
  let key := argv.getD 1 []
  match getOrCreate setOf [] ctx.now db key with
  | (db, .error e) => ⟨db, e, none⟩
  | (db, .ok ms) =>
    let ms' := (argv.drop 2).foldl setAdd ms
    ⟨db.setKeepTTL key (.set ms'), integer (ms'.length - ms.length), none⟩

/-! ## Sorted sets -/

structure ZaddOpts where
  nx : Bool := false
  xx : Bool := false
  gt : Bool := false
  lt : Bool := false
  ch : Bool := false
  incr : Bool := false
deriving DecidableEq, Repr

def zaddOptions : List Bytes → ZaddOpts → ZaddOpts × List Bytes
  | [], o => (o, [])
  | word :: rest, o =>
    let opt := toUpper word
    if opt = ascii "NX" then zaddOptions rest { o with nx := true }
    else if opt = ascii "XX" then zaddOptions rest { o with xx := true }
    else if opt = ascii "GT" then zaddOptions rest { o with gt := true }
    else if opt = ascii "LT" then zaddOptions rest { o with lt := true }
    else if opt = ascii "CH" then zaddOptions rest { o with ch := true }
    else if opt = ascii "INCR" then zaddOptions rest { o with incr := true }
    else (o, word :: rest)

variable (E : Env)

def zaddScores : List (Bytes × Bytes) → Option (List (Bytes × Score))
  | [] => some []
  | (score, member) :: rest =>
    let (f, fine) := E.parseFloat score
    if ¬ fine ∨ E.isNaN f then none else (zaddScores rest).map fun es => (member, f) :: es

/-- The sorted set while `ZADD` runs, with its counts. -/
structure ZaddState where
  es : List (Bytes × Score)
  added : Int := 0
  changed : Int := 0

/-- The conditions keep a member at its score. -/
def ZaddOpts.skips (o : ZaddOpts) (cur : Option Score) (score : Score) : Bool :=
  match cur with
  | none => o.xx
  | some cur =>
    o.nx || (o.gt && (E.scoreLt score cur || E.scoreEq score cur)) ||
      (o.lt && (E.scoreLt cur score || E.scoreEq score cur))

def zaddOne (o : ZaddOpts) (s : ZaddState) (e : Bytes × Score) : ZaddState :=
  let cur := zScore s.es e.1
  if o.skips E cur e.2 then s
  else
    { es := zAdd E s.es e.1 e.2
      added := if cur.isNone then s.added + 1 else s.added
      changed := if cur.any fun c => E.scoreEq c e.2 then s.changed else s.changed + 1 }

def zaddCommand : Outcome :=
  let key := argv.getD 1 []
  let (o, pairs) := zaddOptions (argv.drop 2) {}
  if o.nx ∧ o.xx then ⟨db, error (ascii "XX and NX options at the same time are not compatible"), none⟩
  else if (o.nx ∧ (o.gt ∨ o.lt)) ∨ (o.gt ∧ o.lt) then
    ⟨db, error (ascii "GT, LT, and/or NX options at the same time are not compatible"), none⟩
  else if pairs = [] ∨ pairs.length % 2 ≠ 0 then ⟨db, syntaxError, none⟩
  else if o.incr ∧ pairs.length ≠ 2 then
    ⟨db, error (ascii "INCR option supports a single increment-element pair"), none⟩
  else
    match zaddScores ctx.E (pairUp pairs) with
    | none => ⟨db, error (ascii "value is not a valid float"), none⟩
    | some scores =>
    match getOrCreate zsetOf [] ctx.now db key with
    | (db, .error e) => ⟨db, e, none⟩
    | (db, .ok es) =>
    -- without a member a set created here is dropped again, and an old one is as it was
    let store (es : List (Bytes × Score)) : Keyspace := if es = [] then db else db.setKeepTTL key (.zset es)
    if o.incr then
      match scores with
      | [(member, delta)] =>
        let cur := zScore es member
        let score := cur.elim delta fun c => ctx.E.scoreAdd delta c
        if (o.nx ∧ cur.isSome) ∨ (o.xx ∧ cur.isNone) then ⟨store es, nullBulkString, none⟩
        else if cur.isSome ∧ ctx.E.isNaN score then
          ⟨store es, error (ascii "resulting score is not a number (NaN)"), none⟩
        else if o.skips ctx.E cur score then ⟨store es, nullBulkString, none⟩
        else ⟨store (zAdd ctx.E es member score), bulkString (ctx.E.formatFloat score), none⟩
      | _ => ⟨db, syntaxError, none⟩
    else
      let s := scores.foldl (zaddOne ctx.E o) ⟨es, 0, 0⟩
      ⟨store s.es, integer (if o.ch then s.changed else s.added), none⟩

/-! ## Streams -/

structure XaddOpts where
  nomkstream : Bool := false
  maxLen : Int := 0
  approx : Bool := false
  minID : Option StreamID := none
deriving DecidableEq, Repr

def invalidIDFormat : Bytes := error (ascii "ERR Invalid stream ID specified as stream command argument")

def invalidStreamID : Bytes :=
  error (ascii "ERR The ID specified in XADD is equal or smaller than the target stream top item")

def xaddSyntax : Bytes := error (ascii "syntax error in XADD")

def xaddArity : Bytes := error (ascii "wrong number of arguments for 'xadd' command")

/-- The argument of `MINID`, which is read at the clock, or of `MAXLEN`. -/
def xaddLimit (now : Clock) (isMinID : Bool) (o : XaddOpts) (arg : Bytes) : Except Bytes XaddOpts :=
  if isMinID then
    match parseID now.ms arg zeroID with
    | none => .error invalidIDFormat
    | some id => .ok { o with minID := some id }
  else
    match parseInt arg with
    | none => .error notAnInteger
    | some lim => .ok { o with maxLen := lim }

def xaddOptions (now : Clock) : List Bytes → XaddOpts → Except Bytes (XaddOpts × List Bytes)
  | [], o => .ok (o, [])
  | word :: rest, o =>
    let opt := toUpper word
    if opt = ascii "NOMKSTREAM" then xaddOptions now rest { o with nomkstream := true }
    else if opt = ascii "MAXLEN" ∨ opt = ascii "MINID" then
      match rest with
      | [] => .error xaddSyntax
      | arg :: rest =>
      if arg = ascii "=" ∨ arg = ascii "~" then
        match rest with
        | [] => .error xaddSyntax
        | arg' :: rest =>
          match xaddLimit now (opt = ascii "MINID") { o with approx := o.approx || arg = ascii "~" } arg' with
          | .error e => .error e
          | .ok o => xaddOptions now rest o
      else
        match xaddLimit now (opt = ascii "MINID") o arg with
        | .error e => .error e
        | .ok o => xaddOptions now rest o
    else .ok (o, word :: rest)

/-- The stream after `AddRaw` and the trimming by `MINID`. -/
def xaddStream (o : XaddOpts) (id : StreamID) (fieldsRaw : List Bytes) (s : Stream) : Option Stream :=
  (s.addRaw id fieldsRaw o.maxLen o.approx).map fun s => o.minID.elim s (trimBelowMinID s)

/-- The rest of `XADD` on the stream at a key. A refused ID leaves an empty stream behind where there
was none. -/
def xaddTo (now : Clock) (o : XaddOpts) (key idStr : Bytes) (fieldsRaw : List Bytes) (db : Keyspace) (s : Stream) :
    Outcome :=
  match parseID now.ms idStr s.lastID with
  | none => ⟨db, invalidIDFormat, none⟩
  | some id =>
    match xaddStream o id fieldsRaw s with
    | none => ⟨db, invalidStreamID, none⟩
    | some s => ⟨db.setKeepTTL key (.stream s), bulkString id.format, none⟩

def xaddCommand : Outcome :=
  let key := argv.getD 1 []
  match xaddOptions ctx.now (argv.drop 2) {} with
  | .error e => ⟨db, e, none⟩
  | .ok (_, []) => ⟨db, xaddArity, none⟩
  | .ok (o, idStr :: fieldsRaw) =>
  if fieldsRaw = [] ∨ fieldsRaw.length % 2 ≠ 0 then ⟨db, xaddArity, none⟩
  else
    match db.get ctx.now key with
    | (db, some (.stream s)) => xaddTo ctx.now o key idStr fieldsRaw db s
    | (db, some _) => ⟨db, wrongType, none⟩
    | (db, none) =>
      if o.nomkstream then ⟨db, nullBulkString, none⟩
      else xaddTo ctx.now o key idStr fieldsRaw (db.set key (.stream newStream)) newStream

/-! ## The table -/

def writeCmd (name : String) (arity : Int) (f : Context → Argv → Keyspace → Outcome) : Command :=
  ⟨ascii name, arity, true, onKeyspace f⟩

def setCmd : Command := writeCmd "set" (-3) setCommand

def setexCmd : Command := writeCmd "setex" 4 setexCommand

def psetexCmd : Command := writeCmd "psetex" 4 psetexCommand

def getdelCmd : Command := writeCmd "getdel" 2 getdelCommand

def getexCmd : Command := writeCmd "getex" (-2) getexCommand

def expireCmd : Command := writeCmd "expire" (-3) expireCommand

def pexpireCmd : Command := writeCmd "pexpire" (-3) pexpireCommand

def expireatCmd : Command := writeCmd "expireat" (-3) expireatCommand

def pexpireatCmd : Command := writeCmd "pexpireat" (-3) pexpireatCommand

def msetexCmd : Command := writeCmd "msetex" (-4) msetexCommand

def restoreCmd : Command := writeCmd "restore" (-4) restoreCommand

def delCmd : Command := writeCmd "del" (-2) delCommand

def unlinkCmd : Command := writeCmd "unlink" (-2) unlinkCommand

def persistCmd : Command := writeCmd "persist" 2 persistCommand

def incrCmd : Command := writeCmd "incr" 2 incrCommand

def rpushCmd : Command := writeCmd "rpush" (-3) rpushCommand

def hsetCmd : Command := writeCmd "hset" (-4) hsetCommand

def saddCmd : Command := writeCmd "sadd" (-3) saddCommand

def zaddCmd : Command := writeCmd "zadd" (-4) zaddCommand

def xaddCmd : Command := writeCmd "xadd" (-4) xaddCommand

/-- The commands modelled here, but for scripts. -/
def baseTable : Table :=
  [setCmd, setexCmd, psetexCmd, getdelCmd, getexCmd, expireCmd, pexpireCmd, expireatCmd, pexpireatCmd, msetexCmd,
    restoreCmd, delCmd, unlinkCmd, persistCmd, incrCmd, rpushCmd, hsetCmd, saddCmd, zaddCmd, xaddCmd]

lemma replayOne_pexpireat (E : Env) (now : Clock) (db : Keyspace) (key : Bytes) {n : Int} (hn : InInt64 n) :
    replayOne E now baseTable db [ascii "PEXPIREAT", key, formatInt n] =
      if db.has now key then (db.setExpireAt now key n).1 else db := by
  rw [replayOne_eq rfl rfl (cons_ne_nil _ _) rfl]
  simp only [pexpireatCommand, expireGeneric, getD_cons_succ, getD_cons_zero, parseInt_formatInt hn,
    drop_succ_cons, drop_zero, expireOptions, replayContext]
  cases db.has now key <;> rfl

end Gopherdis.Command

/-
The handlers of the string commands that carry deadlines, with those their propagated forms use. All
but `DEL` and `UNLINK` touch one key.
-/
import Gopherdis.Command.Execute

namespace Gopherdis.Command

open Lib Codec Object Store

/-! ## Storing a value with a deadline -/

/-- What the options of `SET` and `MSETEX` say about the deadline: a duration in nanoseconds, an
absolute one, or to keep the old. -/
structure Expiry where
  ttl : Option Int := none
  expAt : Int := 0
  keepTTL : Bool := false
deriving DecidableEq, Repr

def Expiry.store (x : Expiry) (now : Clock) (key val : Bytes) (db : Keyspace) : Keyspace :=
  match x.ttl with
  | some ttl => db.setWithExpire now key (.str val) ttl
  | none =>
    if 0 < x.expAt then ((db.set key (.str val)).setExpireAt now key x.expAt).1
    else if x.keepTTL then db.setKeepTTL key (.str val)
    else db.set key (.str val)

/-- A relative or absolute option, or `none` where its number is refused. -/
def Expiry.option (e : Expiry) (x : ExpireOpt) (n : Int) : Option Expiry :=
  match x with
  | .ex => if n ≤ 0 ∨ ¬ validExpireSeconds n then none else some { e with ttl := some (wrap64 (n * 10 ^ 9)) }
  | .px => if n ≤ 0 ∨ ¬ validExpireMillis n then none else some { e with ttl := some (wrap64 (n * 10 ^ 6)) }
  | .exat => some { e with expAt := wrap64 (n * 1000) }
  | .pxat => some { e with expAt := n }

/-! ## SET -/

inductive CompareMode
  | ifeq
  | ifne
  | ifdeq
  | ifdne
deriving DecidableEq, Repr

def compareMode? (opt : Bytes) : Option CompareMode :=
  if opt = ascii "IFEQ" then some .ifeq
  else if opt = ascii "IFNE" then some .ifne
  else if opt = ascii "IFDEQ" then some .ifdeq
  else if opt = ascii "IFDNE" then some .ifdne
  else none

structure SetOpts where
  expiry : Expiry := {}
  nx : Bool := false
  xx : Bool := false
  getOld : Bool := false
  compare : Option (CompareMode × Bytes) := none
deriving DecidableEq, Repr

def invalidExpire (cmd : String) : Bytes := error (ascii "invalid expire time in '" ++ ascii cmd ++ ascii "' command")

def setOptions : List Bytes → SetOpts → Except Bytes SetOpts
  | [], o => .ok o
  | word :: rest, o =>
    let opt := toUpper word
    match expireOpt? opt with
    | some x =>
      match rest with
      | [] => .error syntaxError
      | num :: rest =>
      match parseInt num with
      | none => .error notAnInteger
      | some n =>
        match o.expiry.option x n with
        | none => .error (invalidExpire "set")
        | some expiry => setOptions rest { o with expiry }
    | none =>
    if opt = ascii "NX" then setOptions rest { o with nx := true }
    else if opt = ascii "XX" then setOptions rest { o with xx := true }
    else if opt = ascii "GET" then setOptions rest { o with getOld := true }
    else if opt = ascii "KEEPTTL" then setOptions rest { o with expiry.keepTTL := true }
    else
      match compareMode? opt with
      | none => .error syntaxError
      | some mode =>
        match rest with
        | [] => .error syntaxError
        | operand :: rest =>
          if o.compare.isSome then .error syntaxError else setOptions rest { o with compare := some (mode, operand) }

def isHexDigest (b : Bytes) : Bool :=
  b.length = 16 && b.all fun c => (48 ≤ c && c ≤ 57) || (97 ≤ c && c ≤ 102) || (65 ≤ c && c ≤ 70)

/-- `%016x`. -/
def hexDigest (h : UInt64) : Bytes :=
  (List.range 16).map fun i =>
    let d := h.toNat / 16 ^ (15 - i) % 16
    UInt8.ofNat (if d < 10 then 48 + d else 87 + d)

/-- Whether the condition on the old value holds, or the error reply. -/
def compareHolds (E : Env) (mode : CompareMode) (compareTo : Bytes) : Option Value → Except Bytes Bool
  | none => .ok (mode = .ifne || mode = .ifdne)
  | some (.str cur) =>
    match mode with
    | .ifeq => .ok (cur = compareTo)
    | .ifne => .ok (cur ≠ compareTo)
    | .ifdeq | .ifdne =>
      if isHexDigest compareTo then
        .ok (decide (hexDigest (E.xxh3 cur) = toLowerASCII compareTo) == decide (mode = .ifdeq))
      else .error (error (ascii "digest must be exactly 16 hexadecimal characters"))
  | some _ => .error wrongType

/-- What `SET` does about the old value: nothing, with a reply and perhaps an override, or write. -/
inductive SetDecision
  | leave (reply : Bytes) (override : Option (Option Argv))
  | write (reply : Bytes)

variable (ctx : Context)

def setDecision (o : SetOpts) (old : Option Value) : SetDecision :=
  let oldReply : Except Bytes Bytes :=
    match old with
    | none => .ok nullBulkString
    | some (.str b) => .ok (bulkString b)
    | some _ => .error wrongType
  match o.getOld, oldReply with
  | true, .error e => .leave e none
  | _, _ =>
  let reply (otherwise : Bytes) : Bytes := if o.getOld then oldReply.toOption.getD [] else otherwise
  if (o.nx ∧ old.isSome) ∨ (o.xx ∧ old.isNone) then .leave (reply (null ctx.resp3)) none
  else
    match o.compare with
    | none => .write (reply ok)
    | some (mode, compareTo) =>
      match compareHolds ctx.E mode compareTo old with
      | .error e => .leave e none
      | .ok false => .leave (reply (null ctx.resp3)) (some none)
      | .ok true => .write (reply ok)

variable (argv : Argv) (db : Keyspace)

def setCommand : Outcome :=
  let key := argv.getD 1 []
  match setOptions (argv.drop 3) {} with
  | .error e => ⟨db, e, none⟩
  | .ok o =>
  if (o.nx ∧ o.xx) ∨ (o.compare.isSome ∧ (o.nx ∨ o.xx)) then ⟨db, syntaxError, none⟩
  else
    let (db, old) := db.get ctx.now key
    match setDecision ctx o old with
    | .leave reply override => ⟨db, reply, override⟩
    | .write reply => ⟨o.expiry.store ctx.now key (argv.getD 2 []) db, reply, none⟩

/-! ## SETEX, PSETEX -/

/-- `setexGeneric`, the unit in nanoseconds. -/
def setexGeneric (unit : Int) (ctx : Context) (argv : Argv) (db : Keyspace) : Outcome :=
  match parseInt (argv.getD 2 []) with
  | none => ⟨db, notAnInteger, none⟩
  | some n =>
    if n ≤ 0 ∨ ¬ validExpireMillis ((wrap64 (n * unit)).tdiv (10 ^ 6)) then ⟨db, invalidExpire "setex", none⟩
    else ⟨db.setWithExpire ctx.now (argv.getD 1 []) (.str (argv.getD 3 [])) (wrap64 (n * unit)), ok, none⟩

def setexCommand := setexGeneric (10 ^ 9)

def psetexCommand := setexGeneric (10 ^ 6)

/-! ## GETDEL, GETEX -/

def getdelCommand : Outcome :=
  let key := argv.getD 1 []
  match db.get ctx.now key with
  | (db, none) => ⟨db, nullBulkString, none⟩
  | (db, some (.str b)) => ⟨(db.del ctx.now key).1, bulkString b, none⟩
  | (db, some _) => ⟨db, wrongType, none⟩

/-- The deadline an option of `GETEX` sets, or `none` where its number is refused; a relative one goes
through `SetExpire`. -/
def getexDeadline (now : Clock) (x : ExpireOpt) (n : Int) : Option Int :=
  match x with
  | .ex =>
    if n ≤ 0 ∨ ¬ validExpireSeconds n then none else some (wrap64 (now.ms + (wrap64 (n * 10 ^ 9)).tdiv (10 ^ 6)))
  | .px =>
    if n ≤ 0 ∨ ¬ validExpireMillis n then none else some (wrap64 (now.ms + (wrap64 (n * 10 ^ 6)).tdiv (10 ^ 6)))
  | .exat => if ¬ validExpireMillis (wrap64 (n * 1000)) then none else some (wrap64 (n * 1000))
  | .pxat => some n

/-- The option loop of `GETEX`, which applies each option before it reads the next. -/
def getexOptions (now : Clock) (key out : Bytes) : List Bytes → Keyspace → Outcome
  | [], db => ⟨db, out, none⟩
  | word :: rest, db =>
    if toUpper word = ascii "PERSIST" then ⟨(db.persist now key).1, out, none⟩
    else
      match rest with
      | [] => ⟨db, syntaxError, none⟩
      | num :: rest =>
      match parseInt num with
      | none => ⟨db, notAnInteger, none⟩
      | some n =>
      match expireOpt? (toUpper word) with
      | none => ⟨db, syntaxError, none⟩
      | some x =>
        match getexDeadline now x n with
        | none => ⟨db, invalidExpire "getex", none⟩
        | some exp => getexOptions now key out rest (db.setExpireAt now key exp).1

def getexCommand : Outcome :=
  let key := argv.getD 1 []
  match db.get ctx.now key with
  | (db, none) => ⟨db, nullBulkString, none⟩
  | (db, some (.str b)) => getexOptions ctx.now key (bulkString b) (argv.drop 2) db
  | (db, some _) => ⟨db, wrongType, none⟩

/-! ## DEL, UNLINK, PERSIST -/

def delKeys (now : Clock) (keys : List Bytes) (db : Keyspace) : Keyspace × Int :=
  keys.foldl (fun s key => ((s.1.del now key).1, if (s.1.del now key).2 then s.2 + 1 else s.2)) (db, 0)

def delCommand : Outcome :=
  let (db, count) := delKeys ctx.now (argv.drop 1) db
  ⟨db, integer count, none⟩

def unlinkCommand := delCommand

def persistCommand : Outcome :=
  let (db, done) := db.persist ctx.now (argv.getD 1 [])
  ⟨db, integer (if done then 1 else 0), none⟩

/-! ## INCR -/

/-- `incrGeneric`: the sum is stored without a deadline. -/
def incrGeneric (key : Bytes) (delta : Int) (db : Keyspace) : Outcome :=
  let add (db : Keyspace) (current : Int) : Outcome :=
    if (0 < delta ∧ 2 ^ 63 - 1 - delta < current) ∨ (delta < 0 ∧ current < -2 ^ 63 - delta) then
      ⟨db, error (ascii "increment or decrement would overflow"), none⟩
    else ⟨db.set key (.str (formatInt (current + delta))), integer (current + delta), none⟩
  match db.get ctx.now key with
  | (db, none) => add db 0
  | (db, some (.str b)) =>
    match parseInt b with
    | none => ⟨db, notAnInteger, none⟩
    | some current => add db current
  | (db, some _) => ⟨db, wrongType, none⟩

def incrCommand : Outcome := incrGeneric ctx (argv.getD 1 []) 1 db

end Gopherdis.Command

/-
The handlers of the `EXPIRE` family, of `MSETEX` and of `RESTORE`, and the table of the commands
modelled so far.
-/
import Gopherdis.Command.Strings
import Gopherdis.Rdb.Decode

namespace Gopherdis.Command

open Lib Codec Object Store

/-! ## EXPIRE and its relatives -/

structure ExpireOpts where
  nx : Bool := false
  xx : Bool := false
  gt : Bool := false
  lt : Bool := false
deriving DecidableEq, Repr

def expireOptions : List Bytes → ExpireOpts → Except Bytes ExpireOpts
  | [], o => .ok o
  | word :: rest, o =>
    let opt := toUpper word
    if opt = ascii "NX" then expireOptions rest { o with nx := true }
    else if opt = ascii "XX" then expireOptions rest { o with xx := true }
    else if opt = ascii "GT" then expireOptions rest { o with gt := true }
    else if opt = ascii "LT" then expireOptions rest { o with lt := true }
    else .error (error (ascii "Unsupported option " ++ word))

/-- Whether a relative amount is accepted; absolute ones always are. -/
def ExpireOpt.inRange (x : ExpireOpt) (n : Int) : Bool :=
  match x with
  | .ex => validExpireSeconds n
  | .px => validExpireMillis n
  | .exat | .pxat => true

/-- The deadline the conditions compare with, through a `Duration`; zero stands for none. -/
def currentDeadline (now : Clock) (db : Keyspace) (key : Bytes) : Int :=
  let (d, code) := db.ttl now key
  if code = 0 then now.ms + d.tdiv (10 ^ 6) else 0

/-- The conditions refuse a change from `current` to `absMs`. -/
def ExpireOpts.refuses (o : ExpireOpts) (current absMs : Int) : Bool :=
  (o.nx && decide (current ≠ 0)) || (o.xx && decide (current = 0)) ||
    (o.gt && decide (current = 0 ∨ absMs ≤ current)) || (o.lt && decide (current ≠ 0 ∧ current ≤ absMs))

def expireGeneric (x : ExpireOpt) (cmd : String) (ctx : Context) (argv : Argv) (db : Keyspace) : Outcome :=
  let key := argv.getD 1 []
  match parseInt (argv.getD 2 []) with
  | none => ⟨db, notAnInteger, none⟩
  | some n =>
  match expireOptions (argv.drop 3) {} with
  | .error e => ⟨db, e, none⟩
  | .ok o =>
  if (o.gt ∧ o.lt) ∨ (o.nx ∧ (o.xx ∨ o.gt ∨ o.lt)) then
    ⟨db, error (ascii "NX and XX, GT or LT options at the same time are not compatible"), none⟩
  else if ¬ x.inRange n then ⟨db, invalidExpire cmd, none⟩
  else if ¬ db.has ctx.now key then ⟨db, integer 0, none⟩
  else if o.refuses (currentDeadline ctx.now db key) (x.absMs ctx.now.ms n) then ⟨db, integer 0, none⟩
  else
    let (db, done) := db.setExpireAt ctx.now key (x.absMs ctx.now.ms n)
    ⟨db, integer (if done then 1 else 0), none⟩

def expireCommand := expireGeneric .ex "expire"

def pexpireCommand := expireGeneric .px "pexpire"

def expireatCommand := expireGeneric .exat "expireat"

def pexpireatCommand := expireGeneric .pxat "pexpireat"

/-! ## MSETEX -/

structure MsetexOpts where
  expiry : Expiry := {}
  nx : Bool := false
  xx : Bool := false
deriving DecidableEq, Repr

/-- A deadline option has been given. -/
def Expiry.timed (e : Expiry) : Bool := e.ttl.isSome || 0 < e.expAt

def msetexOptions : List Bytes → MsetexOpts → Except Bytes MsetexOpts
  | [], o => .ok o
  | word :: rest, o =>
    let opt := toUpper word
    if opt = ascii "NX" then msetexOptions rest { o with nx := true }
    else if opt = ascii "XX" then msetexOptions rest { o with xx := true }
    else if opt = ascii "KEEPTTL" then
      if o.expiry.timed then .error syntaxError else msetexOptions rest { o with expiry.keepTTL := true }
    else
      match expireOpt? opt with
      | none => .error syntaxError
      | some x =>
      if o.expiry.timed ∨ o.expiry.keepTTL then .error syntaxError
      else
        match rest with
        | [] => .error syntaxError
        | num :: rest =>
        match parseInt num with
        | none => .error notAnInteger
        | some n =>
          match o.expiry.option x n with
          | none => .error (invalidExpire "msetex")
          | some expiry => msetexOptions rest { o with expiry }

/-- Some key is in the way of the condition on the whole batch. -/
def MsetexOpts.refuses (o : MsetexOpts) (now : Clock) (db : Keyspace) (pairs : List (Bytes × Bytes)) : Bool :=
  pairs.any fun p => (o.nx && db.has now p.1) || (o.xx && !db.has now p.1)

/-- The pairs and the options of an `MSETEX`, or its error reply. -/
def msetexArgs (argv : Argv) : Except Bytes (List (Bytes × Bytes) × MsetexOpts) :=
  match parseInt (argv.getD 1 []) with
  | none => .error (error (ascii "invalid numkeys value"))
  | some numKeys =>
  if numKeys ≤ 0 ∨ 2 ^ 31 - 1 < numKeys then .error (error (ascii "invalid numkeys value"))
  else if (argv.length : Int) < 2 + numKeys * 2 then .error (error (ascii "wrong number of key-value pairs"))
  else
    match msetexOptions ((argv.drop 2).drop (numKeys.toNat * 2)) {} with
    | .error e => .error e
    | .ok o =>
      if o.nx ∧ o.xx then .error syntaxError
      else .ok (pairUp ((argv.drop 2).take (numKeys.toNat * 2)), o)

def msetexCommand (ctx : Context) (argv : Argv) (db : Keyspace) : Outcome :=
  match msetexArgs argv with
  | .error e => ⟨db, e, none⟩
  | .ok (pairs, o) =>
    if o.refuses ctx.now db pairs then ⟨db, integer 0, none⟩
    else ⟨pairs.foldl (fun db p => o.expiry.store ctx.now p.1 p.2 db) db, integer 1, none⟩

/-! ## RESTORE -/

structure RestoreOpts where
  replace : Bool := false
  absTTL : Bool := false
deriving DecidableEq, Repr

def restoreOptions : List Bytes → RestoreOpts → Except Bytes RestoreOpts
  | [], o => .ok o
  | word :: rest, o =>
    let opt := toUpper word
    if opt = ascii "REPLACE" then restoreOptions rest { o with replace := true }
    else if opt = ascii "ABSTTL" then restoreOptions rest { o with absTTL := true }
    else if opt = ascii "IDLETIME" ∨ opt = ascii "FREQ" then
      match rest with
      | [] => .error syntaxError
      | num :: rest =>
        match parseInt num with
        | none => .error notAnInteger
        | some _ => restoreOptions rest o
    else .error syntaxError

def dumpFooterLen : Nat := 10

def dumpVersion : Nat := 1

/-- The snapshot in a payload whose version and checksum are right. -/
def dumpBody (payload : Bytes) : Option Bytes :=
  let verOff := payload.length - dumpFooterLen
  if payload.length < dumpFooterLen then none
  else if leVal ((payload.drop verOff).take 2) = dumpVersion ∧
      (Rdb.crc64 0 (payload.take (verOff + 2))).toNat = leVal (payload.drop (verOff + 2)) then
    some (payload.take verOff)
  else none

lemma existsUnique_mem_of_card {α : Type} {s : Finset α} (h : s.card = 1) : ∃! a, a ∈ s ∧ True := by
  obtain ⟨a, rfl⟩ := Finset.card_eq_one.1 h
  exact ⟨a, by simp, fun b hb => by simpa using hb.1⟩

/-- The member of a set that has one. -/
def onlyMember {s : Finset Bytes} (h : s.card = 1) : Bytes := Finset.choose (fun _ => True) s (existsUnique_mem_of_card h)

/-- The value in a snapshot that holds exactly one key, loaded at `now`. -/
def restoredValue (E : Env) (now : Clock) (body : Bytes) : Option Value :=
  match Rdb.load E now body ∅ with
  | (.error _, _) => none
  | (.ok _, scratch) =>
    if h : (scratch.keysAll now).card = 1 then (scratch.get now (onlyMember h)).2 else none

def badDataFormat : Bytes := error (ascii "Bad data format")

def restoreCommand (ctx : Context) (argv : Argv) (db : Keyspace) : Outcome :=
  let key := argv.getD 1 []
  match parseInt (argv.getD 2 []) with
  | none => ⟨db, notAnInteger, none⟩
  | some ttlMs =>
  if ttlMs < 0 then ⟨db, error (ascii "Invalid TTL value, must be >= 0"), none⟩
  else
    match restoreOptions (argv.drop 4) {} with
    | .error e => ⟨db, e, none⟩
    | .ok o =>
    match dumpBody (argv.getD 3 []) with
    | none => ⟨db, error (ascii "DUMP payload version or checksum are wrong"), none⟩
    | some body =>
    if ¬ o.replace ∧ db.has ctx.now key then
      ⟨db, error (ascii "BUSYKEY Target key name already exists."), none⟩
    else
      match restoredValue ctx.E ctx.now body with
      | none => ⟨db, badDataFormat, none⟩
      | some v =>
      let db := db.set key v
      if 0 < ttlMs then
        if o.absTTL then ⟨(db.setExpireAt ctx.now key ttlMs).1, ok, none⟩
        else ⟨(db.setExpire ctx.now key (wrap64 (ttlMs * 10 ^ 6))).1, ok, none⟩
      else ⟨db, ok, none⟩

end Gopherdis.Command

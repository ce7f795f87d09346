/-
Transactions: `MULTI`, `EXEC`, `DISCARD`, `WATCH` and `UNWATCH`, the scripts and `XREAD`, as one
connection runs them through `Execute`, with the transaction lock it takes on the way. `EXEC` and the
scripts execute commands themselves, with the lock held exclusively. What other connections do is an
input: the versions of the keys when they are read, and what a parked `XREAD` finds at each wake-up.
-/
import Gopherdis.Command.Script
import Gopherdis.Command.Xread
import Gopherdis.Store.Versions

namespace Gopherdis.Command

open Lib Codec Object Store Gopherdis.Stream List

/-! ## A connection -/

/-- How a connection holds `txMu`. -/
inductive TxLock
  | free
  | shared
  | exclusive
deriving DecidableEq, Repr

structure Conn where
  session : Session
  watched : Watched
  lock : TxLock
  inTxExecution : Bool

def Conn.start (db : Keyspace) : Conn := ⟨.start db (some ⟨false, [], false⟩), [], .free, false⟩

/-- What a call reads: the context of the connection, the versions, and the clock and the keyspace at
each wake-up of a parked `XREAD`, should there be one. -/
structure TxContext extends Context where
  version : Bytes → UInt64
  wakes : List (Clock × Keyspace)

/-- Why a call does not return: it waits for `txMu` or for the stripe of a key, which the connection
itself holds; it is parked with nobody to wake it up; or an index was out of range. -/
inductive Halt
  | txMu
  | keyLock
  | parked
  | panicked
deriving DecidableEq, Repr

abbrev CallResult := Except Halt (Bytes × Conn)

variable (c : Conn)

/-- `BeginOp` and `BeginTx`. -/
def Conn.acquire (mode : TxLock) : Except Halt Conn :=
  if c.lock = .free then .ok { c with lock := mode } else .error .txMu

/-- `EndOp` and `EndTx`. -/
def Conn.release : Conn := { c with lock := .free }

def Conn.setDB (db : Keyspace) : Conn := { c with session := { c.session with db } }

def Conn.setTx (tx : TxState) : Conn := { c with session := { c.session with tx := some tx } }

def Conn.reset : Conn := { c.setTx ⟨false, [], false⟩ with watched := [] }

/-! ## The handlers -/

def nestedMulti : Bytes := error (ascii "MULTI calls can not be nested")

def discardWithoutMulti : Bytes := error (ascii "DISCARD without MULTI")

def watchInsideMulti : Bytes := error (ascii "WATCH inside MULTI is not allowed")

def execWithoutMulti : Bytes := error (ascii "EXEC without MULTI")

def execAbort : Bytes := error (ascii "EXECABORT Transaction discarded because of previous errors.")

/-- The transaction state, made on the spot for a context without one. -/
def Conn.tx (c : Conn) : TxState := c.session.tx.getD ⟨false, [], false⟩

def multiCommand : Bytes × Conn :=
  if c.tx.inMulti then (nestedMulti, c.setTx c.tx) else (ok, c.setTx { c.tx with inMulti := true, queuedCmds := [] })

def discardCommand : Bytes × Conn :=
  if c.session.inMulti then (ok, c.reset) else (discardWithoutMulti, c)

variable (version : Bytes → UInt64)

/-- `version` is `GetVersion` at the time. -/
def watchCommand (argv : Argv) (c : Conn) : Bytes × Conn :=
  if c.tx.inMulti then (watchInsideMulti, c.setTx c.tx)
  else
    (ok, { c.setTx c.tx with watched := (argv.drop 1).foldl (fun w key => w.put key (version key)) c.watched })

def unwatchCommand : Bytes × Conn :=
  match c.session.tx with
  | none => (ok, c)
  | some tx => (ok, { c.setTx { tx with dirtyCAS := false } with watched := [] })

/-- Commands executed one after the other; one that does not return is the last. -/
def callAll (call : Argv → Conn → CallResult) : Conn → List Argv → Except Halt (List Bytes × Conn)
  | c, [] => .ok ([], c)
  | c, argv :: rest =>
    match call argv c with
    | .error h => .error h
    | .ok (reply, c) =>
      match callAll call c rest with
      | .error h => .error h
      | .ok (replies, c) => .ok (reply :: replies, c)

/-- A watched key has another version than it was watched with. -/
def Conn.conflict (c : Conn) : Bool := c.watched.any fun e => version e.1 ≠ e.2

/-- `EXEC` with the lock held: the reply, or the commands to run. -/
def execVerdict (c : Conn) : Bytes ⊕ List Argv :=
  if c.tx.dirtyCAS then .inl execAbort
  else if c.conflict version then .inl nullArray
  else if c.tx.queuedCmds = [] then .inl (array [])
  else .inr c.tx.queuedCmds

/-- The connection while the queue runs: out of `MULTI`, and commands do not lock. -/
def Conn.running : Conn := { c.setTx { c.tx with inMulti := false } with inTxExecution := true }

def execCommand (call : Argv → Conn → CallResult) (ctx : TxContext) (c : Conn) : CallResult :=
  if c.session.inMulti then
    match c.acquire .exclusive with
    | .error h => .error h
    | .ok c =>
      match execVerdict ctx.version c with
      | .inl reply => .ok (reply, c.reset.release)
      | .inr queued =>
        (callAll call c.running queued).map fun r => (array r.1, { r.2.reset.release with inTxExecution := false })
  else .ok (execWithoutMulti, c)

/-- `evalCommand` and `evalshaCommand`. The script is looked up, and compiled, under the lock. -/
def scriptCommand (cmd : String) (find : Argv → Except Bytes Script) (call : Argv → Conn → CallResult) (argv : Argv)
    (c : Conn) : CallResult :=
  match scriptArgs cmd argv with
  | .error reply => .ok (reply, c)
  | .ok _ =>
  match c.acquire .exclusive with
  | .error h => .error h
  | .ok c =>
  match find argv with
  | .error reply => .ok (reply, { c.release with inTxExecution := false })
  | .ok script =>
    (callAll call { c with inTxExecution := true } script.calls).map fun r =>
      (script.reply r.1, { r.2.release with inTxExecution := false })

/-- A parked `XREAD` outside transactions: at each wake-up it takes the lock for a fetch, and once more
before it returns, for `Execute` to release. -/
def xreadWait (q : XreadQuery) : List (Clock × Keyspace) → Conn → CallResult
  | [], c =>
    if 0 < q.blockMs then
      match c.acquire .shared with
      | .error h => .error h
      | .ok c => .ok (nullArray, c)
    else .error .parked
  | (now, db) :: wakes, c =>
    match c.acquire .shared with
    | .error h => .error h
    | .ok c =>
    let (db, results) := xreadFetch now q.count q.streams db
    let c := (c.setDB db).release
    if results = [] then xreadWait q wakes c
    else
      match c.acquire .shared with
      | .error h => .error h
      | .ok c => .ok (array results, c)

/-- Inside `EXEC` and scripts the lock is kept while `XREAD` is parked. Nobody else can then change the
keyspace: every poll finds nothing, and only a timeout ends the wait. -/
def xreadCommand (ctx : TxContext) (argv : Argv) (c : Conn) : CallResult :=
  match xreadQuery ctx.now argv c.session.db with
  | (_, .error none) => .error .panicked
  | (db, .error (some reply)) => .ok (reply, c.setDB db)
  | (db, .ok q) =>
  let (db, results) := xreadFetch ctx.now q.count q.streams db
  let c := c.setDB db
  if results ≠ [] ∨ q.blockMs < 0 then .ok (array results, c)
  else if c.inTxExecution then if 0 < q.blockMs then .ok (nullArray, c) else .error .parked
  else xreadWait q ctx.wakes c.release

/-! ## Execute -/

/-- The handler of a command. All but the transactions, the scripts and `XREAD` act on the keyspace
alone; `locks` are the stripes such a handler holds together. -/
inductive Body
  | plain (run : Context → Argv → Keyspace → Outcome) (locks : Argv → List Nat)
  | multi
  | discard
  | watch
  | unwatch
  | exec
  | eval
  | evalsha
  | xread

/-- The handlers that execute commands themselves. -/
def Body.runsOthers : Body → Bool
  | .exec | .eval | .evalsha => true
  | _ => false

structure Registered where
  name : Bytes
  arity : Int
  isWrite : Bool
  body : Body

open Registered

/-- The command as far as the checks before its handler, and the feeding after it, look at it. -/
def Registered.command (c : Registered) : Command := ⟨c.name, c.arity, c.isWrite, fun _ _ s => ([], s)⟩

/-- A command whose handler acts on the keyspace alone. -/
structure PlainCommand where
  name : Bytes
  arity : Int
  isWrite : Bool
  run : Context → Argv → Keyspace → Outcome
  locks : Argv → List Nat

def PlainCommand.registered (p : PlainCommand) : Registered := ⟨p.name, p.arity, p.isWrite, .plain p.run p.locks⟩

def ownTable : List Registered :=
  [⟨ascii "multi", 1, false, .multi⟩, ⟨ascii "discard", 1, false, .discard⟩, ⟨ascii "watch", -2, false, .watch⟩,
    ⟨ascii "unwatch", 1, false, .unwatch⟩, ⟨ascii "exec", 1, false, .exec⟩, ⟨ascii "eval", -3, true, .eval⟩,
    ⟨ascii "evalsha", -3, true, .evalsha⟩, ⟨ascii "xread", -4, false, .xread⟩]

variable (t : List PlainCommand)

/-- The table: these, and any other commands. -/
def txTable : List Registered := ownTable ++ t.map PlainCommand.registered

/-- Commands that take the lock themselves, or come to do without. -/
def selfLocking : List Bytes := [ascii "exec", ascii "eval", ascii "evalsha"]

def Body.handle (b : Body) (call : Argv → Conn → CallResult) (eng : Engine) (ctx : TxContext) (argv : Argv)
    (c : Conn) : CallResult :=
  match b with
  | .plain run locks =>
    if (locks argv).Nodup then
      let r := onKeyspace run ctx.toContext argv c.session
      .ok (r.1, { c with session := r.2 })
    else .error .keyLock
  | .multi => .ok (multiCommand c)
  | .discard => .ok (discardCommand c)
  | .watch => .ok (watchCommand ctx.version argv c)
  | .unwatch => .ok (unwatchCommand c)
  | .exec => execCommand call ctx c
  | .eval => scriptCommand "eval" eng.evalScript call argv c
  | .evalsha => scriptCommand "evalsha" eng.evalshaScript call argv c
  | .xread => xreadCommand ctx argv c

variable (r : Registered)

def Registered.feed (ctx : Context) (argv : Argv) (reply : Bytes) (c : Conn) : Conn :=
  { c with session := { c.session with
      fed := c.session.fed ++ (propagated ctx r.command argv reply c.session.override).toList } }

def Conn.fresh : Conn := { c with session := { c.session with override := none } }

def Registered.handleAndFeed (call : Argv → Conn → CallResult) (eng : Engine) (ctx : TxContext)
    (argv : Argv) (c : Conn) : CallResult :=
  (r.body.handle call eng ctx argv c.fresh).map fun x => (x.1, r.feed ctx.toContext argv x.1 x.2)

/-- The handler between the lock and the release, where `Execute` locks. -/
def Registered.run (call : Argv → Conn → CallResult) (eng : Engine) (ctx : TxContext) (argv : Argv)
    (c : Conn) : CallResult :=
  if c.inTxExecution ∨ r.name ∈ selfLocking then r.handleAndFeed call eng ctx argv c
  else
    match c.acquire .shared with
    | .error h => .error h
    | .ok c => (r.handleAndFeed call eng ctx argv c).map fun x => (x.1, x.2.release)

def lookupRegistered (t : List Registered) (name : Bytes) : Option Registered :=
  t.find? fun r => r.name = toLowerASCII name

def dispatchTx (ctx : Context) (argv : Argv) (s : Session) : (Bytes × Session) ⊕ Registered :=
  match dispatch ctx ((txTable t).map Registered.command) argv s with
  | .inl r => .inl r
  | .inr _ => ((lookupRegistered (txTable t) (argv.headD [])).map Sum.inr).getD (.inl ([], s))

/-- `Execute`, with calls nested to a given depth. -/
def executeTx (eng : Engine) (t : List PlainCommand) : Nat → TxContext → Argv → Conn → CallResult
  | 0, _, _, _ => .error .txMu
  | depth + 1, ctx, argv, c =>
    match dispatchTx t ctx.toContext argv c.session with
    | .inl (reply, s) => .ok (reply, { c with session := s })
    | .inr r => r.run (executeTx eng t depth ctx) eng ctx argv c

/-! ## Serving requests -/

/-- A request, with the keyspace as the others have left it. -/
structure Request where
  ctx : TxContext
  db : Keyspace
  argv : Argv

/-- A command runs others, and those run no further ones: two levels are all there are. -/
def Conn.serve (eng : Engine) (t : List PlainCommand) (r : Request) (c : Conn) : CallResult :=
  executeTx eng t 2 r.ctx r.argv (c.setDB r.db)

def Conn.serveAll (eng : Engine) (t : List PlainCommand) : List Request → Conn → Except Halt Conn
  | [], c => .ok c
  | r :: rs, c =>
    match c.serve eng t r with
    | .error h => .error h
    | .ok (_, c) => c.serveAll eng t rs

/-! ## Which command is called -/

lemma lookup_map_command (t : List Registered) (name : Bytes) :
    Table.lookup (t.map command) name = (lookupRegistered t name).map command := by
  rw [Table.lookup, lookupRegistered, find?_map]
  rfl

section
variable {t : List PlainCommand} {ctx : Context} {argv : Argv} {s : Session}

lemma dispatchTx_inr {r : Registered} (h : dispatchTx t ctx argv s = .inr r) :
    dispatch ctx ((txTable t).map command) argv s = .inr r.command ∧
      lookupRegistered (txTable t) (argv.headD []) = some r := by
  unfold dispatchTx at h
  split at h
  · cases h
  next c hd =>
  obtain ⟨hl, -, -⟩ := dispatch_inr hd
  rw [lookup_map_command] at hl
  obtain ⟨r', hr', rfl⟩ := Option.map_eq_some_iff.1 hl
  rw [hr'] at h
  cases h
  exact ⟨hd, hr'⟩

lemma dispatchTx_of_inr {c : Command} (h : dispatch ctx ((txTable t).map command) argv s = .inr c) :
    ∃ r, dispatchTx t ctx argv s = .inr r ∧ r.command = c := by
  obtain ⟨hl, -, -⟩ := dispatch_inr h
  rw [lookup_map_command] at hl
  obtain ⟨r, hr, hc⟩ := Option.map_eq_some_iff.1 hl
  exact ⟨r, by rw [dispatchTx, h, hr]; rfl, hc⟩

lemma dispatchTx_inl {r : Bytes × Session} :
    dispatchTx t ctx argv s = .inl r ↔ dispatch ctx ((txTable t).map command) argv s = .inl r := by
  cases h : dispatch ctx ((txTable t).map command) argv s with
  | inl r' => simp [dispatchTx, h, Sum.inl.injEq]
  | inr c =>
    obtain ⟨r', hr', -⟩ := dispatchTx_of_inr h
    rw [hr']
    exact ⟨nofun, nofun⟩

lemma lookup_txTable {name : Bytes} {r : Registered} (h : lookupRegistered (txTable t) name = some r) :
    (r ∈ ownTable ∧ toLowerASCII name = r.name) ∨ ∃ p ∈ t, r = p.registered ∧ r.name ∉ ownTable.map Registered.name := by
  rw [lookupRegistered, txTable, find?_append] at h
  cases ho : ownTable.find? fun r => r.name = toLowerASCII name with
  | some r' =>
    rw [ho] at h
    obtain rfl : r' = r := by simpa using h
    exact .inl ⟨mem_of_find?_eq_some ho, by simpa [eq_comm] using find?_some ho⟩
  | none =>
  rw [ho, Option.none_or] at h
  obtain ⟨p, hp, rfl⟩ := mem_map.1 (mem_of_find?_eq_some h)
  refine .inr ⟨p, hp, rfl, ?_⟩
  have hn : p.registered.name = toLowerASCII name := by simpa using find?_some h
  intro hmem
  obtain ⟨r', hr', he⟩ := mem_map.1 hmem
  have := find?_eq_none.1 ho r' hr'
  exact this (by simp [he, hn])

end

end Gopherdis.Command

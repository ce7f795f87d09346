/-
The commands with their names and arities, and how one is looked up and run. Between commands keys are
read, keys past their deadline are reclaimed, and the memory is brought back below its limit.
-/
import Gopherdis.Encoded.Keys
import Gopherdis.Encoded.Sets

namespace Gopherdis.Encoded

open Lib Codec Object Store Command

/-- A command; `arity` as the source has it, negative for a minimum. -/
structure Handler where
  name : Bytes
  arity : Int
  run : (S : Settings) → Call → Argv → MemM S.E Answer

/-- A handler that leaves what is propagated to the dispatcher. -/
def answering (f : (S : Settings) → Call → Argv → MemM S.E Bytes) (S : Settings) (c : Call) (argv : Argv) :
    MemM S.E Answer := do
  let reply ← f S c argv
  return ⟨reply, none⟩

def handler (name : String) (arity : Int) (f : (S : Settings) → Call → Argv → MemM S.E Bytes) : Handler :=
  ⟨ascii name, arity, answering f⟩

def Handler.arityOk (h : Handler) (argc : Nat) : Bool :=
  ¬ (0 < h.arity ∧ (argc : Int) ≠ h.arity) ∧ ¬ (h.arity < 0 ∧ (argc : Int) < -h.arity)

lemma Handler.argc_le {h : Handler} {n argc : Nat} (ha : h.arity = -n) (hok : h.arityOk argc = true) : n ≤ argc := by
  rw [Handler.arityOk, ha] at hok
  simp only [decide_eq_true_eq, Bool.decide_and, Bool.and_eq_true, not_and, not_not, not_lt] at hok
  omega

/-! ## The commands -/

def listTable : List Handler :=
  [handler "lpush" (-3) lpushCommand, handler "rpush" (-3) rpushCommand, handler "lpushx" (-3) lpushxCommand,
    handler "rpushx" (-3) rpushxCommand, handler "lpop" 2 lpopCommand, handler "rpop" 2 rpopCommand,
    handler "lset" 4 lsetCommand, handler "linsert" 5 linsertCommand, handler "ltrim" 4 ltrimCommand,
    handler "lrem" 4 lremCommand, handler "lmove" 5 lmoveCommand, handler "rpoplpush" 3 rpoplpushCommand]

def hashTable : List Handler :=
  [handler "hset" (-4) hsetCommand, handler "hmset" (-4) hmsetCommand, handler "hsetnx" 4 hsetnxCommand,
    handler "hdel" (-3) hdelCommand, handler "hincrby" 4 hincrbyCommand, handler "hincrbyfloat" 4 hincrbyfloatCommand]

def setTable : List Handler :=
  [handler "sadd" (-3) saddCommand, handler "srem" (-3) sremCommand, ⟨ascii "spop", -2, spopCommand⟩,
    handler "smove" 4 smoveCommand, handler "sinterstore" (-3) sinterstoreCommand,
    handler "sunionstore" (-3) sunionstoreCommand, handler "sdiffstore" (-3) sdiffstoreCommand]

def zsetTable : List Handler :=
  [handler "zadd" (-4) zaddCommand, handler "zincrby" 4 zincrbyCommand, handler "zrem" (-3) zremCommand,
    handler "zpopmin" (-2) zpopminCommand, handler "zpopmax" (-2) zpopmaxCommand,
    handler "zremrangebyrank" 4 zremrangebyrankCommand, handler "zremrangebyscore" 4 zremrangebyscoreCommand,
    handler "zremrangebylex" 4 zremrangebylexCommand, handler "zunionstore" (-4) zunionstoreCommand,
    handler "zinterstore" (-4) zinterstoreCommand, handler "zdiffstore" (-4) zdiffstoreCommand,
    handler "zrangestore" (-5) zrangestoreCommand]

def geoTable : List Handler := [handler "geoadd" (-5) geoaddCommand]

def stringTable : List Handler :=
  [⟨ascii "set", -3, setCommand⟩, handler "setnx" 3 setnxCommand, handler "setex" 4 setexCommand,
    handler "psetex" 4 psetexCommand, handler "getset" 3 getsetCommand, handler "getdel" 2 getdelCommand,
    handler "getex" (-2) getexCommand, handler "mset" (-3) msetCommand, handler "msetnx" (-3) msetnxCommand,
    handler "msetex" (-4) msetexCommand, handler "incr" 2 incrCommand, handler "decr" 2 decrCommand,
    handler "incrby" 3 incrbyCommand, handler "decrby" 3 decrbyCommand, handler "incrbyfloat" 3 incrbyfloatCommand,
    handler "append" 3 appendCommand, handler "setrange" 4 setrangeCommand, handler "setbit" 4 setbitCommand,
    handler "bitop" (-4) bitopCommand, handler "pfadd" (-2) pfaddCommand, handler "pfmerge" (-2) pfmergeCommand,
    ⟨ascii "delex", -2, delexCommand⟩]

def keyTable : List Handler :=
  [handler "del" (-2) delCommand, handler "unlink" (-2) unlinkCommand, handler "expire" (-3) expireCommand,
    handler "pexpire" (-3) pexpireCommand, handler "expireat" (-3) expireatCommand,
    handler "pexpireat" (-3) pexpireatCommand, handler "persist" 2 persistCommand, handler "rename" 3 renameCommand,
    handler "renamenx" 3 renamenxCommand, handler "copy" (-3) copyCommand, handler "sort" (-2) sortCommand,
    handler "flushdb" (-1) flushdbCommand, handler "flushall" (-1) flushdbCommand]

/-- Every write command but those on streams, on scripts and on other databases. -/
def commandTable : List Handler :=
  stringTable ++ listTable ++ hashTable ++ setTable ++ zsetTable ++ geoTable ++ keyTable ++
    [handler "restore" (-4) restoreCommand]

variable (t : List Handler)

def findHandler (name : Bytes) : Option Handler := t.find? fun h => h.name = toLowerASCII name

/-- A command of the table is run if it has the number of arguments it wants. -/
def runCommand (S : Settings) (c : Call) (argv : Argv) : MemM S.E Answer :=
  match argv with
  | [] => pure ⟨error (ascii "empty command"), none⟩
  | name :: _ =>
  match findHandler t name with
  | none => pure ⟨error (ascii "unknown command '" ++ name ++ ascii "'"), none⟩
  | some h =>
    if h.arityOk argv.length then h.run S c argv
    else pure ⟨error (ascii "wrong number of arguments for '" ++ h.name ++ ascii "' command"), none⟩

/-! ## Steps of a server -/

/-- The server with other memory settings. -/
def Settings.under (S : Settings) (sv : Store.Server) : Settings := { S with server := sv }

/-- `Get`, of several keys, as the commands that only read do it. -/
def readKeys (S : Settings) (c : Call) : List Bytes → MemM S.E Unit
  | [] => return
  | key :: keys => do
    let _ ← MemM.get c.now key
    readKeys S c keys

/-- `ActiveExpireCycle`: those of the sampled keys that are past their deadline are removed. -/
def reclaimKeys (S : Settings) (now : Clock) : List Bytes → MemM S.E Unit
  | [] => return
  | key :: keys => do
    if ← Traced.read fun db => db.isExpired now key then Traced.perform (.remove key)
    reclaimKeys S now keys

/-- A command, a command that only reads these keys, or one of the two jobs of the cron. -/
inductive MemAct
  | command (c : Call) (argv : Argv)
  | read (c : Call) (keys : List Bytes)
  | expireCycle (now : Clock) (sampled : List Bytes)
  | freeMemory

/-- What an action does, by the commands of a table. -/
def MemAct.run (S : Settings) : MemAct → MemM S.E Unit
  | command c argv => do
    let _ ← runCommand t S c argv
  | read c keys => readKeys S c keys
  | expireCycle now sampled => reclaimKeys S now sampled
  | freeMemory => do
    let _ ← MemM.freeMemoryIfNeeded S.server

/-! ## Looking a command up -/

section
variable {t : List Handler} {S : Settings} {c : Call} {argv : Argv}

lemma runCommand_eq {h : Handler} (hf : findHandler t (argv.headD []) = some h) (hargs : argv ≠ [])
    (ha : h.arityOk argv.length = true) : runCommand t S c argv = h.run S c argv := by
  obtain ⟨name, rest, rfl⟩ := List.exists_cons_of_ne_nil hargs
  have hf' : findHandler t name = some h := hf
  simp only [runCommand, hf', if_pos ha]

lemma runCommand_cases (t : List Handler) (S : Settings) (c : Call) (argv : Argv) :
    (∃ h ∈ t, h.arityOk argv.length = true ∧ findHandler t (argv.headD []) = some h ∧
        runCommand t S c argv = h.run S c argv) ∨ ∃ msg, runCommand t S c argv = pure ⟨error msg, none⟩ := by
  cases argv with
  | nil => exact .inr ⟨_, rfl⟩
  | cons name rest =>
  rw [runCommand]
  cases hf : findHandler t name with
  | none => exact .inr ⟨_, rfl⟩
  | some h =>
    by_cases ha : h.arityOk (name :: rest).length = true
    · exact .inl ⟨h, List.mem_of_find?_eq_some hf, ha, hf, if_pos ha⟩
    · exact .inr ⟨_, if_neg ha⟩

end

end Gopherdis.Encoded

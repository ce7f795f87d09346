/-
Commands that read one key. They look at the value of one type there, and reclaim a key past its deadline.
-/
import Gopherdis.Command.Collections
import Gopherdis.Encoded.Hashes
import Gopherdis.Encoded.Strings

namespace Gopherdis.Command

open Lib Codec Object Store

/-- The handlers that look at the value of one type at a key. -/
def readGeneric {α : Type} (view : Value → Option α) (absent : Bytes) (found : Argv → α → Bytes) (ctx : Context)
    (argv : Argv) (db : Keyspace) : Outcome :=
  match db.get ctx.now (argv.getD 1 []) with
  | (db, none) => ⟨db, absent, none⟩
  | (db, some v) => ⟨db, (view v).elim wrongType (found argv), none⟩

def getCommand := readGeneric Encoded.stringOf nullBulkString fun _ b => bulkString b

def strlenCommand := readGeneric Encoded.stringOf (integer 0) fun _ b => integer b.length

def llenCommand := readGeneric listOf (integer 0) fun _ items => integer items.length

def hgetCommand := readGeneric hashOf nullBulkString fun argv es =>
  (Encoded.hashGet es (argv.getD 2 [])).elim nullBulkString bulkString

def hlenCommand := readGeneric hashOf (integer 0) fun _ es => integer es.length

def scardCommand := readGeneric setOf (integer 0) fun _ ms => integer ms.length

def sismemberCommand := readGeneric setOf (integer 0) fun argv ms => integer (if argv.getD 2 [] ∈ ms then 1 else 0)

def zcardCommand := readGeneric zsetOf (integer 0) fun _ es => integer es.length

/-- `TTL` does not reclaim a key past its deadline. -/
def pttlCommand (ctx : Context) (argv : Argv) (db : Keyspace) : Outcome :=
  match db.ttl ctx.now (argv.getD 1 []) with
  | (d, code) => ⟨db, integer (if code ≠ 0 then code else d.tdiv (10 ^ 6)), none⟩

def readCmd (name : String) (arity : Int) (f : Context → Argv → Keyspace → Outcome) : Command :=
  ⟨ascii name, arity, false, onKeyspace f⟩

end Gopherdis.Command

/-
`EVAL` and `EVALSHA`. A script is the sequence of commands it calls, each executed with the context and session
of the script itself, so every inner call feeds what it did and leaves its override behind. The interpreter is
left out: it is what finds the script for a text or a digest.
-/
import Gopherdis.Command.Execute

namespace Gopherdis.Command

open Lib Codec Object Store

/-! ## Scripts -/

/-- What running a script comes to: the `redis.call`s, and the reply or the error made from their replies.
`redis.call` hands an error reply to the script like any other. -/
structure Script where
  calls : List Argv
  result : List Bytes → Except Bytes Bytes

/-- The engine: the script of a text, or the compile error; the script of a digest, if it is cached. -/
structure Engine where
  eval : Bytes → List Bytes → List Bytes → Except Bytes Script
  evalSHA : Bytes → List Bytes → List Bytes → Option (Except Bytes Script)

/-- The keys and the arguments of a script, or the error reply. A number of keys so large that adding to
it overflows is refused here; there the allocation of the keys panics. -/
def scriptArgs (cmd : String) (argv : Argv) : Except Bytes (List Bytes × List Bytes) :=
  match parseInt (argv.getD 2 []) with
  | none => .error notAnInteger
  | some numKeys =>
    if numKeys < 0 then .error notAnInteger
    else if (argv.length : Int) < 3 + numKeys then
      .error (error (ascii "wrong number of arguments for '" ++ ascii cmd ++ ascii "' command"))
    else .ok ((argv.drop 3).take numKeys.toNat, argv.drop (3 + numKeys.toNat))

def noScript : Bytes := ascii "-NOSCRIPT No matching script. Please use EVAL.\r\n"

variable (eng : Engine) (argv : Argv)

def Engine.evalScript : Except Bytes Script :=
  match scriptArgs "eval" argv with
  | .error reply => .error reply
  | .ok (keys, args) =>
    match eng.eval (argv.getD 1 []) keys args with
    | .error msg => .error (error msg)
    | .ok script => .ok script

def Engine.evalshaScript : Except Bytes Script :=
  match scriptArgs "evalsha" argv with
  | .error reply => .error reply
  | .ok (keys, args) =>
    match eng.evalSHA (toLowerASCII (argv.getD 1 [])) keys args with
    | none => .error noScript
    | some (.error msg) => .error (error msg)
    | some (.ok script) => .ok script

/-! ## Running them -/

/-- The calls of a script, one after the other on the same session, with their replies. -/
def runCalls (ctx : Context) (t : Table) : Session → List Argv → List Bytes × Session
  | s, [] => ([], s)
  | s, call :: calls =>
    let (reply, s) := execute ctx t call s
    let (replies, s) := runCalls ctx t s calls
    (reply :: replies, s)

def Script.reply (script : Script) (replies : List Bytes) : Bytes :=
  match script.result replies with
  | .error msg => error msg
  | .ok reply => reply

/-- `evalCommand` and `evalshaCommand` but for finding the script. The scripts call the commands of `t`,
which `EVAL` is not one of: a script that called it would wait for the lock its own `EVAL` holds. -/
def scriptHandler (find : Argv → Except Bytes Script) (t : Table) (ctx : Context) (argv : Argv) (s : Session) :
    Bytes × Session :=
  match find argv with
  | .error reply => (reply, s)
  | .ok script =>
    let (replies, s) := runCalls ctx t s script.calls
    (script.reply replies, s)

variable (t : Table)

def evalCmd : Command := ⟨ascii "eval", -3, true, scriptHandler eng.evalScript t⟩

def evalshaCmd : Command := ⟨ascii "evalsha", -3, true, scriptHandler eng.evalshaScript t⟩

/-- A table with the commands of `t` and the scripts that call them. -/
def scriptTable : Table := evalCmd eng t :: evalshaCmd eng t :: t

/-! ## The script of a command -/

def Engine.scriptOf : Except Bytes Script :=
  if toLowerASCII (argv.headD []) = ascii "eval" then eng.evalScript argv else eng.evalshaScript argv

def isScript : Prop :=
  toLowerASCII (argv.headD []) = ascii "eval" ∨ toLowerASCII (argv.headD []) = ascii "evalsha"

lemma scriptTable_lookup {argv : Argv} (h : isScript argv) :
    ∃ c, (scriptTable eng t).lookup (argv.headD []) = some c ∧ c.arity = -3 ∧ c.isWrite = true ∧
      (∀ E now reply, normalizeForPropagation E now c.name argv reply = some argv) ∧
      ∀ ctx s, c.handler ctx argv s = scriptHandler eng.scriptOf t ctx argv s := by
  obtain h | h := h
  · refine ⟨evalCmd eng t, ?_, rfl, rfl, fun _ _ _ => rfl, fun ctx s => ?_⟩
    · rw [Table.lookup, h]; rfl
    · simp only [evalCmd, scriptHandler, Engine.scriptOf, if_pos h]
  have hne : ascii "evalsha" ≠ ascii "eval" := by decide
  have h' : toLowerASCII (argv.headD []) ≠ ascii "eval" := fun he => hne (h.symm.trans he)
  refine ⟨evalshaCmd eng t, ?_, rfl, rfl, fun _ _ _ => rfl, fun ctx s => ?_⟩
  · rw [Table.lookup, h]; rfl
  · simp only [evalshaCmd, scriptHandler, Engine.scriptOf, if_neg h']

end Gopherdis.Command

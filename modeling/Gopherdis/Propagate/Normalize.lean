/-
The form in which a write command reaches the append-only file and the replicas: relative deadlines
become absolute, a deadline in the past becomes a deletion, and conditions that were decided are
dropped. The rewriting sees the arguments and the reply only.
-/
import Gopherdis.Command.Reply

namespace Gopherdis.Command

open Lib Codec Object

/-! ## SET -/

/-- What the walk over the options of a `SET` comes to. -/
inductive SetForm
  | verbatim
  | delete
  | args (out : List Bytes)
deriving DecidableEq, Repr

def SetForm.cons (ws : List Bytes) : SetForm → SetForm
  | .args out => .args (ws ++ out)
  | f => f

def isCompareWord (opt : Bytes) : Bool :=
  opt = ascii "IFEQ" || opt = ascii "IFNE" || opt = ascii "IFDEQ" || opt = ascii "IFDNE"

/-- The walk of `normalizeSet`. A `PXAT` in the future keeps its own words; the other options become
a `PXAT`. -/
def normalizeSetWords (now : Int) : List Bytes → SetForm
  | [] => .args []
  | word :: rest =>
    let opt := toUpper word
    match expireOpt? opt with
    | some .pxat =>
      match rest with
      | [] => .verbatim
      | num :: rest =>
        if (parseInt num).any fun n => n ≤ now then .delete
        else (normalizeSetWords now rest).cons [word, num]
    | some x =>
      match rest with
      | [] => .verbatim
      | num :: rest =>
      match parseInt num with
      | none => .verbatim
      | some n =>
        if x.absMs now n ≤ now then .delete
        else (normalizeSetWords now rest).cons [ascii "PXAT", formatInt (x.absMs now n)]
    | none =>
      if opt = ascii "NX" ∨ opt = ascii "XX" ∨ opt = ascii "GET" then normalizeSetWords now rest
      else if isCompareWord opt then
        match rest with
        | [] => .args []
        | _ :: rest => normalizeSetWords now rest
      else (normalizeSetWords now rest).cons [word]

variable (E : Env)

def serverDelVerb : Bytes := if E.lazyServerDel then ascii "UNLINK" else ascii "DEL"

variable (now : Int) (argv : Argv)

def normalizeSet : Argv :=
  match argv with
  | name :: key :: val :: rest =>
    match normalizeSetWords now rest with
    | .verbatim => argv
    | .delete => [serverDelVerb E, key]
    | .args out => name :: key :: val :: out
  | _ => argv

/-! ## The other commands -/

/-- A deadline on its own: a deletion if it has passed. -/
def propagateDeadline (key : Bytes) (absMs : Int) : Argv :=
  if absMs ≤ now then [ascii "DEL", key] else [ascii "PEXPIREAT", key, formatInt absMs]

/-- `EXPIRE` and its relatives, if they set a deadline. -/
def normalizeExpire (x : ExpireOpt) (now : Int) (argv : Argv) (reply : Bytes) : Argv :=
  match argv with
  | _ :: key :: num :: _ =>
    if reply ≠ integer 1 then argv
    else
      match parseInt num with
      | none => argv
      | some n => propagateDeadline now key (x.absMs now n)
  | _ => argv

def normalizeSetex (x : ExpireOpt) (now : Int) (argv : Argv) : Argv :=
  match argv with
  | _ :: key :: num :: val :: _ =>
    match parseInt num with
    | none => argv
    | some n => [ascii "SET", key, val, ascii "PXAT", formatInt (x.absMs now n)]
  | _ => argv

/-- Only the first option is looked at; without one nothing is propagated. -/
def normalizeGetex : Option Argv :=
  match argv with
  | _ :: key :: word :: rest =>
    if toUpper word = ascii "PERSIST" then some [ascii "PERSIST", key]
    else
      match rest with
      | [] => none
      | num :: _ =>
        match parseInt num, expireOpt? (toUpper word) with
        | some n, some x => some (propagateDeadline now key (x.absMs now n))
        | _, _ => none
  | _ => none

/-- Nothing was deleted if the reply is a null. -/
def normalizeGetdel (reply : Bytes) : Option Argv :=
  if reply = ascii "$-1\r\n" ∨ reply = ascii "_\r\n" then none
  else some [ascii "DEL", argv.getD 1 []]

def normalizeRestore : Argv :=
  match argv with
  | name :: key :: num :: payload :: opts =>
    if opts.any fun w => toUpper w = ascii "ABSTTL" then argv
    else
      match parseInt num with
      | none => argv
      | some ttl =>
        if ttl = 0 then argv
        else name :: key :: formatInt (wrap64 (now + ttl)) :: payload :: (opts ++ [ascii "ABSTTL"])
  | _ => argv

/-- `normalizeForPropagation`, at `now` in milliseconds; `none` propagates nothing. -/
def normalizeForPropagation (cmdName : Bytes) (argv : Argv) (reply : Bytes) : Option Argv :=
  if cmdName = ascii "expire" then normalizeExpire .ex now argv reply
  else if cmdName = ascii "pexpire" then normalizeExpire .px now argv reply
  else if cmdName = ascii "expireat" then normalizeExpire .exat now argv reply
  else if cmdName = ascii "pexpireat" then normalizeExpire .pxat now argv reply
  else if cmdName = ascii "setex" then normalizeSetex .ex now argv
  else if cmdName = ascii "psetex" then normalizeSetex .px now argv
  else if cmdName = ascii "set" then normalizeSet E now argv
  else if cmdName = ascii "getex" then normalizeGetex now argv
  else if cmdName = ascii "getdel" then normalizeGetdel argv reply
  else if cmdName = ascii "restore" then normalizeRestore now argv
  else argv

end Gopherdis.Command

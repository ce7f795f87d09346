/-
Users and the rules they are made of. A user keeps two sets of command names and two sets of categories, one
allowed and one denied, and no order between them. A rule is a text; rules that are not known do nothing.
-/
import Gopherdis.Lib.Text

namespace Gopherdis.Acl

open Lib

structure User where
  name : Bytes
  enabled : Bool
  noPass : Bool
  /-- Hashes, in hexadecimal. -/
  passwords : Finset Bytes
  allCommands : Bool
  allowedCommands : Finset Bytes
  disallowedCommands : Finset Bytes
  allowedCategories : UInt64
  disallowedCategories : UInt64
  allKeys : Bool
  keyPatterns : List Bytes
  allChannels : Bool
  channelPatterns : List Bytes

/-! ## Categories -/

def catRead : UInt64 := 1
def catWrite : UInt64 := 2
def catAdmin : UInt64 := 4
def catFast : UInt64 := 8
def catPubSub : UInt64 := 16

def parseCategory (cat : Bytes) : UInt64 :=
  if cat = ascii "read" then catRead
  else if cat = ascii "write" then catWrite
  else if cat = ascii "admin" then catAdmin
  else if cat = ascii "fast" then catFast
  else if cat = ascii "pubsub" then catPubSub
  else 0

/-! ## Rules -/

inductive Rule where
  | on | off | nopass | resetpass
  | addPass (pass : Bytes)
  | addHash (hash : Bytes)
  | removePass (pass : Bytes)
  | all (allow : Bool)
  | category (allow : Bool) (cat : UInt64)
  | command (allow : Bool) (cmd : Bytes)
  | allKeys | resetKeys
  | key (pat : Bytes)
  | allChannels | resetChannels
  | channel (pat : Bytes)
  | reset

/-- The branches of `ApplyRule`, in their order. -/
def parseRule (rule : Bytes) : Option Rule :=
  if rule = ascii "on" then some .on
  else if rule = ascii "off" then some .off
  else if rule = ascii "nopass" then some .nopass
  else if rule = ascii "resetpass" then some .resetpass
  else if (ascii ">").isPrefixOf rule then some (.addPass (rule.drop 1))
  else if (ascii "#").isPrefixOf rule then some (.addHash (rule.drop 1))
  else if (ascii "<").isPrefixOf rule then some (.removePass (rule.drop 1))
  else if rule = ascii "+@all" ∨ rule = ascii "allcommands" then some (.all true)
  else if rule = ascii "-@all" ∨ rule = ascii "nocommands" then some (.all false)
  else if (ascii "+@").isPrefixOf rule then some (.category true (parseCategory (toLower (rule.drop 2))))
  else if (ascii "-@").isPrefixOf rule then some (.category false (parseCategory (toLower (rule.drop 2))))
  else if (ascii "+").isPrefixOf rule then some (.command true (toLower (rule.drop 1)))
  else if (ascii "-").isPrefixOf rule then some (.command false (toLower (rule.drop 1)))
  else if rule = ascii "~*" ∨ rule = ascii "allkeys" then some .allKeys
  else if rule = ascii "resetkeys" then some .resetKeys
  else if (ascii "~").isPrefixOf rule then some (.key (rule.drop 1))
  else if rule = ascii "&*" ∨ rule = ascii "allchannels" then some .allChannels
  else if rule = ascii "resetchannels" then some .resetChannels
  else if (ascii "&").isPrefixOf rule then some (.channel (rule.drop 1))
  else if rule = ascii "reset" then some .reset
  else none

namespace User

/-- The fields `reset` makes empty are those of a user that is not the default one. -/
def newUser (name : Bytes) (isDefault : Bool) : User where
  name := name
  enabled := isDefault
  noPass := isDefault
  passwords := ∅
  allCommands := isDefault
  allowedCommands := ∅
  disallowedCommands := ∅
  allowedCategories := 0
  disallowedCategories := 0
  allKeys := isDefault
  keyPatterns := []
  allChannels := isDefault
  channelPatterns := []

section

-- `HashPassword`, the hash as a hexadecimal text.
variable (hashPassword : Bytes → Bytes) (u : User)

def apply : Rule → User
  | .on => { u with enabled := true }
  | .off => { u with enabled := false }
  | .nopass => { u with noPass := true }
  | .resetpass => { u with noPass := false, passwords := ∅ }
  | .addPass pass => { u with passwords := insert (hashPassword pass) u.passwords, noPass := false }
  | .addHash hash => { u with passwords := insert (toLower hash) u.passwords, noPass := false }
  | .removePass pass => { u with passwords := u.passwords.erase (hashPassword pass) }
  | .all true => { u with allCommands := true, disallowedCommands := ∅, disallowedCategories := 0 }
  | .all false => { u with allCommands := false, allowedCommands := ∅, allowedCategories := 0 }
  | .category true cat => { u with allowedCategories := u.allowedCategories ||| cat }
  | .category false cat => { u with disallowedCategories := u.disallowedCategories ||| cat }
  | .command true cmd =>
    { u with allowedCommands := insert cmd u.allowedCommands, disallowedCommands := u.disallowedCommands.erase cmd }
  | .command false cmd =>
    { u with disallowedCommands := insert cmd u.disallowedCommands, allowedCommands := u.allowedCommands.erase cmd }
  | .allKeys => { u with allKeys := true }
  | .resetKeys => { u with allKeys := false, keyPatterns := [] }
  | .key pat => { u with keyPatterns := u.keyPatterns ++ [pat] }
  | .allChannels => { u with allChannels := true }
  | .resetChannels => { u with allChannels := false, channelPatterns := [] }
  | .channel pat => { u with channelPatterns := u.channelPatterns ++ [pat] }
  | .reset => newUser u.name false

def applyRule (rule : Bytes) : User :=
  match parseRule (trimSpace rule) with
  | some r => u.apply hashPassword r
  | none => u

end

/-! ## Checks -/

def canExecute (u : User) (cmdName : Bytes) (cmdFlags : UInt64) : Bool :=
  if u.enabled = false then false
  else if cmdName ∈ u.disallowedCommands then false
  else if u.disallowedCategories &&& cmdFlags ≠ 0 then false
  else if cmdName ∈ u.allowedCommands then true
  else if u.allowedCategories &&& cmdFlags ≠ 0 then true
  else u.allCommands

end User

end Gopherdis.Acl

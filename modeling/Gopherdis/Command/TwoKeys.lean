/-
The commands on two keys: `RENAME`, `RENAMENX`, `COPY`, `LMOVE`, `RPOPLPUSH`, `SMOVE` and the set
operations that store their result, as the operations they perform. The stripes of both keys are held
meanwhile, taken in the order of the keys, which is not the order of the stripes.
-/
import Gopherdis.Command.Collections
import Gopherdis.Store.Operations
import Gopherdis.Stream.Append

namespace Gopherdis.Command

open Lib Codec Object Store Gopherdis.Stream

/-- What the handlers take from outside. `promotes` says where an addition makes the collection at a key
outgrow its encoding; the new one is then published with `SetKeepTTL`. -/
structure StoreContext where
  now : Clock
  promotes : Bytes → Bool

/-! ## Collections at a key -/

section
variable {α : Type} (view : Value → Option α) (ctx : StoreContext) (key : Bytes)

/-- `getListView` and `getSetView`. -/
def getView : StoreM (Except Bytes (Option α)) := do
  match ← StoreM.get ctx.now key with
  | none => return .ok none
  | some v => return (view v).elim (.error wrongType) fun a => .ok (some a)

/-- The check of the destination before anything is moved. -/
def holdsOther : StoreM Bool := do
  match ← StoreM.get ctx.now key with
  | none => return false
  | some v => return (view v).isNone

/-- `getOrCreateList` and `getOrCreateSet`: an empty collection is stored where there is none. -/
def getOrCreateView (wrap : α → Value) (empty : α) : StoreM (Except Bytes α) := do
  match ← StoreM.get ctx.now key with
  | none =>
    StoreM.set key (wrap empty)
    return .ok empty
  | some v => return (view v).elim (.error wrongType) .ok

/-- An addition to the collection `a` at the key. -/
def addTo (a : Value) (a' : Value) : StoreM Unit := do
  if ctx.promotes key then StoreM.setKeepTTL key a
  StoreM.perform (.mutate key a')

/-- A removal, and the key with the last element. -/
def takeFrom (a' : Value) (last : Bool) : StoreM Unit := do
  StoreM.perform (.mutate key a')
  if last then
    let _ ← StoreM.del ctx.now key

end

/-! ## RENAME and COPY -/

def noSuchKey : Bytes := error (ascii "no such key")

variable (ctx : StoreContext)

/-- `Set`, and `SetExpireAt` for a value that had a deadline. -/
def storeWithTTL (key : Bytes) (val : Value) (expireAt : Int) : StoreM Unit := do
  StoreM.set key val
  if 0 < expireAt then
    let _ ← StoreM.setExpireAt ctx.now key expireAt

def renameGeneric (src dst : Bytes) (failIfExists : Bool) : StoreM Bytes := do
  if src = dst then
    if ← StoreM.has ctx.now src then return if failIfExists then integer 0 else ok
    else return noSuchKey
  else
    match ← StoreM.getWithTTL ctx.now src with
    | none => return noSuchKey
    | some e =>
    if failIfExists && (← StoreM.has ctx.now dst) then return integer 0
    else
      storeWithTTL ctx dst e.val e.expireAt
      let _ ← StoreM.del ctx.now src
      return if failIfExists then integer 1 else ok

variable (argv : Argv)

def renameCommand : StoreM Bytes :=
  renameGeneric ctx (argv.getD 1 []) (argv.getD 2 []) false

def renamenxCommand : StoreM Bytes :=
  renameGeneric ctx (argv.getD 1 []) (argv.getD 2 []) true

def copyOptions : List Bytes → Bool → Except Bytes Bool
  | [], replace => .ok replace
  | word :: rest, replace =>
    if toUpper word = ascii "REPLACE" then copyOptions rest true
    else if toUpper word = ascii "DB" then
      match rest with
      | [] => .error syntaxError
      | num :: rest =>
        match parseInt num with
        | none => .error notAnInteger
        | some n => if n ≠ 0 then .error (error (ascii "DB index is out of range")) else copyOptions rest replace
    else .error syntaxError

/-- `deepCopy`: a stream is rebuilt from its entries. -/
def deepCopy : Value → Except Bytes Value
  | .stream s =>
    match s.entries.foldlM (fun dup e => dup.addRaw e.id e.pairs 0 false) newStream with
    | none => .error (error (ascii "COPY is not supported for this value type"))
    | some dup => .ok (.stream dup)
  | v => .ok v

def copyCommand : StoreM Bytes :=
  let src := argv.getD 1 []
  let dst := argv.getD 2 []
  match copyOptions (argv.drop 3) false with
  | .error e => pure e
  | .ok replace => do
    if src = dst then return error (ascii "source and destination objects are the same")
    else
      match ← StoreM.getWithTTL ctx.now src with
      | none => return integer 0
      | some e =>
      if !replace && (← StoreM.has ctx.now dst) then return integer 0
      else
        match deepCopy e.val with
        | .error reply => return reply
        | .ok dup =>
          storeWithTTL ctx dst dup e.expireAt
          return integer 1

/-! ## LMOVE -/

inductive ListEnd
  | left
  | right
deriving DecidableEq, Repr

def listEnd? (word : Bytes) : Option ListEnd :=
  if word = ascii "LEFT" then some .left else if word = ascii "RIGHT" then some .right else none

/-- `LPop` and `RPop`. -/
def popEnd : ListEnd → List Bytes → Option (Bytes × List Bytes)
  | .left, items => items.head?.map fun v => (v, items.tail)
  | .right, items => items.getLast?.map fun v => (v, items.dropLast)

/-- `LPush` and `RPush`. -/
def pushEnd (val : Bytes) : ListEnd → List Bytes → List Bytes
  | .left, items => val :: items
  | .right, items => items ++ [val]

/-- `lmoveGeneric` after the check of the two words. -/
def moveElement (src dst : Bytes) (source target : ListEnd) : StoreM Bytes := do
  match ← getView listOf ctx src with
  | .error e => return e
  | .ok none => return nullBulkString
  | .ok (some items) =>
  if ← holdsOther listOf ctx dst then return wrongType
  else
    match popEnd source items with
    | none => return nullBulkString
    | some (val, rest) =>
    takeFrom ctx src (.list rest) (rest = [])
    match ← getOrCreateView listOf ctx dst .list [] with
    | .error e => return e
    | .ok items =>
      addTo ctx dst (.list items) (.list (pushEnd val target items))
      return bulkString val

def lmoveGeneric (src dst source target : Bytes) : StoreM Bytes :=
  match listEnd? source, listEnd? target with
  | some source, some target => moveElement ctx src dst source target
  | _, _ => pure syntaxError

def lmoveCommand : StoreM Bytes :=
  lmoveGeneric ctx (argv.getD 1 []) (argv.getD 2 []) (toUpper (argv.getD 3 [])) (toUpper (argv.getD 4 []))

def rpoplpushCommand : StoreM Bytes :=
  lmoveGeneric ctx (argv.getD 1 []) (argv.getD 2 []) (ascii "RIGHT") (ascii "LEFT")

/-! ## Sets -/

def smoveCommand : StoreM Bytes := do
  let src := argv.getD 1 []
  let dst := argv.getD 2 []
  let member := argv.getD 3 []
  match ← getView setOf ctx src with
  | .error e => return e
  | .ok members =>
  if ← holdsOther setOf ctx dst then return wrongType
  else
    match members with
    | none => return integer 0
    | some members =>
    if member ∉ members then return integer 0
    else
      let rest := members.erase member
      takeFrom ctx src (.set rest) (rest = [])
      match ← getOrCreateView setOf ctx dst .set [] with
      | .error e => return e
      | .ok members =>
        addTo ctx dst (.set members) (.set (setAdd members member))
        return integer 1

inductive SetOp
  | inter
  | union
  | diff
deriving DecidableEq, Repr

/-- The sets at the keys, in their order; the first key of another type ends it. -/
def getSets (ctx : StoreContext) : List Bytes → StoreM (Except Bytes (List (Option (List Bytes))))
  | [] => pure (.ok [])
  | key :: keys => do
    match ← getView setOf ctx key with
    | .error e => return .error e
    | .ok members =>
      match ← getSets ctx keys with
      | .error e => return .error e
      | .ok sets => return .ok (members :: sets)

/-- `setOp` on the sets it has read, without a limit; an absent key is `none`. -/
def SetOp.eval : SetOp → List (Option (List Bytes)) → List Bytes
  | .inter, some first :: others => first.filter fun m => others.all fun o => o.any fun ms => m ∈ ms
  | .union, sets => sets.foldl (fun out s => (s.getD []).foldl setAdd out) []
  | .diff, some first :: others => first.filter fun m => others.all fun o => o.all fun ms => m ∉ ms
  | _, _ => []

variable (op : SetOp)

def storeOp (ctx : StoreContext) (argv : Argv) : StoreM Bytes := do
  let dst := argv.getD 1 []
  match ← getSets ctx (argv.drop 2) with
  | .error e => return e
  | .ok sets =>
  let members := op.eval sets
  let _ ← StoreM.del ctx.now dst
  if members = [] then return integer 0
  else
    match ← getOrCreateView setOf ctx dst .set [] with
    | .error e => return e
    | .ok old =>
      addTo ctx dst (.set old) (.set (members.foldl setAdd old))
      return integer members.length

def sinterstoreCommand : StoreContext → Argv → StoreM Bytes := storeOp .inter

def sunionstoreCommand : StoreContext → Argv → StoreM Bytes := storeOp .union

def sdiffstoreCommand : StoreContext → Argv → StoreM Bytes := storeOp .diff

/-! ## Which keys they change in place -/

section
variable {α : Type} {view : Value → Option α} {ctx : StoreContext} {key k src dst : Bytes} {argv : Argv}

open StoreM

lemma getView_loud : Loud k (getView view ctx key) := by
  refine loud_get.bind fun v => ?_
  cases v <;> exact loud_pure _

lemma holdsOther_loud : Loud k (holdsOther view ctx key) := by
  refine loud_get.bind fun v => ?_
  cases v <;> exact loud_pure _

lemma getOrCreateView_loud {wrap : α → Value} {empty : α} : Loud k (getOrCreateView view ctx key wrap empty) := by
  refine loud_get.bind fun v => ?_
  cases v with
  | none => exact loud_set.bind fun _ => loud_pure _
  | some v => exact loud_pure _

variable {a' : Value}

lemma addTo_loud {a : Value} (h : key ≠ k) : Loud k (addTo ctx key a a') := by
  unfold addTo
  split_ifs
  · exact loud_setKeepTTL.bind fun _ => loud_mutate h
  · exact loud_mutate h

lemma takeFrom_loud {last : Bool} (h : key ≠ k) : Loud k (takeFrom ctx key a' last) := by
  refine (loud_mutate h).bind fun _ => ?_
  split_ifs
  · exact loud_del.bind fun _ => loud_pure _
  · exact loud_pure _

lemma storeWithTTL_loud {val : Value} {expireAt : Int} : Loud k (storeWithTTL ctx key val expireAt) := by
  refine loud_set.bind fun _ => ?_
  split_ifs
  · exact loud_setExpireAt.bind fun _ => loud_pure _
  · exact loud_pure _

lemma renameGeneric_loud {failIfExists : Bool} : Loud k (renameGeneric ctx src dst failIfExists) := by
  by_cases h : src = dst
  · rw [renameGeneric, if_pos h]
    refine loud_has.bind fun b => ?_
    cases b <;> exact loud_pure _
  rw [renameGeneric, if_neg h]
  refine loud_getWithTTL.bind fun e => ?_
  cases e with
  | none => exact loud_pure _
  | some e =>
    refine loud_has.bind fun b => ?_
    cases failIfExists && b with
    | true => exact loud_pure _
    | false => exact storeWithTTL_loud.bind fun _ => loud_del.bind fun _ => loud_pure _

lemma copyCommand_loud : Loud k (copyCommand ctx argv) := by
  unfold copyCommand
  cases copyOptions (argv.drop 3) false with
  | error e => exact loud_pure _
  | ok replace =>
  by_cases h : argv.getD 1 [] = argv.getD 2 []
  · simp only [if_pos h]
    exact loud_pure _
  simp only [if_neg h]
  refine loud_getWithTTL.bind fun e => ?_
  cases e with
  | none => exact loud_pure _
  | some e =>
  refine loud_has.bind fun b => ?_
  cases !replace && b with
  | true => exact loud_pure _
  | false =>
    cases deepCopy e.val with
    | error reply => exact loud_pure _
    | ok dup => exact storeWithTTL_loud.bind fun _ => loud_pure _

lemma getSets_loud : ∀ keys : List Bytes, Loud k (getSets ctx keys)
  | [] => loud_pure _
  | key :: keys => by
    refine getView_loud.bind fun r => ?_
    cases r with
    | error e => exact loud_pure _
    | ok members =>
      refine (getSets_loud keys).bind fun r => ?_
      cases r <;> exact loud_pure _

/-! ### A change in place comes with a reply that is no error -/

/-- If the computation changes anything in place, its reply is no error. -/
def Succeeds (m : StoreM Bytes) (db : Keyspace) : Prop :=
  (∃ o ∈ (m db).2, ∃ k, o.silentOn k = true) → succeeded (m db).1 = true

lemma succeeds_pure (reply : Bytes) (db : Keyspace) : Succeeds (pure reply) db :=
  fun ⟨_, ho, _⟩ => absurd ho List.not_mem_nil

variable {db : Keyspace}

lemma Succeeds.bind {m : StoreM α} {f : α → StoreM Bytes} (hm : ∀ k, Loud k m)
    (hf : Succeeds (f (m db).1) (applyAll db (m db).2)) : Succeeds (m >>= f) db := by
  rintro ⟨o, ho, k, hk⟩
  obtain ho | ho := List.mem_append.1 ho
  · rw [hm k db o ho] at hk
    cases hk
  · exact hf ⟨o, ho, k, hk⟩

/-- What the key holds, if anything, is a collection of the right type. -/
def Holds (view : Value → Option α) (now : Clock) (key : Bytes) (db : Keyspace) : Prop :=
  ∀ e, db.live key now.ms = some e → (view e.val).isSome = true

variable {now : Clock}

lemma holds_of_lookup (h : ∀ e, db.lookup key = some e → (view e.val).isSome = true) :
    Holds view now key db := fun e he => h e (lookup_of_live he)

lemma holds_of_holdsOther (h : (holdsOther view ctx key db).1 = false) :
    Holds view ctx.now key (applyAll db (holdsOther view ctx key db).2) := by
  obtain ⟨hv, hb⟩ := get_live ctx.now key db
  cases hl : db.live key ctx.now.ms with
  | none =>
    rw [hl] at hv hb
    simp only [holdsOther, bind_apply, hv, Option.map_none, pure_apply, List.append_nil]
    exact holds_of_lookup fun e he => by rw [hb.at_key] at he; cases he
  | some e =>
  rw [hl] at hv hb
  simp only [holdsOther, bind_apply, hv, Option.map_some, pure_apply, List.append_nil] at h ⊢
  refine holds_of_lookup fun e' he' => ?_
  rw [hb.at_key] at he'
  cases he'
  rwa [Option.isNone_eq_false_iff] at h

lemma getOrCreateView_ok (wrap : α → Value) (empty : α) (h : Holds view ctx.now key db) :
    ∃ a, (getOrCreateView view ctx key wrap empty db).1 = .ok a := by
  obtain ⟨hv, -⟩ := get_live ctx.now key db
  cases hl : db.live key ctx.now.ms with
  | none =>
    rw [hl] at hv
    exact ⟨empty, by simp [getOrCreateView, bind_apply, hv, Option.map_none, pure_apply]⟩
  | some e =>
    rw [hl] at hv
    obtain ⟨a, ha⟩ := Option.isSome_iff_exists.1 (h e hl)
    exact ⟨a, by simp [getOrCreateView, bind_apply, hv, Option.map_some, pure_apply, ha, Option.elim_some]⟩

lemma holds_mutate (ha : (view a').isSome = true)
    (h : Holds view now dst db) : Holds view now dst ((DBOp.mutate src a').apply db) := by
  simp only [DBOp.apply]
  cases db.lookup src with
  | none => exact h
  | some e =>
  by_cases hd : dst = src
  · subst hd
    refine holds_of_lookup fun e' he' => ?_
    rw [Finmap.lookup_insert] at he'
    cases he'
    exact ha
  · intro e' he'
    rw [live_eq, Finmap.lookup_insert_of_ne _ hd] at he'
    exact h e' he'

lemma holds_del (src : Bytes) (h : Holds view now dst db) :
    Holds view now dst (applyAll db (StoreM.del now src db).2) := by
  have hb := del_becomes now src db
  by_cases hd : dst = src
  · subst hd
    exact holds_of_lookup fun e he => by rw [hb.at_key] at he; cases he
  intro e he
  rw [live_eq, hb.frame dst hd] at he
  exact h e he

lemma holds_takeFrom {last : Bool} (ha : (view a').isSome = true)
    (h : Holds view ctx.now dst db) : Holds view ctx.now dst (applyAll db (takeFrom ctx src a' last db).2) := by
  have h' : Holds view ctx.now dst ((DBOp.mutate src a').apply db) := holds_mutate ha h
  unfold takeFrom
  cases last with
  | false => exact h'
  | true =>
    have := holds_del src h'
    simpa [bind_apply, pure_apply, StoreM.perform] using this

variable (source target : ListEnd) (db : Keyspace)

lemma moveElement_succeeds : Succeeds (moveElement ctx src dst source target) db := by
  refine Succeeds.bind (fun _ => getView_loud) ?_
  rcases (getView listOf ctx src db).1 with e | _ | items
  · exact succeeds_pure _ _
  · exact succeeds_pure _ _
  generalize applyAll db (getView listOf ctx src db).2 = db
  refine Succeeds.bind (fun _ => holdsOther_loud) ?_
  cases hother : (holdsOther listOf ctx dst db).1 with
  | true => exact succeeds_pure _ _
  | false =>
  have hdst := holds_of_holdsOther hother
  generalize applyAll db (holdsOther listOf ctx dst db).2 = db at hdst ⊢
  rcases popEnd source items with _ | ⟨val, rest⟩
  · exact succeeds_pure _ _
  intro _
  have htake : Holds listOf ctx.now dst (applyAll db (takeFrom ctx src (.list rest) (rest = []) db).2) :=
    holds_takeFrom rfl hdst
  obtain ⟨a, hok⟩ := getOrCreateView_ok Value.list [] htake
  simp only [bind_apply, hok, Bool.false_eq_true, if_false]
  rfl

lemma lmoveGeneric_succeeds (source target : Bytes) (db : Keyspace) :
    Succeeds (lmoveGeneric ctx src dst source target) db := by
  unfold lmoveGeneric
  split
  · exact moveElement_succeeds _ _ db
  · exact succeeds_pure _ db

lemma smoveCommand_succeeds : Succeeds (smoveCommand ctx argv) db := by
  refine Succeeds.bind (fun _ => getView_loud) ?_
  rcases (getView setOf ctx (argv.getD 1 []) db).1 with e | members
  · exact succeeds_pure _ _
  generalize applyAll db (getView setOf ctx (argv.getD 1 []) db).2 = db
  refine Succeeds.bind (fun _ => holdsOther_loud) ?_
  cases hother : (holdsOther setOf ctx (argv.getD 2 []) db).1 with
  | true => exact succeeds_pure _ _
  | false =>
  have hdst := holds_of_holdsOther hother
  generalize applyAll db (holdsOther setOf ctx (argv.getD 2 []) db).2 = db at hdst ⊢
  cases members with
  | none => exact succeeds_pure _ _
  | some members =>
  simp only [Bool.false_eq_true, if_false]
  by_cases hm : argv.getD 3 [] ∉ members
  · rw [if_pos hm]
    exact succeeds_pure _ _
  rw [if_neg hm]
  intro _
  have htake : Holds setOf ctx.now (argv.getD 2 []) (applyAll db (takeFrom ctx (argv.getD 1 [])
      (.set (members.erase (argv.getD 3 []))) (members.erase (argv.getD 3 []) = []) db).2) :=
    holds_takeFrom rfl hdst
  obtain ⟨a, hok⟩ := getOrCreateView_ok Value.set [] htake
  simp only [bind_apply, hok]
  rfl

lemma storeOp_succeeds : Succeeds (storeOp op ctx argv) db := by
  refine Succeeds.bind (fun _ => getSets_loud _) ?_
  rcases (getSets ctx (argv.drop 2) db).1 with e | sets
  · exact succeeds_pure _ _
  generalize applyAll db (getSets ctx (argv.drop 2) db).2 = db
  refine Succeeds.bind (fun _ => loud_del) ?_
  split_ifs
  · exact succeeds_pure _ _
  intro _
  have hb := del_becomes ctx.now (argv.getD 1 []) db
  have hdst : Holds setOf ctx.now (argv.getD 1 []) (applyAll db (StoreM.del ctx.now (argv.getD 1 []) db).2) :=
    holds_of_lookup fun e he => by rw [hb.at_key] at he; cases he
  obtain ⟨a, hok⟩ := getOrCreateView_ok Value.set [] hdst
  simp only [bind_apply, hok]
  rfl

lemma moveElement_loud (hs : src ≠ k) (hd : dst ≠ k) : Loud k (moveElement ctx src dst source target) := by
  refine getView_loud.bind fun r => ?_
  rcases r with e | _ | items
  · exact loud_pure _
  · exact loud_pure _
  refine holdsOther_loud.bind fun b => ?_
  cases b with
  | true => exact loud_pure _
  | false =>
  rcases popEnd source items with _ | ⟨val, rest⟩
  · exact loud_pure _
  refine (takeFrom_loud hs).bind fun _ => getOrCreateView_loud.bind fun r => ?_
  cases r with
  | error e => exact loud_pure _
  | ok items => exact (addTo_loud hd).bind fun _ => loud_pure _

lemma lmoveGeneric_loud (source target : Bytes) (hs : src ≠ k) (hd : dst ≠ k) :
    Loud k (lmoveGeneric ctx src dst source target) := by
  unfold lmoveGeneric
  split
  · exact moveElement_loud _ _ hs hd
  · exact loud_pure _

lemma smoveCommand_loud (hs : argv.getD 1 [] ≠ k) (hd : argv.getD 2 [] ≠ k) : Loud k (smoveCommand ctx argv) := by
  refine getView_loud.bind fun r => ?_
  rcases r with e | members
  · exact loud_pure _
  refine holdsOther_loud.bind fun b => ?_
  cases b with
  | true => exact loud_pure _
  | false =>
  cases members with
  | none => exact loud_pure _
  | some members =>
  simp only [Bool.false_eq_true, if_false]
  by_cases hm : argv.getD 3 [] ∉ members
  · rw [if_pos hm]
    exact loud_pure _
  rw [if_neg hm]
  refine (takeFrom_loud hs).bind fun _ => getOrCreateView_loud.bind fun r => ?_
  cases r with
  | error e => exact loud_pure _
  | ok items => exact (addTo_loud hd).bind fun _ => loud_pure _

lemma storeOp_loud (hd : argv.getD 1 [] ≠ k) : Loud k (storeOp op ctx argv) := by
  refine (getSets_loud _).bind fun r => ?_
  rcases r with e | sets
  · exact loud_pure _
  refine loud_del.bind fun _ => ?_
  split_ifs
  · exact loud_pure _
  refine getOrCreateView_loud.bind fun r => ?_
  cases r with
  | error e => exact loud_pure _
  | ok old => exact (addTo_loud hd).bind fun _ => loud_pure _

end

end Gopherdis.Command

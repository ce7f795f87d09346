/-
The commands on keys, and `SORT`: deletion, deadlines, renaming, copying, restoring and flushing. A
renamed key has the same object, which counts twice while both keys have it.
-/
import Gopherdis.Encoded.SortedSets
import Gopherdis.Encoded.Strings

namespace Gopherdis.Encoded

open Lib Codec Object Store Command MemM

variable (S : Settings) (c : Call)

/-! ## Deletion -/

def delAll : List Bytes → MemM S.E Int
  | [] => return 0
  | key :: keys => do
    let done ← del c.now key
    let count ← delAll keys
    return (if done then 1 else 0) + count

variable (argv : Argv)

def delCommand : MemM S.E Bytes := do
  let count ← delAll S c (argv.drop 1)
  return integer count

def unlinkCommand : Argv → MemM S.E Bytes := delCommand S c

def flushdbCommand (_ : Call) (_ : Argv) : MemM S.E Bytes := do
  Traced.perform .flushAll
  return ok

/-! ## Deadlines -/

/-- The options of an `EXPIRE` and the deadline it asks for, or the error. -/
def expireArgs (x : ExpireOpt) (cmd : String) (argv : Argv) : Except Bytes (ExpireOpts × Int) :=
  match parseInt (argv.getD 2 []) with
  | none => .error notAnInteger
  | some n =>
  match expireOptions (argv.drop 3) {} with
  | .error e => .error e
  | .ok o =>
    if (o.gt ∧ o.lt) ∨ (o.nx ∧ (o.xx ∨ o.gt ∨ o.lt)) then
      .error (error (ascii "NX and XX, GT or LT options at the same time are not compatible"))
    else if ¬ x.inRange n then .error (invalidExpire cmd)
    else .ok (o, x.absMs c.now.ms n)

def expireGeneric (x : ExpireOpt) (cmd : String) (argv : Argv) : MemM S.E Bytes :=
  let key := argv.getD 1 []
  match expireArgs c x cmd argv with
  | .error e => pure e
  | .ok (o, absMs) => do
    if ← has c.now key then
      let (d, code) ← ttl c.now key
      if o.refuses (if code = 0 then c.now.ms + d.tdiv (10 ^ 6) else 0) absMs then return integer 0
      else
        let done ← setExpireAt c.now key absMs
        return integer (if done then 1 else 0)
    else return integer 0

def expireCommand : Argv → MemM S.E Bytes := expireGeneric S c .ex "expire"

def pexpireCommand : Argv → MemM S.E Bytes := expireGeneric S c .px "pexpire"

def expireatCommand : Argv → MemM S.E Bytes := expireGeneric S c .exat "expireat"

def pexpireatCommand : Argv → MemM S.E Bytes := expireGeneric S c .pxat "pexpireat"

def persistCommand : MemM S.E Bytes := do
  let done ← persist c.now (argv.getD 1 [])
  return integer (if done then 1 else 0)

/-! ## RENAME and COPY -/

def storeWithTTL (key : Bytes) (obj : Robj) (expireAt : Int) : MemM S.E Unit := do
  let _ ← set S.server key obj
  if 0 < expireAt then
    let _ ← setExpireAt c.now key expireAt

def renameGeneric (src dst : Bytes) (failIfExists : Bool) : MemM S.E Bytes := do
  if src = dst then
    if ← has c.now src then return if failIfExists then integer 0 else ok
    else return noSuchKey
  else
    match ← getWithTTL c.now src with
    | none => return noSuchKey
    | some (obj, expireAt) =>
    let taken ← has c.now dst
    if failIfExists && taken then return integer 0
    else
      storeWithTTL S c dst obj expireAt
      let _ ← del c.now src
      return if failIfExists then integer 1 else ok

def renameCommand : MemM S.E Bytes := renameGeneric S c (argv.getD 1 []) (argv.getD 2 []) false

def renamenxCommand : MemM S.E Bytes := renameGeneric S c (argv.getD 1 []) (argv.getD 2 []) true

/-- `deepCopy`: a string is encoded again, a collection keeps its encoding. -/
def copyObject (o : Robj) : Except Bytes Robj :=
  match stringOf o.val with
  | some b => .ok (tryEncodeString b)
  | none => (deepCopy o.val).map fun val => ⟨val, o.enc⟩

def copyCommand : MemM S.E Bytes :=
  let src := argv.getD 1 []
  let dst := argv.getD 2 []
  match copyOptions (argv.drop 3) false with
  | .error e => pure e
  | .ok replace =>
  if src = dst then pure (error (ascii "source and destination objects are the same"))
  else do
    match ← getWithTTL c.now src with
    | none => return integer 0
    | some (obj, expireAt) =>
    let taken ← has c.now dst
    if !replace && taken then return integer 0
    else
      match copyObject obj with
      | .error e => return e
      | .ok dup =>
        storeWithTTL S c dst dup expireAt
        return integer 1

/-! ## RESTORE -/

/-- The snapshot in the payload, the time to live and the options, or the error. -/
def restoreArgs : Except Bytes (Bytes × Int × RestoreOpts) :=
  match parseInt (argv.getD 2 []) with
  | none => .error notAnInteger
  | some ttlMs =>
  if ttlMs < 0 then .error (error (ascii "Invalid TTL value, must be >= 0"))
  else
    match restoreOptions (argv.drop 4) {} with
    | .error e => .error e
    | .ok o =>
      match dumpBody (argv.getD 3 []) with
      | none => .error (error (ascii "DUMP payload version or checksum are wrong"))
      | some body => .ok (body, ttlMs, o)

def outOfMemory : Bytes := error (ascii "OOM command not allowed when used memory > 'maxmemory'")

/-- The only handler that looks at whether its value was refused. -/
def restoreCommand : MemM S.E Bytes :=
  let key := argv.getD 1 []
  match restoreArgs argv with
  | .error e => pure e
  | .ok (body, ttlMs, o) => do
    let taken ← has c.now key
    if !o.replace && taken then return error (ascii "BUSYKEY Target key name already exists.")
    else
      match restoredValue S.E c.now body with
      | none => return badDataFormat
      | some v =>
      if ← set S.server key (loadedObject S.E S.server.listMaxListpackSize v) then
        if 0 < ttlMs then
          let _ ← if o.absTTL then setExpireAt c.now key ttlMs
            else setExpire c.now key (wrap64 (ttlMs * 10 ^ 6))
        return ok
      else return outOfMemory

/-! ## SORT -/

structure SortOpts where
  desc : Bool := false
  alpha : Bool := false
  byPat : Bytes := []
  getPats : List Bytes := []
  storeKey : Bytes := []
  limit : Option (Int × Int) := none

def sortOptions : List Bytes → SortOpts → Except Bytes SortOpts
  | [], o => .ok o
  | word :: rest, o =>
    let opt := toUpper word
    if opt = ascii "ASC" then sortOptions rest { o with desc := false }
    else if opt = ascii "DESC" then sortOptions rest { o with desc := true }
    else if opt = ascii "ALPHA" then sortOptions rest { o with alpha := true }
    else if opt = ascii "BY" ∨ opt = ascii "GET" ∨ opt = ascii "STORE" then
      match rest with
      | [] => .error syntaxError
      | arg :: rest =>
        if opt = ascii "BY" then sortOptions rest { o with byPat := arg }
        else if opt = ascii "GET" then sortOptions rest { o with getPats := o.getPats ++ [arg] }
        else sortOptions rest { o with storeKey := arg }
    else if opt = ascii "LIMIT" then
      match rest with
      | offset :: count :: rest =>
        match parseInt offset, parseInt count with
        | some offset, some count => sortOptions rest { o with limit := some (offset, count) }
        | _, _ => .error notAnInteger
      | _ => .error syntaxError
    else .error syntaxError

/-- The first `*` replaced by the element. -/
def substituteStar (element : Bytes) : Bytes → Bytes
  | [] => []
  | b :: pattern => if b = 42 then element ++ pattern else b :: substituteStar element pattern

/-- What stands before the first `->` and after it. -/
def splitArrow : Bytes → Option (Bytes × Bytes)
  | [] => none
  | b :: rest =>
    if b = 45 ∧ rest.head? = some 62 then some ([], rest.drop 1)
    else (splitArrow rest).map fun p => (b :: p.1, p.2)

def lookupPattern (pattern element : Bytes) : MemM S.E (Option Bytes) :=
  if pattern = ascii "#" then pure (some element)
  else if 42 ∉ pattern then pure none
  else
    match splitArrow (substituteStar element pattern) with
    | some (key, field) => do
      match ← getView hashKind S c key with
      | .ok (some w) => return hashGet w.held.items field
      | _ => return none
    | none => do
      let o ← get c.now (substituteStar element pattern)
      return o.bind fun o => stringOf o.val

def lookupAll (pattern : Bytes) : List Bytes → MemM S.E (List (Option Bytes))
  | [] => return []
  | element :: elements => do
    let v ← lookupPattern S c pattern element
    let vs ← lookupAll pattern elements
    return v :: vs

def sortSource (o : Robj) : Option (List Bytes) :=
  match o.val with
  | .list items => some items
  | .set ms => some (c.walk ms)
  | .zset es => some (es.map Prod.fst)
  | _ => none

/-- The numbers the elements are sorted by: a missing weight counts as zero. -/
def sortNumbers (weights : List (Option Bytes)) : Option (List Score) :=
  weights.mapM fun w =>
    match w with
    | none => some S.out.zero
    | some w => if (S.E.parseFloat (S.out.trimSpace w)).2 then some (S.E.parseFloat (S.out.trimSpace w)).1 else none

/-- The elements in the order of their weights, stable, elements of one number in their own order. -/
def sortByWeights (o : SortOpts) (elements : List Bytes) (weights : List (Option Bytes)) : Option (List Bytes) :=
  if o.alpha then
    let le (a b : Bytes × Option Bytes) : Bool :=
      if o.desc then b.2.getD [] ≤ a.2.getD [] else a.2.getD [] ≤ b.2.getD []
    some (((elements.zip weights).mergeSort le).map Prod.fst)
  else
    (sortNumbers S weights).map fun nums =>
      let le (a b : Bytes × Score) : Bool :=
        if S.E.scoreEq a.2 b.2 then a.1 ≤ b.1 else if o.desc then S.E.scoreLt b.2 a.2 else S.E.scoreLt a.2 b.2
      ((elements.zip nums).mergeSort le).map Prod.fst

/-- The elements in order, where the pattern asks for one. -/
def sortElements (o : SortOpts) (elements : List Bytes) : MemM S.E (Option (List Bytes)) :=
  if o.byPat ≠ [] ∧ 42 ∉ o.byPat then pure (some elements)
  else if o.byPat = [] then pure (sortByWeights S o elements (elements.map some))
  else if o.alpha ∧ elements.length < 2 then pure (some elements)
  else do
    let weights ← lookupAll S c o.byPat elements
    return sortByWeights S o elements weights

/-- A negative offset counts as zero. -/
def sortLimited (limit : Option (Int × Int)) (elements : List Bytes) : List Bytes :=
  limited (limit.map fun l => (max l.1 0, l.2)) elements

/-- What is put out for each element: itself, or what the patterns lead to. -/
def sortOutput (getPats : List Bytes) : List Bytes → MemM S.E (List (Option Bytes))
  | [] => return []
  | element :: elements => do
    let vs ← if getPats = [] then pure [some element] else getPats.mapM fun p => lookupPattern S c p element
    let rest ← sortOutput getPats elements
    return vs ++ rest

/-- What was put out becomes a quicklist, or the reply. -/
def sortReply (storeKey : Bytes) (out : List (Option Bytes)) : MemM S.E Bytes := do
  if storeKey = [] then return array (out.map fun v => v.elim nullBulkString bulkString)
  else if out.isEmpty then
    let _ ← del c.now storeKey
    return integer 0
  else
    let _ ← set S.server storeKey ⟨.list (out.map fun v => v.getD []), .quicklist⟩
    return integer out.length

def sortCommand : MemM S.E Bytes :=
  match sortOptions (argv.drop 2) {} with
  | .error e => pure e
  | .ok o => do
    match (← get c.now (argv.getD 1 [])).elim (some []) (sortSource c) with
    | none => return wrongType
    | some elements =>
    match ← sortElements S c o elements with
    | none => return error (ascii "One or more scores can't be converted into double")
    | some elements =>
      let out ← sortOutput S c o.getPats (sortLimited o.limit elements)
      sortReply S c o.storeKey out

end Gopherdis.Encoded

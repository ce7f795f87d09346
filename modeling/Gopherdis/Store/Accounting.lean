/-
The keyspace with its memory accounting: objects with their encodings, deadlines in a map of their own,
and `usedMemory`, which every operation but a change made through the pointer keeps up to date. Under a
limit a value that is stored may first have other keys evicted, and it may be refused.
-/
import Gopherdis.Lib.Trace
import Gopherdis.Object.Encoding
import Gopherdis.Store.Operations

namespace Gopherdis.Store

open Lib Object Option Finmap

/-- An object and its entry in `expires`, where zero stands for no deadline as well. -/
structure Slot where
  obj : Robj
  exp : Option Int
deriving DecidableEq, Repr

def Slot.expired (s : Slot) (ms : Int) : Bool := s.exp.any fun e => e ≠ 0 && e ≤ ms

/-- What is stored, the memory it is taken to use, and the number of keys sampled for eviction so far. -/
structure MemDB where
  entries : Finmap fun _ : Bytes => Slot
  used : Int
  draws : Nat

namespace MemDB

def empty : MemDB := ⟨∅, 0, 0⟩

variable (db : MemDB)

def lookup (key : Bytes) : Option Slot := db.entries.lookup key

def live (key : Bytes) (ms : Int) : Option Slot := (db.lookup key).filter fun s => !s.expired ms

def isExpired (now : Clock) (key : Bytes) : Bool := (db.lookup key).any fun s => s.expired now.ms

end MemDB

/-! ## Operations -/

/-- `put` is `Set` and `SetWithExpire`, `publish` is `SetKeepTTL`, `expire` changes the deadline alone,
`remove` is `Del`, the reclaiming of a key past its deadline and its eviction, `edit` is a change made
through the pointer, and `draw` the sampling of a key to evict. -/
inductive MemOp
  | put (key : Bytes) (slot : Slot)
  | publish (key : Bytes) (obj : Robj)
  | expire (key : Bytes) (exp : Option Int)
  | remove (key : Bytes)
  | edit (key : Bytes) (obj : Robj)
  | draw
  | flushAll
deriving DecidableEq

variable (E : Env) (db : MemDB)

def MemDB.sizeAt (key : Bytes) : Int :=
  (db.lookup key).elim 0 fun s => estimateObjectSize E key s.obj

/-- The old object is counted out and the new one in. -/
def MemDB.replace (key : Bytes) (slot : Slot) : MemDB :=
  { db with
    entries := db.entries.insert key slot
    used := db.used - db.sizeAt E key + estimateObjectSize E key slot.obj }

def MemOp.apply : MemOp → MemDB
  | put key slot => db.replace E key slot
  | publish key obj => db.replace E key ⟨obj, (db.lookup key).bind Slot.exp⟩
  | expire key exp =>
    match db.lookup key with
    | none => db
    | some s => { db with entries := db.entries.insert key { s with exp } }
  | remove key => { db with entries := db.entries.erase key, used := db.used - db.sizeAt E key }
  | edit key obj =>
    match db.lookup key with
    | none => db
    | some s => { db with entries := db.entries.insert key { s with obj } }
  | draw => { db with draws := db.draws + 1 }
  | flushAll => { db with entries := ∅, used := 0 }

/-- A handler, as the operations it performs. -/
abbrev MemM (α : Type) : Type := Traced (MemOp.apply E) α

/-! ## Eviction -/

inductive EvictionPolicy
  | noEviction
  | allKeysLRU
  | volatileLRU
  | allKeysRandom
  | volatileRandom
  | volatileTTL
deriving DecidableEq, Repr

/-- Only keys with a deadline are evicted. -/
def EvictionPolicy.isVolatile : EvictionPolicy → Bool
  | volatileLRU | volatileRandom | volatileTTL => true
  | noEviction | allKeysLRU | allKeysRandom => false

/-- The memory settings, and the key the sampling comes to each time, if any. -/
structure Server where
  maxMemory : Int := 0
  policy : EvictionPolicy := .noEviction
  pick : Nat → Option Bytes := fun _ => none
  listMaxListpackSize : Int := -2

/-- A key that may be sampled: the empty one stands for none found. -/
def Server.evictable (sv : Server) (db : MemDB) (key : Bytes) : Bool :=
  key ≠ [] && (db.lookup key).any fun s => !sv.policy.isVolatile || s.exp.isSome

namespace MemM

variable {E}

def usedMemory : MemM E Int := Traced.read MemDB.used

def sample (sv : Server) : MemM E (Option Bytes) := do
  let key ← Traced.read fun db => (sv.pick db.draws).filter (sv.evictable db)
  Traced.perform .draw
  return key

/-- The loop of `FreeMemoryIfNeeded`; every turn removes a key, so there are no more turns than keys. -/
def evictLoop (sv : Server) : Nat → MemM E Bool
  | 0 => return false
  | fuel + 1 => do
    let used ← usedMemory
    if used ≤ sv.maxMemory then return true
    else
      match ← sample sv with
      | none => return false
      | some key =>
        Traced.perform (.remove key)
        evictLoop sv fuel

/-- `FreeMemoryIfNeeded`, `false` for `ErrOOM`. -/
def freeMemoryIfNeeded (sv : Server) : MemM E Bool := do
  let used ← usedMemory
  if sv.maxMemory ≤ 0 ∨ used ≤ sv.maxMemory then return true
  else if sv.policy = .noEviction then return false
  else
    let turns ← Traced.read fun db => db.entries.keys.card + 1
    evictLoop sv turns

/-- The check of `Set` and `SetWithExpire` against the limit, `false` for `ErrOOM`. -/
def makeRoom (sv : Server) (size : Int) : MemM E Bool := do
  let used ← usedMemory
  if 0 < sv.maxMemory ∧ sv.maxMemory < used + size then
    if ← freeMemoryIfNeeded sv then
      let used ← usedMemory
      return !(decide (sv.maxMemory < used + size) && sv.policy = .noEviction)
    else return false
  else return true

/-! ## The methods of `ShardedDB` -/

variable (sv : Server) (now : Clock) (key : Bytes)

def get : MemM E (Option Robj) := do
  if ← Traced.read fun db => db.isExpired now key then
    Traced.perform (.remove key)
    return none
  else Traced.read fun db => (db.lookup key).map Slot.obj

/-- `GetWithTTL`: a key past its deadline stays in its place. -/
def getWithTTL : MemM E (Option (Robj × Int)) :=
  Traced.read fun db => (db.live key now.ms).map fun s => (s.obj, s.exp.getD 0)

/-- `Exists`. -/
def has : MemM E Bool := Traced.read fun db => (db.live key now.ms).isSome

variable (obj : Robj)

/-- A value stored with a deadline or without one, `false` if it was refused. -/
def store (exp : Option Int) : MemM E Bool := do
  if ← makeRoom sv (estimateObjectSize E key obj) then
    Traced.perform (.put key ⟨obj, exp⟩)
    return true
  else return false

def set : MemM E Bool := store sv key obj none

def setWithExpire (ttl : Int) : MemM E Bool := store sv key obj (some ((now.ns + ttl) / 10 ^ 6))

/-- `SetKeepTTL`, which looks at no limit. -/
def setKeepTTL : MemM E Unit := Traced.perform (.publish key obj)

def setExpireAt (exp : Int) : MemM E Bool := do
  if ← Traced.read fun db => db.isExpired now key then
    Traced.perform (.remove key)
    return false
  else if ← Traced.read fun db => (db.lookup key).isSome then
    Traced.perform (.expire key (some exp))
    return true
  else return false

def setExpire (ttl : Int) : MemM E Bool := setExpireAt now key (wrap64 (now.ms + ttl.tdiv (10 ^ 6)))

def del : MemM E Bool := do
  if ← Traced.read fun db => db.isExpired now key then
    Traced.perform (.remove key)
    return false
  else if ← Traced.read fun db => (db.lookup key).isSome then
    Traced.perform (.remove key)
    return true
  else return false

def persist : MemM E Bool := do
  if ← Traced.read fun db => (db.live key now.ms).any fun s => s.exp.any fun e => e ≠ 0 then
    Traced.perform (.expire key none)
    return true
  else return false

/-- `TTL`: the duration left, in nanoseconds, if the code is zero. -/
def ttl : MemM E (Int × Int) :=
  Traced.read fun db =>
    match db.live key now.ms with
    | none => (0, -2)
    | some s =>
      if s.exp.getD 0 = 0 then (0, -1)
      else if s.exp.getD 0 - now.ms < 0 then (0, -2)
      else (wrap64 ((s.exp.getD 0 - now.ms) * 10 ^ 6), 0)

end MemM

/-! ## What the operations leave -/

section
variable {E} {db db' db'' : MemDB} {key k : Bytes} {now : Clock}

lemma MemDB.live_eq_some {s : Slot} {ms : Int} :
    db.live key ms = some s ↔ db.lookup key = some s ∧ s.expired ms = false := by
  rw [MemDB.live, filter_eq_some_iff]
  simp

@[simp] lemma replace_lookup_self (db : MemDB) (key : Bytes) (slot : Slot) :
    (db.replace E key slot).lookup key = some slot := lookup_insert _

lemma replace_lookup_ne (slot : Slot) (h : k ≠ key) : (db.replace E key slot).lookup k = db.lookup k :=
  lookup_insert_of_ne _ h

@[simp] lemma remove_lookup_self (db : MemDB) (key : Bytes) : ((MemOp.remove key).apply E db).lookup key = none :=
  lookup_erase ..

lemma remove_lookup_ne (h : k ≠ key) : ((MemOp.remove key).apply E db).lookup k = db.lookup k :=
  lookup_erase_ne h

/-- Some keys may be gone. -/
def Thinned (db db' : MemDB) : Prop := ∀ k, db'.lookup k = db.lookup k ∨ db'.lookup k = none

lemma Thinned.refl (db : MemDB) : Thinned db db := fun _ => .inl rfl

lemma Thinned.trans (h : Thinned db db') (h' : Thinned db' db'') : Thinned db db'' := by
  intro k
  rcases h' k with h1 | h1
  · rw [h1]
    exact h k
  · exact .inr h1

lemma thinned_remove (db : MemDB) (key : Bytes) : Thinned db ((MemOp.remove key).apply E db) := by
  intro k
  by_cases hk : k = key
  · rw [hk]
    exact .inr (remove_lookup_self db key)
  · exact .inl (remove_lookup_ne hk)

/-- The key alone may differ, and holds `s`. -/
structure Leaves (db : MemDB) (key : Bytes) (db' : MemDB) (s : Option Slot) : Prop where
  here : db'.lookup key = s
  frame : ∀ k, k ≠ key → db'.lookup k = db.lookup k

lemma Leaves.refl (db : MemDB) (key : Bytes) : Leaves db key db (db.lookup key) := ⟨rfl, fun _ _ => rfl⟩

lemma Leaves.trans {s s' : Option Slot} (h : Leaves db key db' s) (h' : Leaves db' key db'' s') :
    Leaves db key db'' s' :=
  ⟨h'.here, fun k hk => (h'.frame k hk).trans (h.frame k hk)⟩

lemma leaves_replace (db : MemDB) (key : Bytes) (slot : Slot) : Leaves db key (db.replace E key slot) (some slot) :=
  ⟨replace_lookup_self db key slot, fun _ hk => replace_lookup_ne slot hk⟩

lemma leaves_remove (db : MemDB) (key : Bytes) : Leaves db key ((MemOp.remove key).apply E db) none :=
  ⟨remove_lookup_self db key, fun _ hk => remove_lookup_ne hk⟩

lemma leaves_insert (db : MemDB) (key : Bytes) (s : Slot) :
    Leaves db key { db with entries := db.entries.insert key s } (some s) :=
  ⟨lookup_insert _, fun _ hk => lookup_insert_of_ne _ hk⟩

lemma leaves_edit (db : MemDB) (key : Bytes) (obj : Robj) :
    Leaves db key ((MemOp.edit key obj).apply E db) ((db.lookup key).map fun s => { s with obj }) := by
  rw [MemOp.apply]
  cases h : db.lookup key with
  | none => exact ⟨h, fun _ _ => rfl⟩
  | some s => exact leaves_insert ..

lemma leaves_expire (db : MemDB) (key : Bytes) (exp : Option Int) :
    Leaves db key ((MemOp.expire key exp).apply E db) ((db.lookup key).map fun s => { s with exp }) := by
  rw [MemOp.apply]
  cases h : db.lookup key with
  | none => exact ⟨h, fun _ _ => rfl⟩
  | some s => exact leaves_insert ..

lemma live_of_isExpired (h : db.isExpired now key = true) : db.live key now.ms = none := by
  obtain ⟨s, hs, hx⟩ := (any_eq_true _ _).1 h
  rw [MemDB.live, hs, filter_some, hx]
  rfl

lemma live_of_not_isExpired (h : ¬ db.isExpired now key = true) : db.live key now.ms = db.lookup key := by
  rw [MemDB.isExpired] at h
  rw [MemDB.live]
  cases hs : db.lookup key with
  | none => rfl
  | some s =>
    rw [hs] at h
    simp only [any_some, Bool.not_eq_true] at h
    rw [filter_some, h]
    rfl

end

namespace MemM

open Traced

section
variable {E} {db : MemDB} {sv : Server} {now : Clock} {key : Bytes}

lemma ends_get : (get now key : MemM E _).Ends db fun r db' =>
    r = (db.live key now.ms).map Slot.obj ∧ Leaves db key db' (db.live key now.ms) := by
  refine ends_read_bind ?_
  by_cases h : db.isExpired now key = true
  · rw [if_pos h, live_of_isExpired h]
    exact ⟨rfl, leaves_remove db key⟩
  · rw [if_neg h, live_of_not_isExpired h]
    exact ⟨rfl, .refl db key⟩

lemma get_of_fresh (h : db.isExpired now key = false) :
    (get now key : MemM E _) db = ((db.lookup key).map Slot.obj, []) := by
  have hget : (get now key : MemM E _) db =
      (if db.isExpired now key then perform (.remove key) >>= fun _ => pure none
        else Traced.read fun db => (db.lookup key).map Slot.obj : MemM E _) db := rfl
  rw [hget, h]
  rfl

lemma ends_sample : (sample sv : MemM E _).Ends db fun _ => Thinned db := fun _ => .inl rfl

lemma evictLoop_thins : ∀ (fuel : Nat) (db : MemDB), (evictLoop sv fuel : MemM E _).Ends db fun _ => Thinned db
  | 0, db => .refl db
  | fuel + 1, db => by
    refine ends_read_bind ?_
    split_ifs
    · exact .refl db
    refine ends_sample.bind fun r db1 h₁ => ?_
    cases r with
    | none => exact h₁
    | some key =>
      exact (evictLoop_thins fuel _).mono fun _ _ h => (h₁.trans (thinned_remove db1 key)).trans h

lemma freeMemoryIfNeeded_thins : (freeMemoryIfNeeded sv : MemM E _).Ends db fun _ => Thinned db := by
  refine ends_read_bind ?_
  split_ifs
  · exact .refl db
  · exact .refl db
  · exact ends_read_bind (evictLoop_thins _ db)

lemma makeRoom_thins {size : Int} : (makeRoom sv size : MemM E _).Ends db fun _ => Thinned db := by
  refine ends_read_bind ?_
  split_ifs
  · refine freeMemoryIfNeeded_thins.bind fun r db1 h₁ => ?_
    cases r with
    | false => exact h₁
    | true => exact ends_read_bind h₁
  · exact .refl db

lemma ends_store {obj : Robj} {exp : Option Int} : (store sv key obj exp : MemM E _).Ends db fun stored db' =>
    (∀ k, k ≠ key → db'.lookup k = db.lookup k ∨ db'.lookup k = none) ∧
      if stored then db'.lookup key = some ⟨obj, exp⟩ else db'.lookup key = db.lookup key ∨ db'.lookup key = none := by
  refine makeRoom_thins.bind fun r db1 h₁ => ?_
  cases r with
  | false => exact ⟨fun k _ => h₁ k, h₁ key⟩
  | true =>
    refine ⟨fun k hk => ?_, replace_lookup_self db1 key _⟩
    rcases h₁ k with h | h
    · exact .inl ((replace_lookup_ne _ hk).trans h)
    · exact .inr ((replace_lookup_ne _ hk).trans h)

lemma ends_del : (del now key : MemM E _).Ends db fun _ db' => Leaves db key db' none := by
  refine ends_read_bind ?_
  split_ifs with h
  · exact leaves_remove db key
  refine ends_read_bind ?_
  split_ifs with hs
  · exact leaves_remove db key
  · exact ⟨not_isSome_iff_eq_none.1 hs, fun _ _ => rfl⟩

lemma ends_setExpireAt {exp : Int} : (setExpireAt now key exp : MemM E _).Ends db fun done db' =>
    done = (db.live key now.ms).isSome ∧
      Leaves db key db' ((db.live key now.ms).map fun s => { s with exp := some exp }) := by
  refine ends_read_bind ?_
  split_ifs with h
  · rw [live_of_isExpired h]
    exact ⟨rfl, leaves_remove db key⟩
  rw [live_of_not_isExpired h]
  refine ends_read_bind ?_
  split_ifs with hs
  · exact ⟨hs.symm, @leaves_expire E db key _⟩
  have hn := not_isSome_iff_eq_none.1 hs
  rw [hn]
  exact ⟨rfl, hn, fun _ _ => rfl⟩

lemma ends_persist : (persist now key : MemM E _).Ends db fun _ db' =>
    Leaves db key db' ((db.lookup key).map fun s => if s.expired now.ms then s else { s with exp := none }) ∨
      Leaves db key db' (db.lookup key) := by
  refine ends_read_bind ?_
  split_ifs with h
  · obtain ⟨s, hs, -⟩ := (any_eq_true _ _).1 h
    obtain ⟨hl, hx⟩ := MemDB.live_eq_some.1 hs
    have hexpire := leaves_expire (E := E) db key none
    refine .inl ⟨hexpire.here.trans ?_, hexpire.frame⟩
    rw [hl]
    simp [hx]
  · exact .inr (.refl db key)

end

end MemM

end Gopherdis.Store

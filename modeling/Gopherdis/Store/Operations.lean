/-
What a command does to the keyspace, one operation after the other, and which of the operations
`WATCH` gets to see. A value that is stored, replaced or removed counts the version of its key up; a
collection changed in place and a key that is evicted leave it alone. A handler is written as the
operations it performs, each decided by what it has read so far.
-/
import Gopherdis.Store.Keyspace
import Gopherdis.Store.Versions

namespace Gopherdis.Store

open Lib Object List

/-! ## Operations -/

/-- `put` stands for `Set`, `SetWithExpire`, `SetKeepTTL`, `SetExpireAt` and `Persist`; `remove` for `Del`
and the reclaiming of a key past its deadline; `mutate` for a change made through the pointer. -/
inductive DBOp
  | put (key : Bytes) (e : Entry)
  | remove (key : Bytes)
  | mutate (key : Bytes) (val : Value)
  | evict (key : Bytes)
  | flushAll
deriving DecidableEq

namespace DBOp

def apply (db : Keyspace) : DBOp → Keyspace
  | put key e => db.insert key e
  | remove key => db.erase key
  | mutate key val =>
    match db.lookup key with
    | none => db
    | some e => db.insert key { e with val }
  | evict key => db.erase key
  | flushAll => ∅

/-- What the operation does to the versions. -/
def count (db : Keyspace) (vs : Versions) : DBOp → Versions
  | put key _ | remove key => vs.bumpVersion key
  | mutate _ _ | evict _ => vs
  | flushAll =>
    if 0 < vs.watchers then
      { vs with version := fun key => if key ∈ db then vs.version key + 1 else vs.version key }
    else { vs with version := fun _ => 0 }

/-- The operation may change the key without a trace in its version. -/
def silentOn (key : Bytes) : DBOp → Bool
  | mutate k _ | evict k => k = key
  | put _ _ | remove _ | flushAll => false

end DBOp

variable (db : Keyspace)

def applyAll (ops : List DBOp) : Keyspace := ops.foldl DBOp.apply db

@[simp] lemma applyAll_nil : applyAll db [] = db := rfl

@[simp] lemma applyAll_cons (o : DBOp) (ops : List DBOp) :
    applyAll db (o :: ops) = applyAll (o.apply db) ops := rfl

structure VersionedDB where
  db : Keyspace
  versions : Versions

namespace VersionedDB

variable (s : VersionedDB)

def perform (o : DBOp) : VersionedDB := ⟨o.apply s.db, o.count s.db s.versions⟩

def performAll (ops : List DBOp) : VersionedDB := ops.foldl perform s

lemma performAll_cons (o : DBOp) (ops : List DBOp) :
    s.performAll (o :: ops) = (s.perform o).performAll ops := rfl

def touch (key : Bytes) : VersionedDB := { s with versions := s.versions.touch key }

end VersionedDB

open VersionedDB

/-! ## The trace an operation leaves -/

section
variable {s : VersionedDB} {key : Bytes}

lemma DBOp.count_watchers (db : Keyspace) (vs : Versions) (o : DBOp) : (o.count db vs).watchers = vs.watchers := by
  cases o with
  | put k e => exact vs.bumpVersion_watchers k
  | remove k => exact vs.bumpVersion_watchers k
  | mutate | evict => rfl
  | flushAll =>
    unfold DBOp.count
    split_ifs <;> rfl

lemma performAll_watchers (s : VersionedDB) (ops : List DBOp) :
    (s.performAll ops).versions.watchers = s.versions.watchers := by
  induction ops generalizing s with
  | nil => rfl
  | cons o ops ih => exact (ih (s.perform o)).trans (o.count_watchers s.db s.versions)

/-- `s'` comes from `s` with the version of the key counted up by `n`; if it was not counted up, the key
is as it was. -/
structure Counted (key : Bytes) (n : Nat) (s s' : VersionedDB) : Prop where
  version : s'.versions.version key = s.versions.version key + UInt64.ofNat n
  kept : n = 0 → s'.db.lookup key = s.db.lookup key

lemma Counted.refl (key : Bytes) (s : VersionedDB) : Counted key 0 s s := ⟨by simp, fun _ => rfl⟩

lemma Counted.trans {n m : Nat} {s s' s'' : VersionedDB} (h : Counted key n s s') (h' : Counted key m s' s'') :
    Counted key (n + m) s s'' := by
  constructor
  · rw [h'.version, h.version, UInt64.ofNat_add, UInt64.add_assoc]
  · intro h0
    exact (h'.kept (by omega)).trans (h.kept (by omega))

private lemma counted_once (h : 0 < s.versions.watchers) (k : Bytes) {db : Keyspace}
    (hframe : key ≠ k → db.lookup key = s.db.lookup key) : ∃ n ≤ 1, Counted key n s ⟨db, s.versions.bumpVersion k⟩ := by
  rw [Versions.bumpVersion_eq k h]
  by_cases hk : key = k
  · exact ⟨1, le_rfl, by simp [hk], nofun⟩
  · exact ⟨0, Nat.zero_le _, by simp [hk], fun _ => hframe hk⟩

lemma perform_counted (h : 0 < s.versions.watchers) {o : DBOp} (ho : o.silentOn key = false) :
    ∃ n ≤ 1, Counted key n s (s.perform o) := by
  cases o with
  | put k e => exact counted_once h k fun hk => Finmap.lookup_insert_of_ne _ hk
  | remove k => exact counted_once h k fun hk => Finmap.lookup_erase_ne hk
  | mutate k v =>
    have hk : key ≠ k := fun he => by simp [DBOp.silentOn, he] at ho
    refine ⟨0, Nat.zero_le _, by simp [perform, DBOp.count], fun _ => ?_⟩
    simp only [perform, DBOp.apply]
    split
    · rfl
    · exact Finmap.lookup_insert_of_ne _ hk
  | evict k =>
    have hk : key ≠ k := fun he => by simp [DBOp.silentOn, he] at ho
    exact ⟨0, Nat.zero_le _, by simp [perform, DBOp.count], fun _ => Finmap.lookup_erase_ne hk⟩
  | flushAll =>
    by_cases hm : key ∈ s.db
    · exact ⟨1, le_rfl, by simp [perform, DBOp.count, h, hm], nofun⟩
    refine ⟨0, Nat.zero_le _, by simp [perform, DBOp.count, h, hm], fun _ => ?_⟩
    rw [Finmap.lookup_eq_none.2 hm]
    rfl

lemma perform_version (h : 0 < s.versions.watchers) (o : DBOp) :
    ∃ n ≤ 1, (s.perform o).versions.version key = s.versions.version key + UInt64.ofNat n := by
  cases hs : o.silentOn key with
  | false =>
    obtain ⟨n, hn, hc⟩ := perform_counted h hs
    exact ⟨n, hn, hc.version⟩
  | true =>
    cases o with
    | mutate | evict => exact ⟨0, Nat.zero_le _, by simp [perform, DBOp.count]⟩
    | put | remove | flushAll => cases hs

lemma performAll_counted : ∀ (ops : List DBOp) {s : VersionedDB}, 0 < s.versions.watchers →
    (∀ o ∈ ops, o.silentOn key = false) → ∃ n ≤ ops.length, Counted key n s (s.performAll ops)
  | [], s, _, _ => ⟨0, le_rfl, .refl key s⟩
  | o :: ops, s, h, hs => by
    obtain ⟨n, hn, hc⟩ := perform_counted h (hs o mem_cons_self)
    have h' : 0 < (s.perform o).versions.watchers := by
      rw [perform, DBOp.count_watchers]
      exact h
    obtain ⟨m, hm, hc'⟩ := performAll_counted ops h' fun o' ho' => hs o' (mem_cons_of_mem o ho')
    exact ⟨n + m, by rw [length_cons]; omega, hc.trans hc'⟩

lemma performAll_version : ∀ (ops : List DBOp) {s : VersionedDB}, 0 < s.versions.watchers →
    ∃ n ≤ ops.length, (s.performAll ops).versions.version key = s.versions.version key + UInt64.ofNat n
  | [], s, _ => ⟨0, le_rfl, by simp [performAll]⟩
  | o :: ops, s, h => by
    obtain ⟨n, hn, hv⟩ := perform_version h o
    have h' : 0 < (s.perform o).versions.watchers := by
      rw [perform, DBOp.count_watchers]
      exact h
    obtain ⟨m, hm, hv'⟩ := performAll_version ops h'
    refine ⟨n + m, by rw [length_cons]; omega, ?_⟩
    rw [performAll_cons, hv', hv, UInt64.ofNat_add, UInt64.add_assoc]

end

/-! ## Handlers as the operations they perform -/

/-- A computation that reads the keyspace and performs operations on it. -/
def StoreM (α : Type) : Type := Keyspace → α × List DBOp

instance : Monad StoreM where
  pure a := fun _ => (a, [])
  bind m f := fun db => ((f (m db).1 (applyAll db (m db).2)).1, (m db).2 ++ (f (m db).1 (applyAll db (m db).2)).2)

namespace StoreM

variable (now : Clock) (key : Bytes)

def perform (o : DBOp) : StoreM Unit := fun _ => ((), [o])

def get : StoreM (Option Value) := fun db =>
  if db.isExpired now key then (none, [.remove key]) else ((db.lookup key).map Entry.val, [])

/-- `GetWithTTL`, which leaves a key past its deadline in its place. -/
def getWithTTL : StoreM (Option Entry) := fun db => (db.live key now.ms, [])

/-- `Exists`. -/
def has : StoreM Bool := fun db => (db.has now key, [])

def set (val : Value) : StoreM Unit := perform (.put key ⟨val, 0⟩)

def setKeepTTL (val : Value) : StoreM Unit := fun db =>
  ((), [.put key ⟨val, ((db.lookup key).map Entry.expireAt).getD 0⟩])

def setExpireAt (exp : Int) : StoreM Bool := fun db =>
  if db.isExpired now key then (false, [.remove key])
  else
    match db.lookup key with
    | none => (false, [])
    | some e => (true, [.put key { e with expireAt := exp }])

def del : StoreM Bool := fun db =>
  if db.isExpired now key then (false, [.remove key])
  else if (db.lookup key).isSome then (true, [.remove key]) else (false, [])

lemma pure_apply {α : Type} (a : α) (db : Keyspace) : (pure a : StoreM α) db = (a, []) := rfl

lemma bind_apply {α β : Type} (m : StoreM α) (f : α → StoreM β) (db : Keyspace) : (m >>= f) db =
      ((f (m db).1 (applyAll db (m db).2)).1, (m db).2 ++ (f (m db).1 (applyAll db (m db).2)).2) := rfl

/-- The computation changes the keyspace and answers as `f` does. -/
def Runs {α : Type} (m : StoreM α) (f : Keyspace → Keyspace × α) : Prop :=
  ∀ db, (applyAll db (m db).2, (m db).1) = f db

lemma runs_get : (get now key).Runs fun db => db.get now key := by
  intro db
  show (applyAll db (get now key db).2, (get now key db).1) = db.get now key
  unfold get Keyspace.get
  split_ifs <;> rfl

lemma get_live (db : Keyspace) : (get now key db).1 = (db.live key now.ms).map Entry.val ∧
      Becomes db key (applyAll db (get now key db).2) (db.live key now.ms) := by
  have hr := runs_get now key db
  obtain ⟨hv, hb⟩ := get_spec db now key
  exact ⟨(congrArg Prod.snd hr).trans hv, by rwa [← congrArg Prod.fst hr] at hb⟩

lemma runs_del : (del now key).Runs fun db => db.del now key := by
  intro db
  show (applyAll db (del now key db).2, (del now key db).1) = db.del now key
  unfold del Keyspace.del
  split_ifs with h1 h2
  · rfl
  · obtain ⟨e, he⟩ := Option.isSome_iff_exists.1 h2
    rw [he]
    rfl
  · rw [Option.not_isSome_iff_eq_none.1 h2]
    rfl

lemma del_becomes (db : Keyspace) : Becomes db key (applyAll db (del now key db).2) none := by
  have hb := del_spec db now key
  rwa [← congrArg Prod.fst (runs_del now key db)] at hb

/-! ### Operations that leave a trace -/

/-- Whatever it reads, the computation performs no operation that is silent on the key. -/
def Loud {α : Type} (key : Bytes) (m : StoreM α) : Prop := ∀ db, ∀ o ∈ (m db).2, o.silentOn key = false

section
variable {now} {key} {k : Bytes} {α β : Type}

lemma loud_pure (a : α) : Loud k (pure a : StoreM α) := fun _ _ ho => absurd ho not_mem_nil

lemma Loud.bind {m : StoreM α} {f : α → StoreM β} (hm : Loud k m) (hf : ∀ a, Loud k (f a)) : Loud k (m >>= f) := by
  intro db o ho
  obtain ho | ho := mem_append.1 ho
  · exact hm db o ho
  · exact hf _ _ o ho

lemma loud_get : Loud k (get now key) := by
  intro db o ho
  unfold get at ho
  split_ifs at ho
  · rw [mem_singleton.1 ho]
    rfl
  · cases ho

lemma loud_getWithTTL : Loud k (getWithTTL now key) := fun _ _ ho => absurd ho not_mem_nil

lemma loud_has : Loud k (has now key) := fun _ _ ho => absurd ho not_mem_nil

variable {val : Value}

lemma loud_set : Loud k (set key val) := fun _ _ ho => by
  rw [mem_singleton.1 ho]
  rfl

lemma loud_setKeepTTL : Loud k (setKeepTTL key val) := fun _ _ ho => by
  rw [mem_singleton.1 ho]
  rfl

lemma loud_setExpireAt {exp : Int} : Loud k (setExpireAt now key exp) := by
  intro db o ho
  unfold setExpireAt at ho
  split_ifs at ho
  · rw [mem_singleton.1 ho]
    rfl
  cases hl : db.lookup key with
  | none =>
    rw [hl] at ho
    cases ho
  | some e =>
    rw [hl] at ho
    rw [mem_singleton.1 ho]
    rfl

lemma loud_del : Loud k (del now key) := by
  intro db o ho
  unfold del at ho
  split_ifs at ho
  · rw [mem_singleton.1 ho]
    rfl
  · rw [mem_singleton.1 ho]
    rfl
  · cases ho

lemma loud_mutate (h : key ≠ k) : Loud k (perform (.mutate key val)) := fun _ _ ho => by
  rw [mem_singleton.1 ho]
  simp [DBOp.silentOn, h]

end

end StoreM

end Gopherdis.Store

/-
The keyspace: what every key holds and its deadline, with the operations of `ShardedDB` the command
handlers use. A shard's `expires` map has only keys of its `entries` map, so both are one map here,
a deadline of zero standing for none. Every operation changes at most the key it is given.
-/
import Gopherdis.Object.Value
import Mathlib.Data.Finmap

namespace Gopherdis.Store

open Lib Object Option Finmap

/-- A reading of the wall clock, in nanoseconds since 1970; the bound keeps millisecond deadlines
computed from it within `int64`. -/
structure Clock where
  ns : Nat
  bound : ns < 2 ^ 62 * 10 ^ 6

def Clock.zero : Clock := ⟨0, by decide⟩

/-- `time.Now().UnixMilli()`. -/
def Clock.ms (now : Clock) : Nat := now.ns / 10 ^ 6

structure Entry where
  val : Value
  expireAt : Int
deriving DecidableEq, Repr

/-- Past its deadline at `ms`. -/
def Entry.expired (e : Entry) (ms : Int) : Bool := e.expireAt ≠ 0 && e.expireAt ≤ ms

abbrev Keyspace := Finmap fun _ : Bytes => Entry

namespace Keyspace

variable (db : Keyspace) (now : Clock) (key : Bytes)

/-- The entry of a key that is not past its deadline. -/
def live (ms : Int) : Option Entry := (db.lookup key).filter fun e => !e.expired ms

def isExpired : Bool := (db.lookup key).any fun e => e.expired now.ms

/-- `Get`, with the lazy deletion of an expired key. -/
def get : Keyspace × Option Value :=
  if db.isExpired now key then (db.erase key, none) else (db, (db.lookup key).map Entry.val)

variable (val : Value)

def set : Keyspace := db.insert key ⟨val, 0⟩

/-- `SetWithExpire`, the duration in nanoseconds. -/
def setWithExpire (ttl : Int) : Keyspace := db.insert key ⟨val, (now.ns + ttl) / 10 ^ 6⟩

def setKeepTTL : Keyspace := db.insert key ⟨val, ((db.lookup key).map Entry.expireAt).getD 0⟩

def setExpireAt (exp : Int) : Keyspace × Bool :=
  if db.isExpired now key then (db.erase key, false)
  else
    match db.lookup key with
    | none => (db, false)
    | some e => (db.insert key { e with expireAt := exp }, true)

/-- `SetExpire`, the duration in nanoseconds. -/
def setExpire (ttl : Int) : Keyspace × Bool := db.setExpireAt now key (wrap64 (now.ms + ttl.tdiv (10 ^ 6)))

def del : Keyspace × Bool :=
  if db.isExpired now key then (db.erase key, false)
  else
    match db.lookup key with
    | none => (db, false)
    | some _ => (db.erase key, true)

/-- `Exists`. -/
def has : Bool := !db.isExpired now key && (db.lookup key).isSome

/-- `TTL`: the duration left, in nanoseconds, if the code is zero. -/
def ttl : Int × Int :=
  if db.isExpired now key then (0, -2)
  else
    match db.lookup key with
    | none => (0, -2)
    | some e =>
      if e.expireAt = 0 then (0, -1)
      else if e.expireAt - now.ms < 0 then (0, -2)
      else (wrap64 ((e.expireAt - now.ms) * 10 ^ 6), 0)

def persist : Keyspace × Bool :=
  if db.isExpired now key then (db, false)
  else
    match db.lookup key with
    | none => (db, false)
    | some e => if e.expireAt = 0 then (db, false) else (db.insert key { e with expireAt := 0 }, true)

/-- `Keys("*")`. -/
def keysAll : Finset Bytes := db.keys.filter fun k => ¬ db.isExpired now k

end Keyspace

open Keyspace

/-! ## One key at a time -/

/-- `db'` differs from `db` at most at `key`, where it holds `e`. -/
structure Becomes (db : Keyspace) (key : Bytes) (db' : Keyspace) (e : Option Entry) : Prop where
  at_key : db'.lookup key = e
  frame : ∀ k, k ≠ key → db'.lookup k = db.lookup k

namespace Becomes

variable {db db' db'' : Keyspace} {key : Bytes} {e e' : Option Entry}

lemma keep (h : db.lookup key = e) : Becomes db key db e := ⟨h, fun _ _ => rfl⟩

lemma insert (db : Keyspace) (key : Bytes) (e : Entry) : Becomes db key (db.insert key e) (some e) :=
  ⟨lookup_insert _, fun _ hk => lookup_insert_of_ne _ hk⟩

lemma erase (db : Keyspace) (key : Bytes) : Becomes db key (db.erase key) none :=
  ⟨lookup_erase _ _, fun _ hk => lookup_erase_ne hk⟩

lemma trans (h : Becomes db key db' e) (h' : Becomes db' key db'' e') : Becomes db key db'' e' :=
  ⟨h'.at_key, fun k hk => (h'.frame k hk).trans (h.frame k hk)⟩

end Becomes

open Becomes

/-! ## What the operations leave at their key -/

lemma Entry.expired_mono {e : Entry} {ms ms' : Int} (hle : ms ≤ ms') (h : e.expired ms = true) :
    e.expired ms' = true := by
  simp only [Entry.expired, Bool.and_eq_true, decide_eq_true_eq] at h ⊢
  exact ⟨h.1, h.2.trans hle⟩

@[simp] lemma Entry.not_expired_zero (v : Value) (ms : Int) : (Entry.mk v 0).expired ms = false := rfl

variable (ms : Int)

/-- The part of an entry that is live at `ms`. -/
def liveEntry (e : Option Entry) : Option Entry := e.filter fun e => !e.expired ms

@[simp] lemma liveEntry_none : liveEntry ms none = none := rfl

lemma liveEntry_some (e : Entry) : liveEntry ms (some e) = if e.expired ms then none else some e := by
  rw [liveEntry, filter_some]
  cases e.expired ms <;> rfl

section
variable {db : Keyspace} {now : Clock} {key : Bytes}

lemma live_eq (ms : Int) : db.live key ms = liveEntry ms (db.lookup key) := rfl

variable {e : Entry}

lemma live_of_lookup {ms : Int} (h : db.lookup key = some e) (hx : e.expired ms = false) : db.live key ms = some e := by
  rw [live_eq, h, liveEntry_some, hx]
  rfl

lemma live_cases (db : Keyspace) (key : Bytes) (ms : Int) :
    (∃ e, db.lookup key = some e ∧ e.expired ms = false ∧ db.live key ms = some e) ∨
      (db.live key ms = none ∧ (db.lookup key).all fun e => e.expired ms) := by
  rcases hl : db.lookup key with _ | e
  · exact .inr ⟨by rw [live_eq, hl]; rfl, rfl⟩
  cases hx : e.expired ms with
  | false => exact .inl ⟨e, rfl, hx, live_of_lookup hl hx⟩
  | true => exact .inr ⟨by rw [live_eq, hl, liveEntry_some, hx]; rfl, hx⟩

lemma isExpired_of_live (h : db.live key now.ms = some e) : db.isExpired now key = false := by
  obtain ⟨hl, hx⟩ := filter_eq_some_iff.1 h
  simp [isExpired, hl, by simpa using hx]

lemma lookup_of_live {ms : Int} (h : db.live key ms = some e) : db.lookup key = some e :=
  (filter_eq_some_iff.1 h).1

lemma get_of_none (h : db.lookup key = none) : db.get now key = (db, none) := by
  simp [Keyspace.get, isExpired, h]

lemma get_of_live (h : db.live key now.ms = some e) : db.get now key = (db, some e.val) := by
  simp [Keyspace.get, isExpired_of_live h, lookup_of_live h]

lemma get_spec (db : Keyspace) (now : Clock) (key : Bytes) : (db.get now key).2 = (db.live key now.ms).map Entry.val ∧
      Becomes db key (db.get now key).1 (db.live key now.ms) := by
  rcases live_cases db key now.ms with ⟨e, hl, hx, hlive⟩ | ⟨hlive, hall⟩
  · rw [get_of_live hlive, hlive]
    exact ⟨rfl, keep hl⟩
  rw [hlive]
  rcases hl : db.lookup key with _ | e
  · rw [get_of_none hl]
    exact ⟨rfl, keep hl⟩
  have hx : e.expired now.ms = true := by rw [hl] at hall; exact hall
  simp only [Keyspace.get, isExpired, hl, any_some, hx, if_true]
  exact ⟨rfl, erase db key⟩

lemma get_of_dead (h : db.live key now.ms = none) : db.get now key = ((db.get now key).1, none) :=
  Prod.ext rfl (by rw [(get_spec db now key).1, h]; rfl)

section
variable (db : Keyspace) (now : Clock) (key : Bytes)

lemma has_eq : db.has now key = (db.live key now.ms).isSome := by
  rw [live_eq, has, isExpired]
  rcases db.lookup key with _ | e
  · rfl
  · cases hx : e.expired now.ms <;> simp [liveEntry_some, hx]

lemma setExpireAt_spec (exp : Int) :
    (db.setExpireAt now key exp).2 = (db.live key now.ms).isSome ∧
      Becomes db key (db.setExpireAt now key exp).1 ((db.live key now.ms).map fun e => { e with expireAt := exp }) := by
  rcases live_cases db key now.ms with ⟨e, hl, hx, hlive⟩ | ⟨hlive, hall⟩
  · simp only [setExpireAt, isExpired_of_live hlive, hl, hlive]
    exact ⟨rfl, insert db key _⟩
  rw [hlive]
  rcases hl : db.lookup key with _ | e
  · simp only [setExpireAt, isExpired, hl, any_none]
    exact ⟨rfl, keep hl⟩
  have hx : e.expired now.ms = true := by rw [hl] at hall; exact hall
  simp only [setExpireAt, isExpired, hl, any_some, hx, if_true]
  exact ⟨rfl, erase db key⟩

lemma del_spec : Becomes db key (db.del now key).1 none := by
  unfold del
  split_ifs
  · exact erase db key
  split
  · rename_i hl
    exact keep hl
  · exact erase db key

lemma persist_spec : Becomes db key (db.persist now key).1
      ((db.lookup key).map fun e => if e.expired now.ms then e else { e with expireAt := 0 }) := by
  rcases hl : db.lookup key with _ | e
  · simp only [persist, isExpired, hl, any_none]
    exact keep hl
  cases hx : e.expired now.ms with
  | true =>
    simp only [persist, isExpired, hl, any_some, hx, if_true, map_some]
    exact keep hl
  | false =>
  simp only [persist, isExpired, hl, any_some, hx, Bool.false_eq_true, if_false,
    map_some]
  by_cases h0 : e.expireAt = 0
  · rw [if_pos h0, show ({ e with expireAt := 0 } : Entry) = e by rw [← h0]]
    exact keep hl
  · rw [if_neg h0]
    exact insert db key _

end

lemma mem_keysAll : key ∈ db.keysAll now ↔ (db.live key now.ms).isSome := by
  rw [keysAll, Finset.mem_filter, mem_keys, ← lookup_isSome, live_eq, isExpired]
  rcases db.lookup key with _ | e
  · simp
  · cases hx : e.expired now.ms <;> simp [liveEntry_some, hx]

end

end Gopherdis.Store

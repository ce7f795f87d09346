/-
The cursor of `SCAN` over the keyspace. It is a shard index: a call lists whole shards from there on until it
has enough keys, and returns the next index, or zero behind the last one. The shard of a key depends on the
key alone, so the calls of a scan are responsible for ranges of shards, one after the other, whatever happens
to the keyspace in between.
-/
import Gopherdis.Glob.Match
import Gopherdis.Store.Keyspace
import Gopherdis.Store.Versions

namespace Gopherdis.Store

open Lib Glob List

/-! ## Shards in some order -/

/-- The orders in which the maps of the shards are ranged over. -/
structure ShardOrder (db : Keyspace) where
  keys : Nat → List Bytes
  nodup : ∀ i, (keys i).Nodup
  mem : ∀ i k, k ∈ keys i ↔ (db.lookup k).isSome ∧ shardIdx k = i

instance (db : Keyspace) : Nonempty (ShardOrder db) :=
  ⟨{ keys := fun i => (db.keys.filter fun k => shardIdx k = i).toList
     nodup := fun _ => Finset.nodup_toList _
     mem := fun i k => by rw [Finset.mem_toList, Finset.mem_filter, Finmap.mem_keys, ← Finmap.lookup_isSome] }⟩

/-! ## One call -/

/-- A call: the keyspace it finds, the clock, `COUNT`, and the orders the runtime picks. -/
structure ScanCall where
  db : Keyspace
  now : Clock
  count : Int
  order : ShardOrder db

def scanMatches (pattern key : Bytes) : Bool := pattern = [] || pattern = ascii "*" || globMatch pattern key

namespace ScanCall

/-- The keys of a shard that are live and match. -/
def found (c : ScanCall) (pattern : Bytes) (i : Nat) : List Bytes :=
  (c.order.keys i).filter fun k => !c.db.isExpired c.now k && scanMatches pattern k

/-- The walk over the shards left, from index `idx` on: the index it stops at, and the keys. -/
def scanLoop (c : ScanCall) (pattern : Bytes) (count : Int) : Nat → Nat → List Bytes → Nat × List Bytes
  | 0, idx, out => (idx, out)
  | left + 1, idx, out =>
    let out := out ++ c.found pattern idx
    if count ≤ out.length then (idx + 1, out) else scanLoop c pattern count left (idx + 1) out

def scan (c : ScanCall) (pattern : Bytes) (cursor : Nat) : Nat × List Bytes :=
  let count := if c.count ≤ 0 then 10 else c.count
  let r := c.scanLoop pattern count (numShards - cursor) cursor []
  if numShards ≤ r.1 then (0, r.2) else r

variable (c : ScanCall) (pattern : Bytes)

lemma scanLoop_spec (count : Int) (left idx : Nat) (out : List Bytes) :
    (c.scanLoop pattern count left idx out).2 = out ++
        (List.range' idx ((c.scanLoop pattern count left idx out).1 - idx)).flatMap (c.found pattern) ∧
      idx ≤ (c.scanLoop pattern count left idx out).1 ∧ (c.scanLoop pattern count left idx out).1 ≤ idx + left ∧
      (left ≠ 0 → idx < (c.scanLoop pattern count left idx out).1) := by
  induction left generalizing idx out with
  | zero => simp [scanLoop]
  | succ left ih =>
  rw [scanLoop]
  split_ifs
  · simp
  obtain ⟨hkeys, hlo, hhi, -⟩ := ih (idx + 1) (out ++ c.found pattern idx)
  refine ⟨?_, by omega, by omega, fun _ => by omega⟩
  generalize c.scanLoop pattern count left (idx + 1) (out ++ c.found pattern idx) = r at *
  rw [hkeys, append_assoc, show r.1 - idx = (r.1 - (idx + 1)) + 1 by omega, List.range'_succ,
    flatMap_cons]

lemma scan_spec {cursor : Nat} (hcursor : cursor < numShards) : ∃ stop, cursor < stop ∧ stop ≤ numShards ∧
      (c.scan pattern cursor).1 = (if stop = numShards then 0 else stop) ∧
      (c.scan pattern cursor).2 = (List.range' cursor (stop - cursor)).flatMap (c.found pattern) := by
  unfold scan
  generalize (if c.count ≤ 0 then 10 else c.count) = count
  obtain ⟨hkeys, -, hhi, hlt⟩ := c.scanLoop_spec pattern count (numShards - cursor) cursor []
  refine ⟨(c.scanLoop pattern count (numShards - cursor) cursor []).1, hlt (by omega), by omega, ?_, ?_⟩
  · simp only
    split_ifs
    · rfl
    · omega
    · omega
    · rfl
  · simp only
    split_ifs <;> exact hkeys

lemma mem_found {i : Nat} {k : Bytes} :
    k ∈ c.found pattern i ↔ c.db.has c.now k = true ∧ scanMatches pattern k = true ∧ shardIdx k = i := by
  simp only [found, mem_filter, c.order.mem, Keyspace.has, Bool.and_eq_true, Bool.not_eq_true']
  tauto

lemma nodup_shards (start n : Nat) : ((List.range' start n).flatMap (c.found pattern)).Nodup := by
  rw [nodup_flatMap]
  refine ⟨fun i _ => (c.order.nodup i).filter _, (nodup_range').imp fun {i j} hne k hi hj => ?_⟩
  exact hne (((c.mem_found pattern).1 hi).2.2.symm.trans ((c.mem_found pattern).1 hj).2.2)

end ScanCall

/-! ## A scan -/

/-- Calls one after the other, each with the cursor the one before returned, until one returns zero: the keys
of each. There is none if the calls do not suffice. -/
def scanAll (pattern : Bytes) : Nat → List ScanCall → Option (List (List Bytes))
  | _, [] => none
  | cursor, c :: cs =>
    let r := c.scan pattern cursor
    if r.1 = 0 then some [r.2] else (scanAll pattern r.1 cs).map fun rest => r.2 :: rest

lemma scanAll_spec (pattern : Bytes) {cursor : Nat} (hcursor : cursor < numShards) (cs : List ScanCall)
    (hlen : numShards - cursor ≤ cs.length) :
    ∃ replies, scanAll pattern cursor cs = some replies ∧ replies.length ≤ numShards - cursor ∧
      (∀ k, cursor ≤ shardIdx k → scanMatches pattern k = true →
        (∀ c ∈ cs.take replies.length, c.db.has c.now k = true) → k ∈ replies.flatten) ∧
      replies.flatten.Nodup ∧ ∀ k ∈ replies.flatten, cursor ≤ shardIdx k := by
  induction cs generalizing cursor with
  | nil =>
    rw [length_nil] at hlen
    omega
  | cons c cs ih =>
  obtain ⟨stop, hlt, hle, hcur, hkeys⟩ := c.scan_spec pattern hcursor
  have hlisted : ∀ k ∈ (c.scan pattern cursor).2, cursor ≤ shardIdx k ∧ shardIdx k < stop := by
    intro k hk
    rw [hkeys, mem_flatMap] at hk
    obtain ⟨i, hi, hfound⟩ := hk
    obtain ⟨-, -, rfl⟩ := (c.mem_found pattern).1 hfound
    rw [mem_range'_1] at hi
    omega
  have hlists : ∀ k, cursor ≤ shardIdx k → shardIdx k < stop → scanMatches pattern k = true →
      c.db.has c.now k = true → k ∈ (c.scan pattern cursor).2 := by
    intro k hlo hhi hmatch hhas
    rw [hkeys, mem_flatMap]
    exact ⟨shardIdx k, mem_range'_1.2 ⟨hlo, by omega⟩, (c.mem_found pattern).2 ⟨hhas, hmatch, rfl⟩⟩
  have hnodup : (c.scan pattern cursor).2.Nodup := by
    rw [hkeys]
    exact c.nodup_shards pattern _ _
  rw [scanAll, hcur]
  by_cases hstop : stop = numShards
  · -- the last call
    rw [if_pos hstop, if_pos rfl]
    refine ⟨[(c.scan pattern cursor).2], rfl, by simp; omega, ?_, by simpa using hnodup, ?_⟩
    · intro k hlo hmatch hhas
      have hhi := shardIdx_lt k
      simpa using hlists k hlo (by omega) hmatch (hhas c (by simp))
    · intro k hk
      exact (hlisted k (by simpa using hk)).1
  rw [if_neg hstop, if_neg (by omega)]
  rw [length_cons] at hlen
  obtain ⟨replies, hall, hshort, hcover, hdistinct, habove⟩ := ih (show stop < numShards by omega) (by omega)
  refine ⟨(c.scan pattern cursor).2 :: replies, by rw [hall]; rfl, by rw [length_cons]; omega, ?_, ?_, ?_⟩
  · intro k hlo hmatch hhas
    rw [length_cons, take_succ_cons, forall_mem_cons] at hhas
    rw [flatten_cons, mem_append]
    rcases lt_or_ge (shardIdx k) stop with hhi | hge
    · exact .inl (hlists k hlo hhi hmatch hhas.1)
    · exact .inr (hcover k hge hmatch hhas.2)
  · rw [flatten_cons, nodup_append]
    refine ⟨hnodup, hdistinct, fun a ha b hb => ?_⟩
    rintro rfl
    have := (hlisted a ha).2
    have := habove a hb
    omega
  · intro k hk
    rw [flatten_cons, mem_append] at hk
    rcases hk with hk | hk
    · exact (hlisted k hk).1
    · have := habove k hk
      omega

/-- A scan takes at most 64 calls, whatever the keyspace is at each of them; it returns every matching key that
is live at all of them, and no key twice. -/
theorem scan_guarantee (pattern : Bytes) (calls : ℕ → ScanCall) :
    ∃ replies, scanAll pattern 0 ((List.range numShards).map calls) = some replies ∧ replies.length ≤ 64 ∧
      (∀ k, scanMatches pattern k = true →
        (∀ i < replies.length, (calls i).db.has (calls i).now k = true) → k ∈ replies.flatten) ∧
      replies.flatten.Nodup := by
  obtain ⟨replies, hall, hshort, hcover, hdistinct, -⟩ :=
    scanAll_spec pattern (show 0 < numShards by decide) ((List.range numShards).map calls) (by simp)
  refine ⟨replies, hall, hshort, fun k hmatch hhas => hcover k (Nat.zero_le _) hmatch fun c hc => ?_, hdistinct⟩
  rw [← map_take, take_range, mem_map] at hc
  obtain ⟨i, hi, rfl⟩ := hc
  rw [mem_range] at hi
  exact hhas i (by omega)

end Gopherdis.Store

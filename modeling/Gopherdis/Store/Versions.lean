/-
The versions `WATCH` compares: a counter per key, kept in the shard of the key and counted up only
while some key is watched. The number of watched keys is the gate; when it falls to zero
`RemoveWatchers` reclaims the counters, one shard after the other.
-/
import Gopherdis.Lib.Text

namespace Gopherdis.Store

open Lib List

/-! ## Shards -/

variable (key : Bytes)

def fnv32 : UInt32 := key.foldl (fun hash b => (hash ^^^ b.toUInt32) * 16777619) 2166136261

def numShards : Nat := 64

/-- `GetShardIdx`. -/
def shardIdx : Nat := (fnv32 key).toNat % numShards

lemma shardIdx_lt : shardIdx key < numShards := Nat.mod_lt _ (by decide)

/-! ## Counters -/

/-- The number of watched keys, one `int64` for all shards, and `GetVersion`: a key without a counter
is at zero. -/
structure Versions where
  watchers : Int
  version : Bytes → UInt64

namespace Versions

def start : Versions := ⟨0, fun _ => 0⟩

variable (vs : Versions) (key : Bytes)

def count : Versions :=
  { vs with version := Function.update vs.version key (vs.version key + 1) }

def bumpVersion : Versions := if 0 < vs.watchers then vs.count key else vs

def touch : Versions := if vs.watchers = 0 then vs else vs.count key

variable (n : Int)

def addWatchers : Versions := { vs with watchers := vs.watchers + n }

/-- One round of the loop of `RemoveWatchers`. -/
def clearShard (i : Nat) : Versions :=
  { vs with version := fun key => if shardIdx key = i then 0 else vs.version key }

def removeWatchers : Versions :=
  let vs := vs.addWatchers (-n)
  if 0 < vs.watchers then vs else (List.range numShards).foldl clearShard vs

variable (vs : Versions) (key k : Bytes)

@[simp] lemma count_watchers : (vs.count key).watchers = vs.watchers := rfl

@[simp] lemma bumpVersion_watchers : (vs.bumpVersion key).watchers = vs.watchers := by
  unfold bumpVersion; split_ifs <;> rfl

@[simp] lemma touch_watchers : (vs.touch key).watchers = vs.watchers := by
  unfold touch; split_ifs <;> rfl

@[simp] lemma addWatchers_version : (vs.addWatchers n).version = vs.version := rfl

@[simp] lemma addWatchers_watchers : (vs.addWatchers n).watchers = vs.watchers + n := rfl

@[simp] lemma clearShard_watchers (i : Nat) : (vs.clearShard i).watchers = vs.watchers := rfl

@[simp] lemma count_version : (vs.count key).version k = vs.version k + if k = key then 1 else 0 := by
  by_cases h : k = key
  · subst h; simp [count]
  · simp [count, h]

lemma removeWatchers_watchers : (vs.removeWatchers n).watchers = vs.watchers - n := by
  have hclear : ∀ (is : List Nat) (vs : Versions), (is.foldl clearShard vs).watchers = vs.watchers := by
    intro is
    induction is with
    | nil => exact fun _ => rfl
    | cons i is ih => exact fun vs => ih (vs.clearShard i)
  rw [removeWatchers]
  split_ifs
  · exact (sub_eq_add_neg ..).symm
  · exact (sub_eq_add_neg ..).symm

variable {vs}

lemma bumpVersion_eq (h : 0 < vs.watchers) : vs.bumpVersion key = vs.count key := if_pos h

lemma touch_eq (h : 0 < vs.watchers) : vs.touch key = vs.count key := if_neg (by omega)

lemma removeWatchers_eq {n : Int} (h : 0 < vs.watchers - n) : vs.removeWatchers n = vs.addWatchers (-n) :=
  if_pos (by simpa [sub_eq_add_neg] using h)

end Versions

/-! ## Watched keys -/

/-- `TxState.Watched`: the version of each watched key when it was watched. -/
abbrev Watched := List (Bytes × UInt64)

namespace Watched

variable (w : Watched) (key : Bytes)

def has : Bool := w.any fun e => e.1 = key

def stored : Option UInt64 := (w.find? fun e => e.1 = key).map Prod.snd

variable (v : UInt64)

/-- `Watched[key] = v`. -/
def put : Watched :=
  if w.has key then w.map fun e => if e.1 = key then (key, v) else e else w ++ [(key, v)]

lemma length_put : (w.put key v).length = w.length + if w.has key then 0 else 1 := by
  unfold put
  split_ifs <;> simp

lemma has_iff_stored : w.has key = true ↔ ∃ v, w.stored key = some v := by
  rw [has, any_eq_true, ← Option.isSome_iff_exists, stored, Option.isSome_map, find?_isSome]

private lemma stored_map_put (key : Bytes) (v : UInt64) (k : Bytes) :
    ∀ w : Watched, stored (w.map fun e => if e.1 = key then (key, v) else e) k =
      if k = key then (w.stored k).map fun _ => v else w.stored k
  | [] => by simp [stored]
  | (k', v') :: w => by
    have ih := stored_map_put key v k w
    simp only [stored, map_cons, find?_cons] at ih ⊢
    by_cases hk' : k' = key
    · subst hk'
      by_cases hk : k' = k
      · subst hk; simp
      · simpa [hk, Ne.symm hk] using ih
    · by_cases hk : k' = k
      · subst hk; simp [hk']
      · simpa [hk, hk'] using ih

lemma stored_put (k : Bytes) :
    (w.put key v).stored k = if k = key then some v else w.stored k := by
  unfold put
  by_cases h : w.has key
  · rw [if_pos h, stored_map_put]
    obtain ⟨v', hv'⟩ := (has_iff_stored w key).1 h
    by_cases hk : k = key
    · subst hk; simp [hv']
    · simp [hk]
  have hnone : w.stored key = none :=
    Option.not_isSome_iff_eq_none.1 fun hs => h ((has_iff_stored w key).2 (Option.isSome_iff_exists.1 hs))
  rw [if_neg h, stored, find?_append, Option.map_or]
  by_cases hk : k = key
  · subst hk
    rw [stored] at hnone
    simp [hnone]
  · simp [stored, hk, Ne.symm hk]

lemma stored_foldl_put (version : Bytes → UInt64) (k : Bytes) : ∀ (keys : List Bytes) (w : Watched),
    stored (keys.foldl (fun w key => w.put key (version key)) w) k = if k ∈ keys then some (version k) else w.stored k
  | [], w => by simp
  | key :: keys, w => by
    rw [foldl_cons, stored_foldl_put version k keys, stored_put]
    by_cases hk : k = key
    · subst hk
      simp
    · simp [hk]

lemma mem_of_stored {w : Watched} {key : Bytes} {v : UInt64} (h : w.stored key = some v) : (key, v) ∈ w := by
  obtain ⟨e, he, rfl⟩ := Option.map_eq_some_iff.1 h
  have hk : e.1 = key := by simpa using find?_some he
  exact hk ▸ mem_of_find?_eq_some he

end Watched

end Gopherdis.Store

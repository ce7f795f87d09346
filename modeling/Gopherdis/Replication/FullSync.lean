/-
A full resynchronisation against concurrent writes. `HandlePSync` holds the manager's mutex, which `FeedCommand`
takes too, from the registration of the replica to the end of the snapshot, which copies the shards one after
the other and serialises a shard after its lock is released. The mutex keeps feeds out, not applications: a
write applied but not yet fed when its shard is copied is in the snapshot and, once fed, in the replica's queue.
-/
import Gopherdis.Replication.FeedOrder
import Gopherdis.Store.Versions

namespace Gopherdis.Replication

open Lib List Store

variable {ν ι : Type} [DecidableEq ι] (carried : ν → Bool)

/-- How far `HandlePSync` has come for one replica: before it, inside the critical section with
shard `i` still to be copied or copied and not yet serialised, after it with the replica connected,
and with the replica dropped (its queue was full). -/
inductive SyncPhase
  | before
  | locked (i : Nat) (copied : Bool)
  | streaming
  | dropped

/-- The master, the snapshot taken so far, and what has been queued to the replica. -/
structure SyncState (ν ι : Type) where
  master : FeedState Bytes ν ι
  phase : SyncPhase
  snapshot : KeyMap Bytes ν
  queue : List (Effect Bytes ν)

/-- A client's step, or one of `HandlePSync`. A write changes an object in place or puts a new one
under the key. -/
inductive SyncAct (ν ι : Type)
  | client (a : FeedAct Bytes ν ι) (inPlace : Bool)
  | lock
  | copy
  | serialize
  | unlock
  | drop

variable (m : KeyMap Bytes ν)

def SyncState.start : SyncState ν ι := ⟨.start m, .before, fun _ => none, []⟩

def SyncPhase.blocks : SyncPhase → FeedAct Bytes ν ι → Bool
  | .locked _ _, .feed _ => true
  | _, _ => false

variable (s : SyncState ν ι)

/-- The copied entries of a shard that is not serialised yet share their objects with the keyspace,
so a write in place shows in them. -/
def SyncState.aliased (a : FeedAct Bytes ν ι) (keyspace : KeyMap Bytes ν) : KeyMap Bytes ν :=
  match s.phase, a with
  | .locked i true, .apply c =>
    match s.master.procs c with
    | .locked e => fun k => if k ∈ e.keys ∧ shardIdx k = i then keyspace k else s.snapshot k
    | _ => s.snapshot
  | _, _ => s.snapshot

/-- What a step of `FeedCommand` puts in the queue of a registered replica. -/
def SyncPhase.queued (p : SyncPhase) (fed fed' : List (Effect Bytes ν)) : List (Effect Bytes ν) :=
  match p with
  | .streaming => fed'.drop fed.length
  | _ => []

def syncStep : SyncAct ν ι → Option (SyncState ν ι)
  | .client a inPlace =>
    if s.phase.blocks a then none
    else (feedStep s.master a).map fun master =>
      { s with
        master
        snapshot := if inPlace then s.aliased a master.keyspace else s.snapshot
        queue := s.queue ++ s.phase.queued s.master.fed master.fed }
  | .lock =>
    match s.phase with
    | .before => some { s with phase := .locked 0 false, snapshot := fun _ => none, queue := [] }
    | _ => none
  | .copy =>
    match s.phase with
    | .locked i false =>
      if i < numShards then
        some { s with
          phase := .locked i true
          -- `WriteEntry` writes nothing for an object the format has no record for
          snapshot := fun k => if shardIdx k = i then (s.master.keyspace k).filter carried else s.snapshot k }
      else none
    | _ => none
  | .serialize =>
    match s.phase with
    | .locked i true => some { s with phase := .locked (i + 1) false }
    | _ => none
  | .unlock =>
    match s.phase with
    | .locked i false => if i = numShards then some { s with phase := .streaming } else none
    | _ => none
  | .drop =>
    match s.phase with
    | .streaming => some { s with phase := .dropped }
    | _ => none

/-- Each shard is copied between the writes on it: none is applied and unfed when the shard is
copied, and none changes one of its objects in place before the shard is serialised. The objects
copied are of the types the format carries, and no effect overtakes an unfed one. -/
def CopiedBetweenWrites : SyncAct ν ι → Prop
  | .client a inPlace => NoOvertaking s.master a ∧
    ∀ i c e, s.phase = .locked i true → inPlace = true → a = .apply c → s.master.procs c = .locked e →
      ∀ k ∈ e.keys, shardIdx k ≠ i
  | .copy => ∀ i k, s.phase = .locked i false → shardIdx k = i →
    Untouched s.master.unfed k ∧ ∀ v, s.master.keyspace k = some v → carried v = true
  | _ => True

/-! ## The invariant -/

variable (i : Nat)

/-- The keys of the shards copied so far. -/
def copiedKeys (copied : Bool) : Set Bytes :=
  {k | shardIdx k < i ∨ (copied = true ∧ shardIdx k = i)}

/-- The replica, fed its queue, follows the master on the keys it has a copy of. -/
def SyncState.Synced : Prop :=
  match s.phase with
  | .locked i copied =>
    s.queue = [] ∧ Tracks (copiedKeys i copied) s.snapshot s.master.keyspace s.master.unfed
  | .streaming => Tracks Set.univ (replay s.snapshot s.queue) s.master.keyspace s.master.unfed
  | _ => True

def SyncInv (s : SyncState ν ι) : Prop := s.master.Tracked m ∧ s.Synced

variable {carried}

omit [DecidableEq ι] in
lemma aliased_eq {s : SyncState ν ι} {a : FeedAct Bytes ν ι} {inPlace : Bool} (keyspace : KeyMap Bytes ν)
    (hg : CopiedBetweenWrites carried s (.client a inPlace)) :
    (if inPlace then s.aliased a keyspace else s.snapshot) = s.snapshot := by
  cases inPlace with
  | false => rfl
  | true =>
  rw [if_pos rfl]
  unfold SyncState.aliased
  split
  · rename_i i c hph
    split
    · rename_i e hp
      funext k
      by_cases hk : k ∈ e.keys
      · rw [if_neg fun h => hg.2 i c e hph rfl rfl hp k hk h.2]
      · rw [if_neg fun h => hk h.1]
    · rfl
  · rfl

lemma copiedKeys_copy : copiedKeys i true = copiedKeys i false ∪ {k | shardIdx k = i} := by
  ext k; simp [copiedKeys]

lemma copiedKeys_serialize : copiedKeys (i + 1) false = copiedKeys i true := by
  ext k; simp [copiedKeys]; omega

lemma copiedKeys_all : copiedKeys numShards false = Set.univ := by
  ext k
  have : shardIdx k < numShards := shardIdx_lt k
  simp [copiedKeys, this]

variable {m : KeyMap Bytes ν}

lemma SyncInv.client {s : SyncState ν ι} {a : FeedAct Bytes ν ι}
    {master : FeedState Bytes ν ι} (h : SyncInv m s) (hb : s.phase.blocks a = false)
    (hg : NoOvertaking s.master a) (hs : feedStep s.master a = some master) :
    SyncInv m { s with master, queue := s.queue ++ s.phase.queued s.master.fed master.fed } := by
  refine ⟨feedStep_tracked h.1 hg hs, ?_⟩
  have hsy := h.2
  unfold SyncState.Synced at hsy ⊢
  cases hph : s.phase with
  | before | dropped => trivial
  | locked i copied =>
    simp only [hph] at hsy ⊢
    refine ⟨by rw [hsy.1]; rfl, ?_⟩
    obtain ⟨hk, hu, -⟩ | ⟨c, e, hc, hk, hu, -, hfree⟩ | ⟨c, e, rfl, -⟩ := feedStep_cases hs
    · rw [hk, hu]; exact hsy.2
    · rw [hk, hu]; exact hsy.2.take hc (hfree hg)
    · -- `FeedCommand` waits for the mutex
      rw [hph] at hb; cases hb
  | streaming =>
    simp only [hph] at hsy ⊢
    unfold SyncPhase.queued
    obtain ⟨hk, hu, hf⟩ | ⟨c, e, hc, hk, hu, hf, hfree⟩ | ⟨c, e, -, hc, hk, hu, hf⟩ := feedStep_cases hs
    · rw [hk, hu, hf, drop_length, append_nil]; exact hsy
    · rw [hk, hu, hf, drop_length, append_nil]; exact hsy.take hc (hfree hg)
    · rw [hk, hu, hf, drop_left, replay_concat]; exact hsy.tell hc

omit [DecidableEq ι] in
lemma SyncInv.copy {s : SyncState ν ι} {i : Nat} (h : SyncInv m s)
    (hph : s.phase = .locked i false) (hg : CopiedBetweenWrites carried s .copy) : SyncInv m { s with
      phase := .locked i true
      snapshot := fun k => if shardIdx k = i then (s.master.keyspace k).filter carried else s.snapshot k } := by
  have hsy := h.2
  unfold SyncState.Synced at hsy
  rw [hph] at hsy
  refine ⟨h.1, hsy.1, ?_⟩
  rw [copiedKeys_copy]
  refine hsy.2.copy (fun k hk => ?_) (fun k hk => if_neg hk) fun k hk => (hg i k hph hk).1
  have hki : shardIdx k = i := hk
  simp only
  rw [if_pos hki]
  cases hv : s.master.keyspace k with
  | none => rfl
  | some v => simp [Option.filter, (hg i k hph hk).2 v hv]

lemma syncStep_inv {s s' : SyncState ν ι} {a : SyncAct ν ι} (h : SyncInv m s)
    (hg : CopiedBetweenWrites carried s a) (hs : syncStep carried s a = some s') : SyncInv m s' := by
  have hsy := h.2
  unfold SyncState.Synced at hsy
  cases a with
  | client a inPlace =>
    rw [syncStep] at hs
    by_cases hb : s.phase.blocks a = true
    · rw [if_pos hb] at hs; cases hs
    rw [if_neg hb] at hs
    obtain ⟨master, hm, rfl⟩ := Option.map_eq_some_iff.1 hs
    rw [aliased_eq master.keyspace hg]
    exact h.client (Bool.eq_false_iff.2 hb) hg.1 hm
  | lock =>
    rw [syncStep] at hs
    split at hs <;> cases hs
    refine ⟨h.1, rfl, fun i e _ hsub k hk => ?_, h.1.disjoint, fun k hk => ?_⟩
    · exact absurd (hsub hk) (by simp [copiedKeys])
    · exact absurd hk (by simp [copiedKeys])
  | copy =>
    rw [syncStep] at hs
    split at hs
    · split_ifs at hs
      cases hs; exact h.copy ‹_› hg
    · cases hs
  | serialize =>
    rw [syncStep] at hs
    split at hs <;> cases hs
    rename_i i hph
    rw [hph] at hsy
    exact ⟨h.1, hsy.1, by rw [copiedKeys_serialize]; exact hsy.2⟩
  | unlock =>
    rw [syncStep] at hs
    split at hs
    · rename_i i hph
      split_ifs at hs with hi
      cases hs
      rw [hph] at hsy
      subst hi
      refine ⟨h.1, ?_⟩
      unfold SyncState.Synced
      rw [hsy.1, ← copiedKeys_all]
      exact hsy.2
    · cases hs
  | drop =>
    rw [syncStep] at hs
    split at hs <;> cases hs
    exact ⟨h.1, trivial⟩

/-! ## Whole runs -/

/-- In every run in which each shard is copied between the writes on it, the snapshot and then the
queued commands give the master's keyspace, on every key whose writes are all fed. -/
theorem full_sync_exact {m : KeyMap Bytes ν} {as : List (SyncAct ν ι)} {s : SyncState ν ι}
    (h : Run (syncStep carried) (CopiedBetweenWrites carried) (.start m) as s) (hph : s.phase = .streaming)
    (k : Bytes) (hk : Untouched s.master.unfed k) : replay s.snapshot s.queue k = s.master.keyspace k := by
  have hi : SyncInv m s := h.inv syncStep_inv ⟨Tracks.start, trivial⟩
  have hsy := hi.2
  unfold SyncState.Synced at hsy
  rw [hph] at hsy
  exact (hsy.rest k trivial hk).symm

/-- The steps that copy and serialise `n` shards. -/
def copyShards (n : Nat) : List (SyncAct ν ι) := (List.replicate n [.copy, .serialize]).flatten

lemma copyShards_run {G : SyncState ν ι → SyncAct ν ι → Prop} {s : SyncState ν ι} {n i : Nat}
    (hG : ∀ s' : SyncState ν ι, s'.master = s.master → G s' .copy ∧ G s' .serialize)
    (hph : s.phase = .locked i false) (hn : i + n = numShards) {snapshot : KeyMap Bytes ν}
    (hsnap : ∀ k, snapshot k = if i ≤ shardIdx k then (s.master.keyspace k).filter carried else s.snapshot k) :
    Run (syncStep carried) G s (copyShards n) { s with phase := .locked numShards false, snapshot } := by
  induction n generalizing s i with
  | zero =>
    have hi : i = numShards := hn
    have heq : snapshot = s.snapshot := by
      funext k; rw [hsnap k, if_neg (not_le.2 (hi ▸ Nat.mod_lt _ (by decide)))]
    rw [heq, ← hi, ← hph]
    exact .nil s
  | succ n ih =>
  let s1 : SyncState ν ι := { s with
    phase := .locked i true
    snapshot := fun k => if shardIdx k = i then (s.master.keyspace k).filter carried else s.snapshot k }
  have h1 : syncStep carried s .copy = some s1 := by
    rw [syncStep, hph]; exact if_pos (by omega)
  have h2 : syncStep carried s1 .serialize = some { s1 with phase := .locked (i + 1) false } := rfl
  refine .cons (hG s rfl).1 h1 (.cons (hG s1 rfl).2 h2 ?_)
  refine ih hG rfl (by omega) fun k => ?_
  rw [hsnap k]
  by_cases hk : shardIdx k = i
  · simp [s1, hk]
  · have hlt : i ≤ shardIdx k ↔ i + 1 ≤ shardIdx k := by omega
    simp [s1, hk, hlt]

def incrEffect (k : Bytes) : Effect Bytes Nat := .onKey k fun v => some (v.getD 0 + 1)

/-- One write before the resynchronisation, fed, and one after it. -/
def syncBetweenWrites : List (SyncAct Nat Unit) :=
  [.client (.acquire () (incrEffect [107])) false, .client (.apply ()) false, .client (.feed ()) false,
    .client (.release ()) false, .lock] ++ (copyShards numShards ++ [.unlock,
    .client (.acquire () (incrEffect [107])) false, .client (.apply ()) false, .client (.feed ()) false])

lemma syncBetweenWrites_run : ∃ s : SyncState Nat Unit,
    Run (syncStep fun _ => true) (CopiedBetweenWrites fun _ => true) (.start fun _ => none) syncBetweenWrites s ∧
      s.phase = .streaming ∧ s.queue.length = 1 ∧ ∀ c, s.master.unfed c = none := by
  have hidle {s : SyncState Nat Unit} {a : FeedAct Bytes Nat Unit} (h : NoOvertaking s.master a) :
      CopiedBetweenWrites (fun _ => true) s (.client a false) := ⟨h, nofun⟩
  refine ⟨_, .append (.cons (hidle trivial) rfl <| .cons (hidle ?_) rfl <| .cons (hidle trivial) rfl <|
    .cons (hidle trivial) rfl <| .cons trivial rfl <| .nil _) (.append (copyShards_run (fun s' hs' => ⟨?_, trivial⟩)
    rfl (Nat.zero_add _) fun _ => rfl) (.cons trivial rfl <| .cons (hidle trivial) rfl <| .cons (hidle ?_) rfl <|
    .cons (hidle trivial) rfl <| .nil _)), rfl, rfl, fun _ => rfl⟩
  · intro _ _ _ _ _ _ h; cases h
  · intro i k _ _
    refine ⟨fun c e he => ?_, fun _ _ => rfl⟩
    rw [hs'] at he; cases he
  · intro _ _ _ _ _ _ h; cases h

theorem full_sync_exact_between_writes : ∃ s : SyncState Nat Unit,
    Run (syncStep fun _ => true) (CopiedBetweenWrites fun _ => true) (.start fun _ => none) syncBetweenWrites s ∧
      ∀ k, replay s.snapshot s.queue k = s.master.keyspace k := by
  obtain ⟨s, hrun, hph, -, hu⟩ := syncBetweenWrites_run
  refine ⟨s, hrun, fun k => full_sync_exact hrun hph k fun c e he => ?_⟩
  rw [hu c] at he; cases he

/-- A write applied before the snapshot and fed after it: the master counted one, the replica two. -/
theorem full_sync_applies_twice : ∃ s : SyncState Nat Unit, Run (syncStep fun _ => true) Free (.start fun _ => none)
      ([.client (.acquire () (incrEffect [107])) false, .client (.apply ()) false, .lock] ++
        (copyShards numShards ++ [.unlock, .client (.feed ()) false, .client (.release ()) false])) s ∧
      s.phase = .streaming ∧ (∀ c, s.master.unfed c = none) ∧
      s.master.keyspace [107] = some 1 ∧ replay s.snapshot s.queue [107] = some 2 :=
  ⟨_, .append (.of_runAll rfl) (.append (copyShards_run (fun _ _ => ⟨trivial, trivial⟩) rfl (Nat.zero_add _)
    fun _ => rfl) (.of_runAll rfl)), rfl, fun _ => rfl, by decide, by decide⟩

end Gopherdis.Replication

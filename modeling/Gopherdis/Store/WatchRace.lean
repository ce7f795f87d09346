/-
`WATCH`, the cleanup of `UNWATCH`, `DISCARD` and `EXEC`, and writes, as the steps that are atomic: registering a
watched key and reading its version are two, and a cleanup that brings the number of watched keys to zero still
has its 64 shards to clear. None can decide to clear while a key stays watched, but one that decided before may
clear after the key's version was read.
-/
import Gopherdis.Lib.Runs
import Gopherdis.Lib.Shares
import Gopherdis.Store.Versions

namespace Gopherdis.Store

open Lib List Option Versions

/-! ## The steps -/

/-- Where a client is: between commands, in `WATCH` with the key counted and its version still to be
read, or in `RemoveWatchers` with the next shard to clear. -/
inductive WatchPhase
  | idle
  | reading (key : Bytes)
  | clearing (shard : Nat)
deriving DecidableEq

structure WatchClient where
  watched : Watched
  phase : WatchPhase

open WatchClient

structure WatchState (ι : Type) where
  vs : Versions
  client : ι → WatchClient

inductive WatchAct (ι : Type)
  | addWatcher (c : ι) (key : Bytes)
  | readVersion (c : ι)
  | removeWatchers (c : ι)
  | clearShard (c : ι)
  | bumpVersion (key : Bytes)
  | touch (key : Bytes)
deriving DecidableEq

variable {ι : Type} [DecidableEq ι]

def WatchState.start : WatchState ι := ⟨.start, fun _ => ⟨[], .idle⟩⟩

variable (s : WatchState ι) (c : ι) (x : WatchClient)

def WatchState.setClient : WatchState ι :=
  { s with client := Function.update s.client c x }

def watchStep : WatchAct ι → Option (WatchState ι)
  | .addWatcher c key =>
    match (s.client c).phase with
    | .idle =>
      let vs := if (s.client c).watched.has key then s.vs else s.vs.addWatchers 1
      some ({ s with vs }.setClient c { s.client c with phase := .reading key })
    | _ => none
  | .readVersion c =>
    match (s.client c).phase with
    | .reading key => some (s.setClient c ⟨(s.client c).watched.put key (s.vs.version key), .idle⟩)
    | _ => none
  | .removeWatchers c =>
    match (s.client c).phase with
    | .idle =>
      if (s.client c).watched = [] then some s
      else
        let vs := s.vs.addWatchers (-(s.client c).watched.length)
        some ({ s with vs }.setClient c ⟨[], if 0 < vs.watchers then .idle else .clearing 0⟩)
    | _ => none
  | .clearShard c =>
    match (s.client c).phase with
    | .clearing i =>
      let phase := if i + 1 < numShards then .clearing (i + 1) else .idle
      some ({ s with vs := s.vs.clearShard i }.setClient c { s.client c with phase })
    | _ => none
  | .bumpVersion key => some { s with vs := s.vs.bumpVersion key }
  | .touch key => some { s with vs := s.vs.touch key }

@[simp] lemma setClient_vs : (s.setClient c x).vs = s.vs := rfl

@[simp] lemma setClient_self : (s.setClient c x).client c = x := by
  simp [WatchState.setClient]

lemma setClient_of_ne {c d : ι} (h : d ≠ c) : (s.setClient c x).client d = s.client d := by
  simp [WatchState.setClient, h]

variable {s : WatchState ι}

lemma watchStep_cases {s' : WatchState ι} {a : WatchAct ι} (h : watchStep s a = some s') :
    (∃ c key, a = .addWatcher c key ∧ (s.client c).phase = .idle ∧
      s' = { s with vs := if (s.client c).watched.has key then s.vs else s.vs.addWatchers 1 }.setClient c
        { s.client c with phase := .reading key }) ∨
    (∃ c key, a = .readVersion c ∧ (s.client c).phase = .reading key ∧
      s' = s.setClient c ⟨(s.client c).watched.put key (s.vs.version key), .idle⟩) ∨
    (∃ c, a = .removeWatchers c ∧ (s.client c).phase = .idle ∧ (s.client c).watched = [] ∧ s' = s) ∨
    (∃ c, a = .removeWatchers c ∧ (s.client c).phase = .idle ∧ (s.client c).watched ≠ [] ∧
      s' = { s with vs := s.vs.addWatchers (-(s.client c).watched.length) }.setClient c
        ⟨[], if 0 < s.vs.watchers - (s.client c).watched.length then .idle else .clearing 0⟩) ∨
    (∃ c i, a = .clearShard c ∧ (s.client c).phase = .clearing i ∧
      s' = { s with vs := s.vs.clearShard i }.setClient c
        { s.client c with phase := if i + 1 < numShards then .clearing (i + 1) else .idle }) ∨
    (∃ key, a = .bumpVersion key ∧ s' = { s with vs := s.vs.bumpVersion key }) ∨
    (∃ key, a = .touch key ∧ s' = { s with vs := s.vs.touch key }) := by
  cases a with
  | addWatcher c key =>
    simp only [watchStep] at h
    split at h
    · next hp => exact .inl ⟨c, key, rfl, hp, (some.inj h).symm⟩
    · cases h
  | readVersion c =>
    simp only [watchStep] at h
    split at h
    · next key hp => exact .inr (.inl ⟨c, key, rfl, hp, (some.inj h).symm⟩)
    · cases h
  | removeWatchers c =>
    simp only [watchStep] at h
    split at h
    · next hp =>
      by_cases hw : (s.client c).watched = []
      · rw [if_pos hw] at h
        exact .inr (.inr (.inl ⟨c, rfl, hp, hw, (some.inj h).symm⟩))
      · rw [if_neg hw] at h
        exact .inr (.inr (.inr (.inl ⟨c, rfl, hp, hw, (some.inj h).symm⟩)))
    · cases h
  | clearShard c =>
    simp only [watchStep] at h
    split at h
    · next i hp => exact .inr (.inr (.inr (.inr (.inl ⟨c, i, rfl, hp, (some.inj h).symm⟩))))
    · cases h
  | bumpVersion key => exact .inr (.inr (.inr (.inr (.inr (.inl ⟨key, rfl, (some.inj h).symm⟩)))))
  | touch key => exact .inr (.inr (.inr (.inr (.inr (.inr ⟨key, rfl, (some.inj h).symm⟩)))))

/-! ## The gate -/

/-- How many of the watched keys a client accounts for. -/
def WatchClient.registered : Nat :=
  x.watched.length +
    match x.phase with
    | .reading key => if x.watched.has key then 0 else 1
    | _ => 0

/-- The gate is at least the number of the keys the clients watch. -/
def WatchState.Gated : Prop := Covers s.vs.watchers fun c => (s.client c).registered

lemma registered_setClient : (fun d => ((s.setClient c x).client d).registered) =
      Function.update (fun d => (s.client d).registered) c x.registered := by
  funext d
  by_cases h : d = c
  · subst h; simp
  · rw [setClient_of_ne s x h, Function.update_of_ne h]

lemma Gated.setClient (h : s.Gated) {c : ι} {x : WatchClient} {vs : Versions}
    (hw : s.vs.watchers - (s.client c).registered + x.registered ≤ vs.watchers) :
    ({ s with vs }.setClient c x).Gated := by
  unfold WatchState.Gated
  rw [registered_setClient]
  exact (Covers.update h c x.registered).mono hw

lemma gated_step {s' : WatchState ι} {a : WatchAct ι} (h : s.Gated) (hs : watchStep s a = some s') : s'.Gated := by
  obtain ⟨c, key, -, hp, rfl⟩ | ⟨c, key, -, hp, rfl⟩ | ⟨c, -, hp, hw, rfl⟩ | ⟨c, -, hp, hw, rfl⟩ |
    ⟨c, i, -, hp, rfl⟩ | ⟨key, -, rfl⟩ | ⟨key, -, rfl⟩ := watchStep_cases hs
  · apply Gated.setClient h
    simp only [registered, hp]
    split_ifs
    · simp
    · simp only [addWatchers_watchers, Nat.cast_add, Nat.cast_one]
      omega
  · apply Gated.setClient h
    simp only [registered, hp, Watched.length_put]
    split_ifs <;> simp
  · exact h
  · apply Gated.setClient h
    have hr : (s.client c).registered = (s.client c).watched.length := by simp [registered, hp]
    rw [hr]
    split_ifs <;> simp [registered]
  · apply Gated.setClient h
    simp only [registered, hp]
    split_ifs <;> simp
  all_goals simpa [WatchState.Gated] using h

lemma gated_run {as : List (WatchAct ι)} (h : Run watchStep Free .start as s) : s.Gated :=
  h.inv (fun hi _ hs => gated_step hi hs) Covers.none

/-! ## A key under watch -/

/-- The steps that leave what `A` watches `k` with: it does not watch `k` again, and does not stop
watching. -/
def Keeps (A : ι) (k : Bytes) (_ : WatchState ι) (a : WatchAct ι) : Prop :=
  a ≠ .addWatcher A k ∧ a ≠ .removeWatchers A

/-- The writes of `k` among the steps. -/
def writesOf (k : Bytes) (as : List (WatchAct ι)) : Nat := as.countP fun a => a = .bumpVersion k ∨ a = .touch k

/-- Some cleanup has yet to clear the shard of `k`. -/
def WatchState.ClearPending (k : Bytes) : Prop :=
  ∃ c i, (s.client c).phase = .clearing i ∧ i ≤ shardIdx k

/-- `A` watches `k` with the version `v`, and `k` has been written `n` times since. -/
structure Watching (A : ι) (k : Bytes) (v : UInt64) (n : Nat) (s : WatchState ι) : Prop where
  gated : s.Gated
  stored : (s.client A).watched.stored k = some v
  phase : (s.client A).phase ≠ .reading k
  version : s.vs.version k = v + UInt64.ofNat n
  settled : ¬ s.ClearPending k

namespace Watching

variable {A : ι} {k : Bytes} {v : UInt64} {n : Nat} {s s' : WatchState ι} {a : WatchAct ι}

omit [DecidableEq ι] in
lemma registered_pos (h : Watching A k v n s) : 0 < (s.client A).registered := by
  have := length_pos_of_mem (Watched.mem_of_stored h.stored)
  unfold registered
  omega

omit [DecidableEq ι] in
lemma watchers_pos (h : Watching A k v n s) : 0 < s.vs.watchers := by
  have := Covers.share_le h.gated A
  have := h.registered_pos
  omega

lemma not_clearPending_setClient {c : ι} {x : WatchClient} (h : ¬ s.ClearPending k)
    (hx : ∀ i, x.phase = .clearing i → shardIdx k < i) : ¬ (s.setClient c x).ClearPending k := by
  rintro ⟨d, i, hd, hi⟩
  by_cases hdc : d = c
  · subst hdc
    rw [setClient_self] at hd
    exact absurd (hx i hd) (by omega)
  · rw [setClient_of_ne s x hdc] at hd
    exact h ⟨d, i, hd, hi⟩

omit [DecidableEq ι] in
lemma write (h : Watching A k v n s) (key : Bytes) :
    Watching A k v (n + if k = key then 1 else 0) { s with vs := s.vs.count key } where
  gated := by simpa [WatchState.Gated] using h.gated
  stored := h.stored
  phase := h.phase
  version := by
    rw [count_version, h.version, UInt64.ofNat_add, ← UInt64.add_assoc]
    split_ifs <;> rfl
  settled := h.settled

lemma step (h : Watching A k v n s) (hk : Keeps A k s a) (hs : watchStep s a = some s') :
    Watching A k v (n + writesOf k [a]) s' := by
  have hg := gated_step h.gated hs
  obtain ⟨c, key, rfl, hp, rfl⟩ | ⟨c, key, rfl, hp, rfl⟩ | ⟨c, rfl, hp, hw, rfl⟩ | ⟨c, rfl, hp, hw, rfl⟩ |
    ⟨c, i, rfl, hp, rfl⟩ | ⟨key, rfl, rfl⟩ | ⟨key, rfl, rfl⟩ := watchStep_cases hs
  · refine ⟨hg, ?_, ?_, ?_, not_clearPending_setClient h.settled nofun⟩
    · by_cases hc : A = c
      · subst hc; simpa using h.stored
      · rw [setClient_of_ne _ _ hc]; exact h.stored
    · by_cases hc : A = c
      · subst hc
        rw [setClient_self]
        rintro ⟨⟩
        exact hk.1 rfl
      · rw [setClient_of_ne _ _ hc]; exact h.phase
    · have hv : (if (s.client c).watched.has key then s.vs else s.vs.addWatchers 1).version k = s.vs.version k := by
        split_ifs <;> rfl
      simpa [writesOf, hv] using h.version
  · refine ⟨hg, ?_, ?_, by simpa [writesOf] using h.version, not_clearPending_setClient h.settled nofun⟩
    · by_cases hc : A = c
      · subst hc
        have hne : k ≠ key := fun he => h.phase (he ▸ hp)
        rw [setClient_self, Watched.stored_put, if_neg hne]
        exact h.stored
      · rw [setClient_of_ne _ _ hc]; exact h.stored
    · by_cases hc : A = c
      · subst hc; rw [setClient_self]; exact nofun
      · rw [setClient_of_ne _ _ hc]; exact h.phase
  · exact ⟨hg, h.stored, h.phase, by simpa [writesOf] using h.version, h.settled⟩
  · have hc : A ≠ c := fun hc => hk.2 (hc ▸ rfl)
    -- the share of `A` keeps the gate open, so nothing is cleared
    have hopen : 0 < s.vs.watchers - (s.client c).watched.length := by
      have hpair := Covers.pair_le h.gated hc
      have hr : (s.client c).registered = (s.client c).watched.length := by simp [registered, hp]
      have := h.registered_pos
      omega
    refine ⟨hg, ?_, ?_, by simpa [writesOf] using h.version, not_clearPending_setClient h.settled ?_⟩
    · rw [setClient_of_ne _ _ hc]; exact h.stored
    · rw [setClient_of_ne _ _ hc]; exact h.phase
    · rw [if_pos hopen]; exact nofun
  · have hlt : shardIdx k < i := by
      by_contra hle
      exact h.settled ⟨c, i, hp, by omega⟩
    refine ⟨hg, ?_, ?_, ?_, not_clearPending_setClient h.settled ?_⟩
    · by_cases hc : A = c
      · subst hc; rw [setClient_self]; exact h.stored
      · rw [setClient_of_ne _ _ hc]; exact h.stored
    · by_cases hc : A = c
      · subst hc
        rw [setClient_self]
        split_ifs <;> exact nofun
      · rw [setClient_of_ne _ _ hc]; exact h.phase
    · have hv : (s.vs.clearShard i).version k = s.vs.version k := if_neg (by omega)
      simpa [writesOf, hv] using h.version
    · intro j hj
      split_ifs at hj
      cases hj
      omega
  · have := h.write key
    rw [bumpVersion_eq _ h.watchers_pos]
    simpa [writesOf, eq_comm] using this
  · have := h.write key
    rw [touch_eq _ h.watchers_pos]
    simpa [writesOf, eq_comm] using this

lemma run {as : List (WatchAct ι)} (h : Watching A k v n s) (hr : Run watchStep (Keeps A k) s as s') :
    Watching A k v (n + writesOf k as) s' := by
  induction hr generalizing n with
  | nil => exact h
  | @cons s s₁ s2 a as hk hs _ ih =>
    have := ih (h.step hk hs)
    rwa [Nat.add_assoc, show writesOf k [a] + writesOf k as = writesOf k (a :: as) by
      rw [← singleton_append (l := as), writesOf, writesOf, writesOf, countP_append]] at this

end Watching

/-! ## A pending clear -/

section
variable {A : ι} {k : Bytes} {s : WatchState ι}

lemma run_clears {c : ι} (d : Nat) {i : Nat} (hp : (s.client c).phase = .clearing i) (hi : i + d = shardIdx k) :
    ∃ s', Run watchStep (Keeps A k) s (List.replicate (d + 1) (.clearShard c)) s' ∧ s'.vs.version k = 0 ∧
      s'.vs.watchers = s.vs.watchers ∧ ∀ c' ≠ c, s'.client c' = s.client c' := by
  induction d generalizing s i with
  | zero =>
    have hstep : watchStep s (.clearShard c) =
        some ({ s with vs := s.vs.clearShard i }.setClient c
          { s.client c with phase := if i + 1 < numShards then .clearing (i + 1) else .idle }) := by
      simp [watchStep, hp]
    exact ⟨_, .cons ⟨nofun, nofun⟩ hstep (.nil _), if_pos (by omega), rfl, fun c' hc' => setClient_of_ne _ _ hc'⟩
  | succ d ih =>
  have hlt : i + 1 < numShards := by have := shardIdx_lt k; omega
  set s₁ := { s with vs := s.vs.clearShard i }.setClient c { s.client c with phase := .clearing (i + 1) } with hs1
  have hstep : watchStep s (.clearShard c) = some s₁ := by simp [watchStep, hp, if_pos hlt, hs1]
  obtain ⟨s', hr, hv, hw, hc⟩ := ih (s := s₁) (by rw [hs1, setClient_self]) (by omega)
  exact ⟨s', .cons ⟨nofun, nofun⟩ hstep hr, hv, hw, fun c' hc' => (hc c' hc').trans (setClient_of_ne _ _ hc')⟩

lemma run_bumps (n : Nat) (hw : 0 < s.vs.watchers) :
    ∃ s', Run watchStep (Keeps A k) s (List.replicate n (.bumpVersion k)) s' ∧
      s'.vs.version k = s.vs.version k + UInt64.ofNat n ∧ s'.client = s.client := by
  induction n generalizing s with
  | zero => exact ⟨s, .nil _, by simp, rfl⟩
  | succ n ih =>
  have hstep : watchStep s (.bumpVersion k) = some { s with vs := s.vs.count k } := by
    rw [watchStep, bumpVersion_eq _ hw]
  obtain ⟨s', hr, hv, hc⟩ := ih (s := { s with vs := s.vs.count k }) hw
  refine ⟨s', .cons ⟨nofun, nofun⟩ hstep hr, ?_, hc⟩
  rw [hv, count_version, if_pos rfl, Nat.add_comm n, UInt64.ofNat_add, UInt64.add_assoc]
  rfl

lemma run_missed (hg : s.Gated) (hA : 0 < (s.client A).registered) (hpend : s.ClearPending k) :
    ∃ as s', Run watchStep (Keeps A k) s as s' ∧ 0 < writesOf k as ∧ writesOf k as < 2 ^ 64 ∧
      s'.vs.version k = s.vs.version k := by
  obtain ⟨c, i, hp, hi⟩ := hpend
  obtain ⟨d, hd⟩ := Nat.exists_eq_add_of_le hi
  have hw : 0 < s.vs.watchers := by
    have := Covers.share_le hg A
    omega
  have hclears : ∀ n, writesOf k (List.replicate n (WatchAct.clearShard c)) = 0 := fun n => by simp [writesOf]
  have hbumps : ∀ n, writesOf k (List.replicate n (WatchAct.bumpVersion k : WatchAct ι)) = n := fun n => by
    simp [writesOf, countP_replicate]
  have happ : ∀ as bs : List (WatchAct ι), writesOf k (as ++ bs) = writesOf k as + writesOf k bs := fun as bs =>
    countP_append
  by_cases hv : s.vs.version k = 0
  · -- one write, undone by the clear
    obtain ⟨s₁, hr1, -, hc⟩ := run_bumps 1 hw
    obtain ⟨s2, hr2, hv2, -⟩ := run_clears d (hc ▸ hp) hd.symm
    refine ⟨_, s2, hr1.append hr2, ?_, ?_, hv2.trans hv.symm⟩ <;> rw [happ, hbumps, hclears] <;> decide
  -- the clear, and writes up to the version again
  have hpos : 0 < (s.vs.version k).toNat := by
    rw [Nat.pos_iff_ne_zero]
    exact fun h => hv (UInt64.toNat_inj.1 h)
  obtain ⟨s₁, hr1, hv1, hw1, -⟩ := run_clears d hp hd.symm
  obtain ⟨s2, hr2, hv2, -⟩ := run_bumps (s.vs.version k).toNat (hw1 ▸ hw)
  refine ⟨_, s2, hr1.append hr2, ?_, ?_, ?_⟩
  · rw [happ, hbumps, hclears]; omega
  · rw [happ, hbumps, hclears, Nat.zero_add]; exact UInt64.toNat_lt _
  · rw [hv2, hv1, UInt64.ofNat_toNat, UInt64.zero_add]

end

/-! ## Which writes are seen -/

/-- `A` is about to read the version of `k`. Every later write of `k` shows in the version, whatever the
others do, exactly if no cleanup has yet to clear the shard of `k`. -/
theorem watched_write_seen_iff {s : WatchState ι} {as₀ : List (WatchAct ι)} {A : ι} {k : Bytes}
    (h : Run watchStep Free .start as₀ s) (hp : (s.client A).phase = .reading k) :
    (∀ s₁ as s', watchStep s (.readVersion A) = some s₁ → Run watchStep (Keeps A k) s₁ as s' →
        0 < writesOf k as → writesOf k as < 2 ^ 64 →
        (s'.client A).watched.stored k = some (s.vs.version k) ∧ s'.vs.version k ≠ s.vs.version k) ↔
      ¬ s.ClearPending k := by
  set s₁ := s.setClient A ⟨(s.client A).watched.put k (s.vs.version k), .idle⟩ with hs1
  have hstep : watchStep s (.readVersion A) = some s₁ := by simp [watchStep, hp, hs1]
  have hstored : (s₁.client A).watched.stored k = some (s.vs.version k) := by
    rw [hs1, setClient_self, Watched.stored_put, if_pos rfl]
  have hg : s₁.Gated := gated_step (gated_run h) hstep
  constructor
  · rintro hall hpend
    have hpend1 : s₁.ClearPending k := by
      obtain ⟨c, i, hc, hi⟩ := hpend
      have hne : c ≠ A := by
        rintro rfl
        rw [hp] at hc
        cases hc
      exact ⟨c, i, by rw [hs1, setClient_of_ne s _ hne]; exact hc, hi⟩
    have hA : 0 < (s₁.client A).registered := by
      have := length_pos_of_mem (Watched.mem_of_stored hstored)
      unfold WatchClient.registered
      omega
    obtain ⟨as, s', hr, hpos, hlt, hv⟩ := run_missed hg hA hpend1
    exact (hall s₁ as s' hstep hr hpos hlt).2 hv
  · intro hsettled s1' as s' hs hr hpos hlt
    obtain rfl : s₁ = s1' := some.inj (hstep.symm.trans hs)
    have hw : Watching A k (s.vs.version k) 0 s₁ :=
      ⟨hg, hstored, by rw [hs1, setClient_self]; exact nofun, by simp [hs1],
        Watching.not_clearPending_setClient hsettled nofun⟩
    have hw' := hw.run hr
    refine ⟨hw'.stored, ?_⟩
    rw [hw'.version, Nat.zero_add]
    intro heq
    have hz : UInt64.ofNat (writesOf k as) = 0 := by simpa using heq
    have := congrArg UInt64.toNat hz
    rw [UInt64.toNat_ofNat_of_lt' hlt] at this
    exact absurd this (by simpa using hpos.ne')

/-- A client that watches while nobody cleans up. -/
theorem lone_watch_seen : ∃ s : WatchState Bool, Run watchStep Free .start [.addWatcher true []] s ∧
    ∀ s₁ as s', watchStep s (.readVersion true) = some s₁ → Run watchStep (Keeps true []) s₁ as s' →
      0 < writesOf [] as → writesOf [] as < 2 ^ 64 →
      (s'.client true).watched.stored [] = some (s.vs.version []) ∧ s'.vs.version [] ≠ s.vs.version [] := by
  have hrun : Run watchStep Free .start [.addWatcher true []]
      ({ (WatchState.start : WatchState Bool) with vs := start.addWatchers 1 }.setClient true
        ⟨[], .reading []⟩) := .cons trivial rfl (.nil _)
  refine ⟨_, hrun, (watched_write_seen_iff hrun rfl).2 ?_⟩
  rintro ⟨_ | _, i, hi, -⟩ <;> cases hi

/-- The other client decides to clear; `true` watches the empty key and reads version 0; the key is
written, and then its shard, the sixth, is cleared. -/
theorem watched_write_missed : ∃ s s₁ s' : WatchState Bool, Run watchStep Free .start
      [.addWatcher false [], .readVersion false, .removeWatchers false, .addWatcher true []] s ∧
    watchStep s (.readVersion true) = some s₁ ∧
    Run watchStep (Keeps true []) s₁ (.bumpVersion [] :: List.replicate 6 (.clearShard false)) s' ∧
    (s'.client true).watched.stored [] = some (s'.vs.version []) := by
  have hrun : ∃ s, runAll watchStep (.start : WatchState Bool)
      [.addWatcher false [], .readVersion false, .removeWatchers false, .addWatcher true []] = some s ∧
      s.vs.version [] = 0 ∧ s.vs.watchers = 1 ∧ s.client true = ⟨[], .reading []⟩ ∧
      s.client false = ⟨[], .clearing 0⟩ := ⟨_, rfl, rfl, rfl, rfl, rfl⟩
  obtain ⟨s, hs, hv, hw, ht, hf⟩ := hrun
  have hstep : watchStep s (.readVersion true) = some (s.setClient true ⟨[([], 0)], .idle⟩) := by
    simp only [watchStep, ht, hv]
    rfl
  obtain ⟨s2, hr2, -, hc2⟩ := run_bumps (s := s.setClient true ⟨[([], 0)], .idle⟩) 1
    (by rw [setClient_vs, hw]; decide)
  obtain ⟨s3, hr3, hv3, -, hc3⟩ := run_clears (k := []) (c := false) 5
    (by rw [hc2, setClient_of_ne _ _ (by decide), hf]) (by decide)
  refine ⟨s, _, s3, .of_runAll hs, hstep, hr2.append hr3, ?_⟩
  rw [hc3 true (by decide), hc2, setClient_self, hv3]
  rfl

end Gopherdis.Store

/-
The order in which write commands reach the sink. A client applies its command under the key lock, releases that
and then feeds the command, all under the shared operation lock; expiry removes a key under the shard lock and
feeds `DEL` after it. So two effects on one key can be fed in the other order. When no effect takes place on a
key while another on it is still to be fed, the fed commands replayed from the initial keyspace give the
keyspace, key by key.
-/
import Gopherdis.Lib.Decimal
import Gopherdis.Lib.Effects
import Gopherdis.Lib.Runs

namespace Gopherdis.Replication

open Lib Function

variable {κ ν ι : Type} [DecidableEq κ] [DecidableEq ι]

/-- Where a client or an expiring goroutine stands. A command that expires a key on its way (lazy
expiry in `Get`) does so as a goroutine of its own. -/
inductive Proc (κ ν : Type)
  | idle
  | locked (e : Effect κ ν)
  | applied (e : Effect κ ν)
  | fed
  | removed (k : κ)

/-- The effect a process has had on the keyspace and not yet fed. -/
def Proc.unfed : Proc κ ν → Option (Effect κ ν)
  | .applied e => some e
  | .removed k => some (.erase k)
  | _ => none

structure FeedState (κ ν ι : Type) where
  keyspace : KeyMap κ ν
  procs : ι → Proc κ ν
  fed : List (Effect κ ν)

open FeedState

inductive FeedAct (κ ν ι : Type)
  | acquire (i : ι) (e : Effect κ ν)
  | apply (i : ι)
  | feed (i : ι)
  | release (i : ι)
  | expire (i : ι) (k : κ)

def FeedState.start (m : KeyMap κ ν) : FeedState κ ν ι := ⟨m, fun _ => .idle, []⟩

variable (s : FeedState κ ν ι)

def FeedState.setProc (i : ι) (p : Proc κ ν) : FeedState κ ν ι :=
  { s with procs := update s.procs i p }

def feedStep : FeedAct κ ν ι → Option (FeedState κ ν ι)
  | .acquire i e =>
    match s.procs i with
    | .idle => some (s.setProc i (.locked e))
    | _ => none
  | .apply i =>
    match s.procs i with
    | .locked e => some { s.setProc i (.applied e) with keyspace := e.run s.keyspace }
    | _ => none
  | .feed i =>
    match s.procs i with
    | .applied e => some { s.setProc i .fed with fed := s.fed ++ [e] }
    | .removed k => some { s.setProc i .idle with fed := s.fed ++ [.erase k] }
    | _ => none
  | .release i =>
    match s.procs i with
    | .fed => some (s.setProc i .idle)
    | _ => none
  | .expire i k =>
    match s.procs i, s.keyspace k with
    | .idle, some _ => some { s.setProc i (.removed k) with keyspace := (Effect.erase k).run s.keyspace }
    | _, _ => none

/-- The effects that have taken place and are still to be fed. -/
def FeedState.unfed (s : FeedState κ ν ι) (i : ι) : Option (Effect κ ν) := (s.procs i).unfed

/-- An effect takes place only on keys on which no other is still to be fed. -/
def NoOvertaking : FeedAct κ ν ι → Prop
  | .apply i => ∀ e, s.procs i = .locked e → ∀ k ∈ e.keys, Untouched s.unfed k
  | .expire _ k => Untouched s.unfed k
  | _ => True

/-! ## What a step does to the keyspace, the unfed effects and the fed commands -/

lemma unfed_setProc (i : ι) (p : Proc κ ν) : (s.setProc i p).unfed = update s.unfed i p.unfed := by
  funext j
  by_cases h : j = i
  · subst h; simp [unfed, setProc]
  · simp [unfed, setProc, h]

variable {a : FeedAct κ ν ι}

lemma feedStep_cases {s s' : FeedState κ ν ι} (h : feedStep s a = some s') :
    (s'.keyspace = s.keyspace ∧ s'.unfed = s.unfed ∧ s'.fed = s.fed) ∨
    (∃ i e, s.unfed i = none ∧ s'.keyspace = e.run s.keyspace ∧ s'.unfed = update s.unfed i (some e) ∧
      s'.fed = s.fed ∧ (NoOvertaking s a → ∀ k ∈ e.keys, Untouched s.unfed k)) ∨
    (∃ i e, a = .feed i ∧ s.unfed i = some e ∧ s'.keyspace = s.keyspace ∧
      s'.unfed = update s.unfed i none ∧ s'.fed = s.fed ++ [e]) := by
  have hquiet {i : ι} {p : Proc κ ν} (hi : s.unfed i = p.unfed) : update s.unfed i p.unfed = s.unfed := by
    rw [← hi, update_eq_self]
  cases a with
  | acquire i e =>
    rw [feedStep] at h
    split at h <;> cases h
    rename_i hp
    exact .inl ⟨rfl, by rw [unfed_setProc, hquiet (by rw [unfed, hp]; rfl)], rfl⟩
  | apply i =>
    rw [feedStep] at h
    split at h <;> cases h
    rename_i e hp
    exact .inr (.inl ⟨i, e, by rw [unfed, hp]; rfl, rfl, unfed_setProc s i (.applied e), rfl,
      fun hg => hg e hp⟩)
  | feed i =>
    rw [feedStep] at h
    split at h <;> cases h
    · rename_i e hp
      exact .inr (.inr ⟨i, e, rfl, by rw [unfed, hp]; rfl, rfl, unfed_setProc s i .fed, rfl⟩)
    · rename_i k hp
      exact .inr (.inr ⟨i, .erase k, rfl, by rw [unfed, hp]; rfl, rfl, unfed_setProc s i .idle, rfl⟩)
  | release i =>
    rw [feedStep] at h
    split at h <;> cases h
    rename_i hp
    exact .inl ⟨rfl, by rw [unfed_setProc, hquiet (by rw [unfed, hp]; rfl)], rfl⟩
  | expire i k =>
    rw [feedStep] at h
    split at h <;> cases h
    rename_i hp _
    refine .inr (.inl ⟨i, .erase k, by rw [unfed, hp]; rfl, rfl, unfed_setProc s i (.removed k), rfl,
      fun hg k' hk' => ?_⟩)
    obtain rfl := Finset.mem_singleton.1 hk'
    exact hg

/-! ## Whole runs -/

/-- The keyspace is the replay of the fed commands plus the unfed effects. -/
def FeedState.Tracked (m : KeyMap κ ν) (s : FeedState κ ν ι) : Prop :=
  Tracks Set.univ (replay m s.fed) s.keyspace s.unfed

lemma feedStep_tracked {m : KeyMap κ ν} {s s' : FeedState κ ν ι} (h : s.Tracked m)
    (hg : NoOvertaking s a) (hs : feedStep s a = some s') : s'.Tracked m := by
  unfold FeedState.Tracked at h ⊢
  obtain ⟨hk, hu, hf⟩ | ⟨i, e, hi, hk, hu, hf, hfree⟩ | ⟨i, e, -, hi, hk, hu, hf⟩ := feedStep_cases hs
  · rw [hk, hu, hf]; exact h
  · rw [hk, hu, hf]; exact h.take hi (hfree hg)
  · rw [hk, hu, hf, replay_concat]; exact h.tell hi

/-- In every run in which no effect overtakes an unfed one on the same key, the fed commands
replayed from the initial keyspace give what the master holds, on every key whose effects are all
fed. -/
theorem replay_fed_eq_keyspace {m : KeyMap κ ν} {as : List (FeedAct κ ν ι)} {s : FeedState κ ν ι}
    (h : Run feedStep NoOvertaking (.start m) as s) (k : κ) (hk : Untouched s.unfed k) :
    replay m s.fed k = s.keyspace k := by
  have ht : s.Tracked m := h.inv feedStep_tracked Tracks.start
  exact (ht.rest k trivial hk).symm

def setEffect (k v : Bytes) : Effect Bytes Bytes := .onKey k fun _ => some v

lemma inOrder_run : ∃ s : FeedState Bytes Bytes Bool, Run feedStep NoOvertaking (.start fun _ => none)
      [.acquire true (setEffect [107] [49]), .acquire false (setEffect [107] [50]), .apply true, .feed true,
        .apply false, .feed false, .release true, .release false] s ∧ ∀ i, s.unfed i = none := by
  refine ⟨_, .cons trivial rfl <| .cons trivial rfl <| .cons ?_ rfl <| .cons trivial rfl <| .cons ?_ rfl <|
    .cons trivial rfl <| .cons trivial rfl <| .cons trivial rfl <| .nil _, by intro i; cases i <;> rfl⟩
  all_goals intro _ _ _ _ i e hi; cases i <;> cases hi

theorem inOrder_replay_fed : ∃ s : FeedState Bytes Bytes Bool, Run feedStep NoOvertaking (.start fun _ => none)
      [.acquire true (setEffect [107] [49]), .acquire false (setEffect [107] [50]), .apply true, .feed true,
        .apply false, .feed false, .release true, .release false] s ∧
    ∀ k, replay (fun _ => none) s.fed k = s.keyspace k := by
  obtain ⟨s, hrun, hs⟩ := inOrder_run
  refine ⟨s, hrun, fun k => replay_fed_eq_keyspace hrun k fun i e hi => ?_⟩
  rw [hs i] at hi; cases hi

/-- Two clients set one key and feed in the other order: the master holds the second value, the
replay of what it fed the first. -/
theorem feed_overtakes : ∃ s : FeedState Bytes Bytes Bool, Run feedStep Free (.start fun _ => none)
      [.acquire true (setEffect [107] [49]), .acquire false (setEffect [107] [50]), .apply true, .apply false,
        .feed false, .feed true, .release true, .release false] s ∧
    (∀ i, s.unfed i = none) ∧ s.keyspace [107] = some [50] ∧ replay (fun _ => none) s.fed [107] = some [49] :=
  ⟨_, .of_runAll rfl, by intro i; cases i <;> rfl, by decide, by decide⟩

end Gopherdis.Replication

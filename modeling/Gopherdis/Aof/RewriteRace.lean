/-
`AOF.Rewrite` against client writes. A write holds the shared operation lock from its application to the end of
its `Feed`, which is two steps: the append to the double buffer, then to the rewrite buffer. When no `Feed` runs
between the drain of the rewrite buffer and the installation of the new file, every write is in the file exactly
once; one that falls in that window is lost.
-/
import Gopherdis.Lib.Runs

namespace Gopherdis.Aof

open Lib Finset

variable {W : Type} [DecidableEq W]

/-- An append-only file: the writes its base snapshot represents and the commands after it. -/
structure Contents (W : Type) where
  base : Finset W
  cmds : List W

open Contents

/-- How often a write is represented in a file. -/
def Contents.count (c : Contents W) (w : W) : Nat := (if w ∈ c.base then 1 else 0) + c.cmds.count w

variable (c : Contents W)

def Contents.append (ws : List W) : Contents W := { c with cmds := c.cmds ++ ws }

/-- How far the running `Rewrite` has come, with what it has put in the temp file. -/
inductive Phase (W : Type)
  | idle
  | snapshotted (base : Finset W)
  | drained (base : Finset W) (diffCmds : List W)
  | synced (temp : Contents W)
  | closed (temp : Contents W)
  | renamed (temp : Contents W)

/-- The state that `Feed` and `Rewrite` share. The writes in `applied` have taken place; `unfed`
and `halfFed` are those whose client is before, or between, the two steps of `Feed`. -/
structure RewriteState (W : Type) where
  applied : Finset W
  unfed : Finset W
  halfFed : Finset W
  file : Contents W
  doubleBuf : List W
  isRewriting : Bool
  rewriteBuf : List W
  phase : Phase W

inductive RewriteAct (W : Type)
  | apply (w : W)
  | bufferWrite (w : W)
  | rewriteAppend (w : W)
  | flush
  | snapshot
  | drain
  | sync
  | close
  | rename
  | install

def RewriteState.start : RewriteState W :=
  ⟨∅, ∅, ∅, ⟨∅, []⟩, [], false, [], .idle⟩

variable (s : RewriteState W)

def RewriteState.flush : RewriteState W :=
  { s with file := s.file.append s.doubleBuf, doubleBuf := [] }

def rewriteStep : RewriteAct W → Option (RewriteState W)
  | .apply w =>
    if w ∈ s.applied then none
    else some { s with applied := insert w s.applied, unfed := insert w s.unfed }
  | .bufferWrite w =>
    if w ∈ s.unfed then
      some { s with unfed := s.unfed.erase w, halfFed := insert w s.halfFed, doubleBuf := s.doubleBuf ++ [w] }
    else none
  | .rewriteAppend w =>
    if w ∈ s.halfFed then
      some { s with
        halfFed := s.halfFed.erase w
        rewriteBuf := if s.isRewriting then s.rewriteBuf ++ [w] else s.rewriteBuf }
    else none
  | .flush =>
    match s.phase with
    -- the old file is closed: a flush now would be an I/O error
    | .closed _ | .renamed _ => none
    | _ => some s.flush
  | .snapshot =>
    match s.phase with
    | .idle =>
      -- `BeginTx` waits for the writes that hold the shared lock
      if s.unfed = ∅ ∧ s.halfFed = ∅ then
        some { s with isRewriting := true, rewriteBuf := [], phase := .snapshotted s.applied }
      else none
    | _ => none
  | .drain =>
    match s.phase with
    | .snapshotted base =>
      some { s with isRewriting := false, rewriteBuf := [], phase := .drained base s.rewriteBuf }
    | _ => none
  | .sync =>
    match s.phase with
    | .drained base diffCmds => some { s with phase := .synced ⟨base, diffCmds⟩ }
    | _ => none
  | .close =>
    match s.phase with
    | .synced temp => some { s.flush with phase := .closed temp }
    | _ => none
  | .rename =>
    match s.phase with
    | .closed temp => some { s with phase := .renamed temp }
    | _ => none
  | .install =>
    match s.phase with
    | .renamed temp => some { s with file := temp, doubleBuf := [], phase := .idle }
    | _ => none

/-- From the drain of the rewrite buffer to the installation of the new file. -/
def Phase.swapping : Phase W → Prop
  | .idle | .snapshotted _ => False
  | _ => True

/-- No `Feed` runs in the swap: at the drain none is between its two steps, and none begins before
the new buffer is installed. -/
def FeedOutsideSwap : RewriteAct W → Prop
  | .drain => s.halfFed = ∅
  | .bufferWrite _ => ¬ s.phase.swapping
  | _ => True

/-! ## The invariant -/

/-- The file represents each of the writes `ws` once and no other. -/
def Contents.Represents (ws : Finset W) : Prop := ∀ w, c.count w = if w ∈ ws then 1 else 0

/-- What the phase says of the current file and of the one to come. -/
def PhaseInv : Prop :=
  match s.phase with
  | .idle => s.isRewriting = false ∧ (s.file.append s.doubleBuf).Represents (s.applied \ s.unfed)
  | .snapshotted base =>
    s.isRewriting = true ∧ (s.file.append s.doubleBuf).Represents (s.applied \ s.unfed) ∧
      (Contents.mk base s.rewriteBuf).Represents (s.applied \ (s.unfed ∪ s.halfFed))
  | .drained base diffCmds =>
    s.isRewriting = false ∧ s.halfFed = ∅ ∧ (Contents.mk base diffCmds).Represents (s.applied \ s.unfed)
  | .synced temp | .closed temp | .renamed temp =>
    s.isRewriting = false ∧ s.halfFed = ∅ ∧ temp.Represents (s.applied \ s.unfed)

structure RewriteInv (s : RewriteState W) : Prop where
  unfed : s.unfed ⊆ s.applied
  halfFed : s.halfFed ⊆ s.applied
  apart : Disjoint s.unfed s.halfFed
  phase : PhaseInv s

variable {w : W}

lemma Contents.Represents.concat {c : Contents W} {ws : Finset W} (h : c.Represents ws) (hw : w ∉ ws) :
    (c.append [w]).Represents (insert w ws) := by
  intro v
  have hv := h v
  unfold count at hv
  unfold append count
  rw [List.count_append, ← Nat.add_assoc, hv, List.count_singleton]
  by_cases hvw : w = v
  · subst hvw; simp [hw]
  · simp [hvw, Ne.symm hvw]

omit [DecidableEq W] in
lemma Contents.append_append (us vs : List W) : (c.append us).append vs = c.append (us ++ vs) := by
  unfold append; rw [List.append_assoc]

lemma RewriteInv.start : RewriteInv (RewriteState.start : RewriteState W) where
  unfed := subset_rfl
  halfFed := subset_rfl
  apart := disjoint_bot_left
  phase := ⟨rfl, fun w => by simp [RewriteState.start, append, count]⟩

/-! ## One lemma per kind of step -/

variable {s : RewriteState W}

lemma RewriteInv.apply (h : RewriteInv s) (hw : w ∉ s.applied) :
    RewriteInv { s with applied := insert w s.applied, unfed := insert w s.unfed } := by
  have hu : insert w s.applied \ insert w s.unfed = s.applied \ s.unfed := by
    ext v; have := @h.unfed v; by_cases hv : v = w <;> simp_all
  have huh : insert w s.applied \ (insert w s.unfed ∪ s.halfFed) = s.applied \ (s.unfed ∪ s.halfFed) := by
    ext v; by_cases hv : v = w <;> simp_all
  refine ⟨insert_subset_insert _ h.unfed, fun v hv => mem_insert_of_mem (h.halfFed hv), ?_, ?_⟩
  · rw [disjoint_insert_left]
    exact ⟨fun hv => hw (h.halfFed hv), h.apart⟩
  · have hp := h.phase
    unfold PhaseInv at hp ⊢
    cases hph : s.phase <;> simp only [hph] at hp ⊢ <;> simp only [hu, huh] <;> exact hp

lemma RewriteInv.bufferWrite (h : RewriteInv s) (hw : w ∈ s.unfed) (hsw : ¬ s.phase.swapping) : RewriteInv { s with
      unfed := s.unfed.erase w, halfFed := insert w s.halfFed, doubleBuf := s.doubleBuf ++ [w] } := by
  have hu : insert w (s.applied \ s.unfed) = s.applied \ s.unfed.erase w := by
    ext v; have := h.unfed hw; by_cases hv : v = w <;> simp_all
  have huh : s.applied \ (s.unfed.erase w ∪ insert w s.halfFed) = s.applied \ (s.unfed ∪ s.halfFed) := by
    ext v; by_cases hv : v = w <;> simp_all
  have hcur (hr : (s.file.append s.doubleBuf).Represents (s.applied \ s.unfed)) :
      (s.file.append (s.doubleBuf ++ [w])).Represents (s.applied \ s.unfed.erase w) := by
    rw [← append_append, ← hu]
    exact hr.concat (by simp [hw])
  refine ⟨(erase_subset ..).trans h.unfed, insert_subset (h.unfed hw) h.halfFed, ?_, ?_⟩
  · rw [disjoint_insert_right]
    exact ⟨notMem_erase _ _, disjoint_of_subset_left (erase_subset ..) h.apart⟩
  · have hp := h.phase
    unfold PhaseInv at hp ⊢
    cases hph : s.phase with
    | idle => simp only [hph] at hp ⊢; exact ⟨hp.1, hcur hp.2⟩
    | snapshotted base => simp only [hph] at hp ⊢; exact ⟨hp.1, hcur hp.2.1, huh ▸ hp.2.2⟩
    | drained | synced | closed | renamed => rw [hph] at hsw; exact absurd trivial hsw

lemma RewriteInv.rewriteAppend (h : RewriteInv s) (hw : w ∈ s.halfFed) : RewriteInv { s with
      halfFed := s.halfFed.erase w
      rewriteBuf := if s.isRewriting then s.rewriteBuf ++ [w] else s.rewriteBuf } := by
  have hnu : w ∉ s.unfed := disjoint_right.1 h.apart hw
  refine ⟨h.unfed, (erase_subset ..).trans h.halfFed,
    disjoint_of_subset_right (erase_subset ..) h.apart, ?_⟩
  have hp := h.phase
  unfold PhaseInv at hp ⊢
  cases hph : s.phase with
  | idle => simp only [hph] at hp ⊢; exact hp
  | snapshotted base =>
    simp only [hph] at hp ⊢
    have huh : insert w (s.applied \ (s.unfed ∪ s.halfFed)) = s.applied \ (s.unfed ∪ s.halfFed.erase w) := by
      ext v; have := h.halfFed hw; by_cases hv : v = w <;> simp_all
    refine ⟨hp.1, hp.2.1, ?_⟩
    rw [if_pos hp.1, ← huh]
    exact hp.2.2.concat (by simp [hw])
  | drained | synced | closed | renamed =>
    -- in the swap no write is between its two steps
    simp only [hph] at hp
    rw [hp.2.1] at hw
    exact absurd hw (notMem_empty w)

omit [DecidableEq W] in
lemma flush_append : s.flush.file.append s.flush.doubleBuf = s.file.append s.doubleBuf := by
  unfold RewriteState.flush
  rw [append_append, List.append_nil]

lemma RewriteInv.flush (h : RewriteInv s) : RewriteInv s.flush := by
  refine ⟨h.unfed, h.halfFed, h.apart, ?_⟩
  have hp := h.phase
  unfold PhaseInv at hp ⊢
  rw [flush_append]
  exact hp

lemma RewriteInv.snapshot (h : RewriteInv s) (hph : s.phase = .idle) (hu : s.unfed = ∅) (hh : s.halfFed = ∅) :
    RewriteInv { s with isRewriting := true, rewriteBuf := [], phase := .snapshotted s.applied } := by
  refine ⟨h.unfed, h.halfFed, h.apart, ?_⟩
  have hp := h.phase
  unfold PhaseInv at hp ⊢
  rw [hph] at hp
  refine ⟨rfl, hp.2, fun w => ?_⟩
  simp [count, hu, hh]

lemma RewriteInv.drain (h : RewriteInv s) {base : Finset W} (hph : s.phase = .snapshotted base) (hh : s.halfFed = ∅) :
    RewriteInv { s with isRewriting := false, rewriteBuf := [], phase := .drained base s.rewriteBuf } := by
  refine ⟨h.unfed, h.halfFed, h.apart, ?_⟩
  have hp := h.phase
  unfold PhaseInv at hp ⊢
  rw [hph] at hp
  refine ⟨rfl, hh, ?_⟩
  have := hp.2.2
  rwa [hh, union_empty] at this

lemma rewriteStep_inv {s' : RewriteState W} {a : RewriteAct W} (h : RewriteInv s) (hg : FeedOutsideSwap s a)
    (hs : rewriteStep s a = some s') : RewriteInv s' := by
  have hp := h.phase
  unfold PhaseInv at hp
  cases a with
  | apply w =>
    rw [rewriteStep] at hs
    split_ifs at hs with hw
    cases hs; exact h.apply hw
  | bufferWrite w =>
    rw [rewriteStep] at hs
    split_ifs at hs with hw
    cases hs; exact h.bufferWrite hw hg
  | rewriteAppend w =>
    rw [rewriteStep] at hs
    by_cases hw : w ∈ s.halfFed
    · rw [if_pos hw] at hs
      cases hs; exact h.rewriteAppend hw
    · rw [if_neg hw] at hs; cases hs
  | flush =>
    rw [rewriteStep] at hs
    split at hs <;> cases hs
    exact h.flush
  | snapshot =>
    rw [rewriteStep] at hs
    split at hs
    · split_ifs at hs with hi
      cases hs; exact h.snapshot ‹_› hi.1 hi.2
    · cases hs
  | drain =>
    rw [rewriteStep] at hs
    split at hs <;> cases hs
    exact h.drain ‹_› hg
  | sync | close | rename =>
    rw [rewriteStep] at hs
    split at hs <;> cases hs
    rename_i hph
    rw [hph] at hp
    exact ⟨h.unfed, h.halfFed, h.apart, hp⟩
  | install =>
    rw [rewriteStep] at hs
    split at hs <;> cases hs
    rename_i temp hph
    rw [hph] at hp
    refine ⟨h.unfed, h.halfFed, h.apart, hp.1, ?_⟩
    simpa [append] using hp.2.2

/-! ## Whole runs -/

/-- In every run in which no `Feed` falls in the swap, whenever no rewrite is running every write
that has passed `DoubleBuffer.Write` is, the current buffer flushed, in the file exactly once. -/
theorem rewrite_represents_once {as : List (RewriteAct W)} {s : RewriteState W}
    (h : Run rewriteStep FeedOutsideSwap .start as s) (hidle : s.phase = .idle) :
    ∀ w ∈ s.applied, w ∉ s.unfed → s.flush.file.count w = 1 := by
  have hi : RewriteInv s := h.inv rewriteStep_inv .start
  have hp := hi.phase
  unfold PhaseInv at hp
  rw [hidle] at hp
  intro w hw hu
  rw [show s.flush.file = s.file.append s.doubleBuf from rfl, hp.2 w, if_pos (mem_sdiff.2 ⟨hw, hu⟩)]

/-- A rewrite between two writes, with a third one applied during it. -/
def quietRewrite : List (RewriteAct Nat) :=
  [.apply 0, .bufferWrite 0, .rewriteAppend 0, .snapshot, .apply 1, .bufferWrite 1, .rewriteAppend 1, .drain,
    .apply 2, .sync, .close, .rename, .install, .bufferWrite 2, .rewriteAppend 2]

lemma quietRewrite_run : ∃ s, Run rewriteStep FeedOutsideSwap .start quietRewrite s ∧ s.phase = .idle ∧
    s.applied = {2, 1, 0} ∧ s.unfed = ∅ :=
  ⟨_, .cons trivial rfl <| .cons id rfl <| .cons trivial rfl <| .cons trivial rfl <| .cons trivial rfl <|
    .cons id rfl <| .cons trivial rfl <| .cons rfl rfl <| .cons trivial rfl <| .cons trivial rfl <|
    .cons trivial rfl <| .cons trivial rfl <| .cons trivial rfl <| .cons id rfl <| .cons trivial rfl <| .nil _,
    rfl, by decide, by decide⟩

theorem quietRewrite_represents_once : ∃ s, Run rewriteStep FeedOutsideSwap .start quietRewrite s ∧
    ∀ w ∈ ({2, 1, 0} : Finset Nat), s.flush.file.count w = 1 := by
  obtain ⟨s, hrun, hidle, ha, hu⟩ := quietRewrite_run
  refine ⟨s, hrun, fun w hw => rewrite_represents_once hrun hidle w (ha ▸ hw) ?_⟩
  rw [hu]; exact notMem_empty w

/-- A write fed after the drain goes to the old buffer only: once `Rewrite` has returned it is in
the dataset and not in the file. -/
theorem rewrite_loses_write : ∃ s, Run (rewriteStep (W := Nat)) Free .start
      [.snapshot, .drain, .apply 0, .bufferWrite 0, .rewriteAppend 0, .sync, .close, .rename, .install] s ∧
    s.phase = .idle ∧ s.unfed = ∅ ∧ s.halfFed = ∅ ∧ 0 ∈ s.applied ∧ s.flush.file.count 0 = 0 :=
  ⟨_, .of_runAll rfl, rfl, by decide, by decide, by decide, by decide⟩

end Gopherdis.Aof

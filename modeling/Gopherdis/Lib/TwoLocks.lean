/-
Clients that take two locks one after the other. A command is a pair of locks, taken in that order and
given back in the other; a lock is not reentrant. Clients are deadlocked if each of them waits for a
lock that one of them holds. Which commands can come to that is read off the commands.
-/
import Gopherdis.Lib.Runs

namespace Gopherdis.Lib

open List Function

/-! ## The steps -/

/-- Where a client is with its two locks. -/
inductive LockStage (L : Type)
  | idle
  | atFirst (first second : L)
  | atSecond (first second : L)
  | inside (first second : L)
  | leaving (first : L)

structure LockState (ι L : Type) where
  stage : ι → LockStage L
  locked : L → Bool

inductive LockAct (ι L : Type)
  | start (c : ι) (first second : L)
  | acquire (c : ι)
  | release (c : ι)

variable {ι L : Type} [DecidableEq ι] [DecidableEq L]

def LockState.start : LockState ι L := ⟨fun _ => .idle, fun _ => false⟩

variable (s : LockState ι L)

def LockState.set (c : ι) (x : LockStage L) (l : L) (b : Bool) : LockState ι L :=
  ⟨update s.stage c x, update s.locked l b⟩

def lockStep : LockAct ι L → Option (LockState ι L)
  | .start c first second =>
    match s.stage c with
    | .idle => some { s with stage := update s.stage c (.atFirst first second) }
    | _ => none
  | .acquire c =>
    match s.stage c with
    | .atFirst f l => if s.locked f then none else some (s.set c (.atSecond f l) f true)
    | .atSecond f l => if s.locked l then none else some (s.set c (.inside f l) l true)
    | _ => none
  | .release c =>
    match s.stage c with
    | .inside f l => some (s.set c (.leaving f) l false)
    | .leaving f => some (s.set c .idle f false)
    | _ => none

/-- Each client starts only commands of its own. -/
def Allowed (cmds : ι → Set (L × L)) (_ : LockState ι L) : LockAct ι L → Prop
  | .start c first second => (first, second) ∈ cmds c
  | _ => True

def LockStage.Holds : LockStage L → L → Prop
  | .atSecond f _, l => l = f
  | .inside f f', l => l = f ∨ l = f'
  | .leaving f, l => l = f
  | _, _ => False

def LockStage.WaitsFor : LockStage L → L → Prop
  | .atFirst f _, l => l = f
  | .atSecond _ f', l => l = f'
  | _, _ => False

/-- Some clients each wait for a lock that one of them holds. -/
def Deadlocked : Prop :=
  ∃ S : Finset ι, S.Nonempty ∧ ∀ c ∈ S, ∃ l, (s.stage c).WaitsFor l ∧ ∃ d ∈ S, (s.stage d).Holds l

/-- Some clients have commands with different first locks, and the second lock of each is the first of
one of them. -/
def Knot (cmds : ι → Set (L × L)) : Prop :=
  ∃ (T : Finset ι) (cmd : ι → L × L), T.Nonempty ∧ (∀ c ∈ T, cmd c ∈ cmds c) ∧
    Set.InjOn (fun c => (cmd c).1) T ∧ ∀ c ∈ T, ∃ d ∈ T, (cmd c).2 = (cmd d).1

/-! ## Who holds what -/

/-- The command a client is at is one of its own, and its two locks differ once it has both. -/
def LockStage.Proper (cmds : Set (L × L)) : LockStage L → Prop
  | .idle | .leaving _ => True
  | .atFirst f l | .atSecond f l => (f, l) ∈ cmds
  | .inside f l => f ≠ l

structure LockInv (cmds : ι → Set (L × L)) (s : LockState ι L) : Prop where
  proper : ∀ c, (s.stage c).Proper (cmds c)
  locked : ∀ c l, (s.stage c).Holds l → s.locked l = true
  exclusive : ∀ c d l, (s.stage c).Holds l → (s.stage d).Holds l → c = d

variable {cmds : ι → Set (L × L)} {s s' : LockState ι L} {a : LockAct ι L}

omit [DecidableEq ι] [DecidableEq L] in
lemma lockInv_start : LockInv cmds (.start : LockState ι L) := ⟨fun _ => trivial, nofun, nofun⟩

lemma LockInv.take (h : LockInv cmds s) {c : ι} {x : LockStage L} {l : L} (hl : s.locked l = false)
    (hx : x.Proper (cmds c)) (hold : ∀ l', x.Holds l' → l' = l ∨ (s.stage c).Holds l') :
    LockInv cmds (s.set c x l true) := by
  have hfree : ∀ d, ¬ (s.stage d).Holds l := fun d hd => by
    rw [h.locked d l hd] at hl
    cases hl
  refine ⟨fun d => ?_, fun d l' hd => ?_, fun d e l' hd he => ?_⟩
  · by_cases hdc : d = c
    · subst hdc
      simpa [LockState.set] using hx
    · simpa [LockState.set, hdc] using h.proper d
  · by_cases hl' : l' = l
    · simp [LockState.set, hl']
    have : ∃ d, (s.stage d).Holds l' := by
      by_cases hdc : d = c
      · subst hdc
        simp only [LockState.set, update_self] at hd
        exact ⟨d, (hold l' hd).resolve_left hl'⟩
      · simp only [LockState.set, update_of_ne hdc] at hd
        exact ⟨d, hd⟩
    obtain ⟨d', hd'⟩ := this
    simpa [LockState.set, hl'] using h.locked d' l' hd'
  · -- whoever holds `l'` now and is not `c` held it before, so `l'` is not the lock that was free
    by_cases hdc : d = c <;> by_cases hec : e = c
    · rw [hdc, hec]
    · subst hdc
      simp only [LockState.set, update_self, update_of_ne hec] at hd he
      obtain rfl | hd' := hold l' hd
      · exact absurd he (hfree e)
      · exact h.exclusive _ _ l' hd' he
    · subst hec
      simp only [LockState.set, update_self, update_of_ne hdc] at hd he
      obtain rfl | he' := hold l' he
      · exact absurd hd (hfree d)
      · exact h.exclusive _ _ l' hd he'
    · simp only [LockState.set, update_of_ne hdc, update_of_ne hec] at hd he
      exact h.exclusive _ _ l' hd he

lemma LockInv.give (h : LockInv cmds s) {c : ι} {x : LockStage L} {l : L} (hl : (s.stage c).Holds l)
    (hx : x.Proper (cmds c)) (hold : ∀ l', x.Holds l' → l' ≠ l ∧ (s.stage c).Holds l') :
    LockInv cmds (s.set c x l false) := by
  have hbefore : ∀ d l', ((s.set c x l false).stage d).Holds l' → (s.stage d).Holds l' ∧ l' ≠ l := by
    intro d l' hd
    by_cases hdc : d = c
    · subst hdc
      simp only [LockState.set, update_self] at hd
      exact ⟨(hold l' hd).2, (hold l' hd).1⟩
    · simp only [LockState.set, update_of_ne hdc] at hd
      exact ⟨hd, fun he => hdc (h.exclusive d c l' hd (he ▸ hl))⟩
  refine ⟨fun d => ?_, fun d l' hd => ?_, fun d e l' hd he => ?_⟩
  · by_cases hdc : d = c
    · subst hdc
      simpa [LockState.set] using hx
    · simpa [LockState.set, hdc] using h.proper d
  · obtain ⟨hd', hne⟩ := hbefore d l' hd
    simpa [LockState.set, hne] using h.locked d l' hd'
  · exact h.exclusive d e l' (hbefore d l' hd).1 (hbefore e l' he).1

lemma lockInv_step (h : LockInv cmds s) (ha : Allowed cmds s a) (hs : lockStep s a = some s') : LockInv cmds s' := by
  cases a with
  | start c f l =>
    simp only [lockStep] at hs
    split at hs
    · next hc =>
      cases hs
      have hbefore : ∀ d l', ((update s.stage c (.atFirst f l)) d).Holds l' → (s.stage d).Holds l' := by
        intro d l' hd
        by_cases hdc : d = c
        · subst hdc
          simp [LockStage.Holds] at hd
        · rwa [update_of_ne hdc] at hd
      refine ⟨fun d => ?_, fun d l' hd => h.locked d l' (hbefore d l' hd), fun d e l' hd he =>
        h.exclusive d e l' (hbefore d l' hd) (hbefore e l' he)⟩
      by_cases hdc : d = c
      · subst hdc
        simp only [update_self]
        exact ha
      · simpa [hdc] using h.proper d
    · cases hs
  | acquire c =>
    have hp := h.proper c
    simp only [lockStep] at hs
    split at hs
    · next f l hc =>
      split_ifs at hs with hl
      cases hs
      rw [hc] at hp
      exact h.take (by simpa using hl) hp fun l' hl' => .inl hl'
    · next f l hc =>
      split_ifs at hs with hl
      cases hs
      have hf : s.locked f = true := h.locked c f (by rw [hc]; rfl)
      refine h.take (by simpa using hl) (fun he : f = l => hl (he ▸ hf)) fun l' hl' => ?_
      rw [hc]
      exact hl'.symm
    · cases hs
  | release c =>
    have hp := h.proper c
    simp only [lockStep] at hs
    split at hs
    · next f l hc =>
      cases hs
      rw [hc] at hp
      refine h.give (by rw [hc]; exact .inr rfl) trivial fun l' hl' => ?_
      rw [hc]
      exact ⟨fun he => hp (hl'.symm.trans he), .inl hl'⟩
    · next f hc =>
      cases hs
      exact h.give (by rw [hc]; rfl) trivial nofun
    · cases hs

/-! ## Deadlocks -/

omit [DecidableEq L] in
lemma knot_of_deadlocked (h : LockInv cmds s) (hd : Deadlocked s) : Knot cmds := by
  classical
  obtain ⟨S, ⟨c0, hc0⟩, hS⟩ := hd
  -- a client that waits and holds a lock is between its two
  have hbetween : ∀ c ∈ S, (∃ l, (s.stage c).Holds l) → ∃ p : L × L, s.stage c = .atSecond p.1 p.2 := by
    rintro c hc ⟨l, hl⟩
    obtain ⟨w, hw, -⟩ := hS c hc
    cases hst : s.stage c <;> rw [hst] at hl hw <;> first
      | exact ⟨(_, _), rfl⟩
      | exact absurd hl id
      | exact absurd hw id
  let T := S.filter fun c => ∃ l, (s.stage c).Holds l
  have hT : ∀ c ∈ T, ∃ p : L × L, s.stage c = .atSecond p.1 p.2 := fun c hc =>
    hbetween c (Finset.mem_filter.1 hc).1 (Finset.mem_filter.1 hc).2
  obtain ⟨w, -, d0, hd0, hh0⟩ := hS c0 hc0
  have hd₀T : d0 ∈ T := Finset.mem_filter.2 ⟨hd0, w, hh0⟩
  have : Nonempty (L × L) := ⟨(w, w)⟩
  let cmd : ι → L × L := fun c => if hc : c ∈ T then (hT c hc).choose else Classical.arbitrary _
  have hcmd : ∀ c ∈ T, s.stage c = .atSecond (cmd c).1 (cmd c).2 := by
    intro c hc
    simp only [cmd, dif_pos hc]
    exact (hT c hc).choose_spec
  refine ⟨T, cmd, ⟨d0, hd₀T⟩, fun c hc => ?_, fun c hc d hd he => ?_, fun c hc => ?_⟩
  · have := h.proper c
    rwa [hcmd c hc] at this
  · refine h.exclusive c d (cmd c).1 ?_ ?_
    · rw [hcmd c hc]; rfl
    · rw [hcmd d hd]; exact he
  · obtain ⟨l, hl, d, hd, hh⟩ := hS c (Finset.mem_filter.1 hc).1
    have hdT : d ∈ T := Finset.mem_filter.2 ⟨hd, l, hh⟩
    rw [hcmd c hc] at hl
    rw [hcmd d hdT] at hh
    exact ⟨d, hdT, hl.symm.trans hh⟩

lemma run_firsts (cmds : ι → Set (L × L)) (cmd : ι → L × L) : ∀ cs : List ι, cs.Nodup → (∀ c ∈ cs, cmd c ∈ cmds c) →
    Set.InjOn (fun c => (cmd c).1) {c | c ∈ cs} →
    ∃ as s, Run lockStep (Allowed cmds) .start as s ∧ (∀ c ∈ cs, s.stage c = .atSecond (cmd c).1 (cmd c).2) ∧
      (∀ c ∉ cs, s.stage c = .idle) ∧ ∀ l, s.locked l = true → ∃ c ∈ cs, (cmd c).1 = l
  | [], _, _, _ => ⟨[], .start, .nil _, nofun, fun _ _ => rfl, nofun⟩
  | c :: cs, hnd, hcmds, hinj => by
    obtain ⟨hc, hnd'⟩ := nodup_cons.1 hnd
    have hsub : {d | d ∈ cs} ⊆ {d | d ∈ c :: cs} := fun d hd => mem_cons_of_mem c hd
    obtain ⟨as, s, hr, hin, hout, hlock⟩ :=
      run_firsts cmds cmd cs hnd' (fun d hd => hcmds d (mem_cons_of_mem c hd)) (hinj.mono hsub)
    have hfree : s.locked (cmd c).1 = false := by
      rw [Bool.eq_false_iff]
      intro hl
      obtain ⟨d, hd, he⟩ := hlock _ hl
      exact hc (hinj (hsub hd) mem_cons_self he ▸ hd)
    set s1 : LockState ι L := { s with stage := update s.stage c (.atFirst (cmd c).1 (cmd c).2) } with hs1
    have hstart : lockStep s (.start c (cmd c).1 (cmd c).2) = some s1 := by simp [lockStep, hout c hc, hs1]
    have hacq : lockStep s1 (.acquire c) = some (s1.set c (.atSecond (cmd c).1 (cmd c).2) (cmd c).1 true) := by
      have hst : s1.stage c = .atFirst (cmd c).1 (cmd c).2 := by rw [hs1]; exact update_self ..
      have hl : s1.locked (cmd c).1 = false := hfree
      simp [lockStep, hst, hl, Bool.false_eq_true]
    have hrun : Run lockStep (Allowed cmds) s [.start c (cmd c).1 (cmd c).2, .acquire c] _ :=
      .cons (hcmds c mem_cons_self) hstart (.cons trivial hacq (.nil _))
    refine ⟨_, _, hr.append hrun, fun d hd => ?_, fun d hd => ?_, fun l hl => ?_⟩
    · by_cases hdc : d = c
      · subst hdc
        simp [LockState.set]
      · simpa [LockState.set, hs1, hdc] using hin d ((mem_cons.1 hd).resolve_left hdc)
    · obtain ⟨hdc, hd'⟩ := not_or.1 (mt mem_cons.2 hd)
      simpa [LockState.set, hs1, hdc] using hout d hd'
    · by_cases he : l = (cmd c).1
      · exact ⟨c, mem_cons_self, he.symm⟩
      · obtain ⟨d, hd, hd'⟩ := hlock l (by simpa [LockState.set, hs1, he] using hl)
        exact ⟨d, mem_cons_of_mem c hd, hd'⟩

lemma not_deadlocked_iff (cmds : ι → Set (L × L)) :
    (∀ as s, Run lockStep (Allowed cmds) .start as s → ¬ Deadlocked s) ↔ ¬ Knot cmds := by
  constructor
  · rintro hno ⟨T, cmd, hne, hcmds, hinj, hcyc⟩
    have hmem : ∀ c, c ∈ T.toList ↔ c ∈ T := fun c => Finset.mem_toList
    obtain ⟨as, s, hr, hin, -, -⟩ := run_firsts cmds cmd T.toList T.nodup_toList
      (fun c hc => hcmds c ((hmem c).1 hc)) fun c hc d hd he => hinj ((hmem c).1 hc) ((hmem d).1 hd) he
    refine hno as s hr ⟨T, hne, fun c hc => ?_⟩
    obtain ⟨d, hd, he⟩ := hcyc c hc
    refine ⟨(cmd c).2, ?_, d, hd, ?_⟩
    · rw [hin c ((hmem c).2 hc)]; rfl
    · rw [hin d ((hmem d).2 hd)]; exact he
  · intro hno as s hr hd
    exact hno (knot_of_deadlocked (hr.inv (fun hi ha hs => lockInv_step hi ha hs) lockInv_start) hd)

end Gopherdis.Lib

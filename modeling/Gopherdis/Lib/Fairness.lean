/-
Infinite runs of a transition system that are fair to one of its actions: from no point on is the
action enabled for ever and never taken. What such a run reaches is shown with a rank that no step
raises and the action lowers.
-/
import Gopherdis.Lib.Runs

namespace Gopherdis.Lib

variable {σ α : Type} {step : σ → α → Option σ} {a : α}

structure FairRun (step : σ → α → Option σ) (a : α) where
  state : ℕ → σ
  act : ℕ → α
  next : ∀ n, step (state n) (act n) = some (state (n + 1))
  fair : ∀ n, (∀ m ≥ n, (step (state m) a).isSome) → ∃ m ≥ n, act m = a

namespace FairRun

variable (r : FairRun step a)

lemma inv {I : σ → Prop} {t : ℕ} (h : I (r.state t))
    (hstep : ∀ n ≥ t, I (r.state n) → I (r.state (n + 1))) : ∀ n ≥ t, I (r.state n) := by
  intro n hn
  induction n, hn using Nat.le_induction with
  | base => exact h
  | succ n hn ih => exact hstep n hn ih

lemma eventually {I Q : σ → Prop} (rank : σ → ℕ) {t : ℕ} (h : I (r.state t))
    (henabled : ∀ n ≥ t, I (r.state n) → (step (r.state n) a).isSome)
    (hstep : ∀ n ≥ t, I (r.state n) → Q (r.state (n + 1)) ∨ I (r.state (n + 1)) ∧
      rank (r.state (n + 1)) ≤ rank (r.state n) ∧ (r.act n = a → rank (r.state (n + 1)) < rank (r.state n))) :
    ∃ n ≥ t, Q (r.state n) := by
  induction hr : rank (r.state t) using Nat.strong_induction_on generalizing t with
  | _ k ih =>
    by_contra hnever
    have hnot : ∀ n ≥ t, ¬ Q (r.state (n + 1)) := fun n hn hq => hnever ⟨n + 1, Nat.le_succ_of_le hn, hq⟩
    -- without the goal the action stays enabled and the rank does not grow
    have hI : ∀ n ≥ t, I (r.state n) ∧ rank (r.state n) ≤ k := by
      refine r.inv (I := fun s => I s ∧ rank s ≤ k) ⟨h, hr.le⟩ fun n hn hi => ?_
      obtain ⟨hi', hle, -⟩ := (hstep n hn hi.1).resolve_left (hnot n hn)
      exact ⟨hi', hle.trans hi.2⟩
    obtain ⟨m, hm, hact⟩ := r.fair t fun n hn => henabled n hn (hI n hn).1
    obtain ⟨hi', -, hlt⟩ := (hstep m hm (hI m hm).1).resolve_left (hnot m hm)
    have hm' : m + 1 ≥ t := Nat.le_succ_of_le hm
    obtain ⟨n, hn, hq⟩ := ih _ ((hlt hact).trans_le (hI m hm).2) hi'
      (fun n hn => henabled n (hm'.trans hn)) (fun n hn => hstep n (hm'.trans hn)) rfl
    exact hnever ⟨n, hm'.trans hn, hq⟩

end FairRun

/-! ## Runs that come to rest -/

/-- The states a list of actions goes through; after the last one nothing changes. -/
def statesOf (step : σ → α → Option σ) : σ → List α → ℕ → σ
  | s, [], _ => s
  | s, _ :: _, 0 => s
  | s, a :: as, n + 1 => statesOf step ((step s a).getD s) as n

lemma statesOf_zero (s : σ) (as : List α) : statesOf step s as 0 = s := by
  cases as <;> rfl

lemma statesOf_cons {s s1 : σ} {b : α} (h : step s b = some s1) (as : List α) (n : ℕ) :
    statesOf step s (b :: as) (n + 1) = statesOf step s1 as n := by
  rw [statesOf, h, Option.getD_some]

lemma statesOf_next {s s' : σ} {as : List α} {idle : α} (h : runAll step s as = some s')
    (hidle : step s' idle = some s') (n : ℕ) :
    step (statesOf step s as n) (as.getD n idle) = some (statesOf step s as (n + 1)) := by
  induction as generalizing s n with
  | nil => cases h; exact hidle
  | cons b as ih =>
  obtain ⟨s1, hs, h⟩ := Option.bind_eq_some_iff.1 h
  cases n with
  | zero =>
    rw [statesOf_cons hs, statesOf_zero, statesOf_zero]
    exact hs
  | succ n =>
    rw [statesOf_cons hs, statesOf_cons hs]
    exact ih h n

lemma statesOf_end {s s' : σ} {as : List α} (h : runAll step s as = some s') {n : ℕ} (hn : as.length ≤ n) :
    statesOf step s as n = s' := by
  induction as generalizing s n with
  | nil => cases h; rfl
  | cons b as ih =>
    obtain ⟨s1, hs, h⟩ := Option.bind_eq_some_iff.1 h
    obtain ⟨m, rfl⟩ := Nat.exists_eq_add_of_le' hn
    rw [List.length_cons, ← Nat.add_assoc, statesOf_cons hs]
    exact ih h (Nat.le_add_left _ _)

/-- A run that takes the actions of a list and stays where they lead, with the fair action disabled. -/
def FairRun.resting (s : σ) (as : List α) (idle : α) {s' : σ} (h : runAll step s as = some s')
    (hidle : step s' idle = some s') (hnot : step s' a = none) : FairRun step a where
  state := statesOf step s as
  act n := as.getD n idle
  next := statesOf_next h hidle
  fair n hn := by
    have hs := hn (n + as.length) (Nat.le_add_right _ _)
    rw [statesOf_end h (Nat.le_add_left _ _), hnot] at hs
    cases hs

end Gopherdis.Lib

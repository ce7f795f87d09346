/-
Runs of a labelled transition system given by its step function, and the invariant rule for them.
A guard restricts the runs: every step has to meet it in the state it is taken from.
-/
import Mathlib.Tactic

namespace Gopherdis.Lib

open List

variable {σ α : Type} {step : σ → α → Option σ} {G : σ → α → Prop}

/-- `Run step G s as s'`: the actions `as` lead from `s` to `s'`, each of them under the guard. -/
inductive Run (step : σ → α → Option σ) (G : σ → α → Prop) : σ → List α → σ → Prop
  | nil (s : σ) : Run step G s [] s
  | cons {s s' s'' : σ} {a : α} {as : List α} :
    G s a → step s a = some s' → Run step G s' as s'' → Run step G s (a :: as) s''

/-- The guard of the runs that are not restricted. -/
def Free (_ : σ) (_ : α) : Prop := True

variable {as : List α}

lemma Run.inv {I : σ → Prop} (hstep : ∀ {s s' : σ} {a : α}, I s → G s a → step s a = some s' → I s')
    {s s' : σ} (h : Run step G s as s') (h0 : I s) : I s' := by
  induction h with
  | nil => exact h0
  | cons hg hs _ ih => exact ih (hstep h0 hg hs)

lemma Run.append {s s' s'' : σ} {bs : List α} (h : Run step G s as s') (h' : Run step G s' bs s'') :
    Run step G s (as ++ bs) s'' := by
  induction h with
  | nil => exact h'
  | cons hg hs _ ih => exact .cons hg hs (ih h')

lemma Run.mono {G' : σ → α → Prop} (hG : ∀ s a, G s a → G' s a) {s s' : σ} (h : Run step G s as s') :
    Run step G' s as s' := by
  induction h with
  | nil => exact .nil _
  | cons hg hs _ ih => exact .cons (hG _ _ hg) hs ih

/-- The state a list of actions leads to, if all of them are enabled. -/
def runAll (step : σ → α → Option σ) : σ → List α → Option σ
  | s, [] => some s
  | s, a :: as => (step s a).bind fun s' => runAll step s' as

lemma Run.guarded {s s' : σ} (hg : ∀ s, ∀ a ∈ as, G s a) (h : runAll step s as = some s') : Run step G s as s' := by
  induction as generalizing s with
  | nil => cases h; exact .nil _
  | cons a as ih =>
    obtain ⟨s1, h1, h2⟩ := Option.bind_eq_some_iff.1 h
    exact .cons (hg s a mem_cons_self) h1 (ih (fun s a ha => hg s a (mem_cons_of_mem _ ha)) h2)

lemma Run.of_runAll {s s' : σ} (h : runAll step s as = some s') : Run step Free s as s' :=
  .guarded (fun _ _ _ => trivial) h

lemma Run.guarded_iff {I : σ → Prop} (hstep : ∀ {s s' : σ} {a : α}, I s → step s a = some s' → (I s' ↔ G s a))
    {s s' : σ} (h : Run step Free s as s') (h0 : I s) :
    (∀ bs cs t, as = bs ++ cs → Run step Free s bs t → I t) ↔ Run step G s as s' := by
  constructor
  · intro hall
    induction h with
    | nil => exact .nil _
    | @cons s s1 s'' a as _ hs _ ih =>
      have h1 : I s1 := hall [a] as s1 rfl (.cons trivial hs (.nil _))
      refine .cons ((hstep h0 hs).1 h1) hs (ih h1 fun bs cs t he hrun => ?_)
      exact hall (a :: bs) cs t (by rw [he, cons_append]) (.cons trivial hs hrun)
  · intro hrun bs cs t he hfree
    induction hfree generalizing as s' with
    | nil => exact h0
    | @cons s s1 t a bs _ hs hbs ih =>
    subst he
    obtain _ | ⟨hg, hs', hrest⟩ := hrun
    obtain rfl := Option.some.inj (hs.symm.trans hs')
    obtain _ | ⟨-, hs'', hfree⟩ := h
    obtain rfl := Option.some.inj (hs.symm.trans hs'')
    exact ih hfree ((hstep h0 hs).2 hg) hrest rfl

lemma Run.guarded_iff_of_inv {I J : σ → Prop} (hinv : ∀ {s s' : σ} {a : α}, J s → step s a = some s' → J s')
    (hstep : ∀ {s s' : σ} {a : α}, J s → I s → step s a = some s' → (I s' ↔ G s a))
    {s s' : σ} (h : Run step Free s as s') (hJ : J s) (h0 : I s) :
    (∀ bs cs t, as = bs ++ cs → Run step Free s bs t → I t) ↔ Run step G s as s' := by
  have hboth : ∀ {s s' : σ} {a : α}, J s ∧ I s → step s a = some s' → (J s' ∧ I s' ↔ G s a) := by
    intro s s' a hs hstep'
    rw [and_iff_right (hinv hs.1 hstep'), hstep hs.1 hs.2 hstep']
  rw [← Run.guarded_iff hboth h ⟨hJ, h0⟩]
  constructor
  · intro hall bs cs t he hrun
    exact ⟨hrun.inv (fun hs _ hstep' => hinv hs hstep') hJ, hall bs cs t he hrun⟩
  · intro hall bs cs t he hrun
    exact (hall bs cs t he hrun).2

/-! ## What the last action decides -/

/-- What the last action says that says something. -/
def lastOf {β : Type} (f : α → Option β) (as : List α) : Option β := (as.filterMap f).getLast?

lemma lastOf_concat {β : Type} (f : α → Option β) (as : List α) (a : α) :
    lastOf f (as ++ [a]) = (f a).or (lastOf f as) := by
  unfold lastOf
  cases h : f a with
  | none | some => simp [h]

lemma foldl_lastOf {β : Type} {act : σ → α → σ} {p : σ → β} {f : α → Option β}
    (h : ∀ s a, p (act s a) = (f a).getD (p s)) (s : σ) (as : List α) :
    p (as.foldl act s) = (lastOf f as).getD (p s) := by
  induction as using List.reverseRecOn with
  | nil => rfl
  | append_singleton as a ih =>
    rw [foldl_concat, h, ih, lastOf_concat]
    cases f a <;> rfl

/-! ## What is done and stays done -/

section
variable {act : σ → α → σ}

lemma foldl_of_fixed {s : σ} : ∀ {as : List α}, (∀ a ∈ as, act s a = s) → as.foldl act s = s
  | [], _ => rfl
  | a :: as, h => by
    rw [foldl_cons, h a mem_cons_self]
    exact foldl_of_fixed fun b hb => h b (mem_cons_of_mem _ hb)

lemma foldl_inv {P : σ → Prop} : ∀ {as : List α} {s : σ}, (∀ a ∈ as, ∀ s, P s → P (act s a)) → P s → P (as.foldl act s)
  | [], _, _, h0 => h0
  | a :: as, s, h, h0 => by
    rw [foldl_cons]
    exact foldl_inv (fun b hb => h b (mem_cons_of_mem _ hb)) (h a mem_cons_self s h0)

/-- What one action brings about, and no action undoes. -/
lemma foldl_brings {P : σ → Prop} {a : α} (ha : a ∈ as) (hdone : ∀ s, P (act s a))
    (hkept : ∀ b ∈ as, ∀ s, P s → P (act s b)) (s : σ) : P (as.foldl act s) := by
  obtain ⟨before, after, rfl⟩ := append_of_mem ha
  rw [foldl_append, foldl_cons]
  exact foldl_inv (fun b hb => hkept b (mem_append_right _ (mem_cons_of_mem _ hb))) (hdone _)

end

end Gopherdis.Lib

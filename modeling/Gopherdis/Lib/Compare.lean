/-
Computations compared. Two of them, from states of their own, may return the same and leave states that are
related; and one may do as another does from every state in which all that the other does is allowed.
-/
import Gopherdis.Lib.Trace

namespace Gopherdis.Lib.Traced

variable {σ ω α β : Type} {step : σ → ω → σ}

lemma read_bind_apply (f : σ → α) (g : α → Traced step β) (s : σ) : (read f >>= g) s = g (f s) s := rfl

lemma bind_apply_of_eq {m : Traced step α} {s : σ} {a : α} (h : m s = (a, [])) (f : α → Traced step β) :
    (m >>= f) s = f a s := by
  simp only [Bind.bind, h]
  rfl

/-! ## Side by side -/

/-- Both return the same, and leave states in `Q`. -/
def Both (m m' : Traced step α) (s s' : σ) (Q : α → σ → σ → Prop) : Prop :=
  m'.result s' = m.result s ∧ Q (m.result s) (m.after s) (m'.after s')

section
variable {m m' : Traced step α} {s s' : σ} {Q : α → σ → σ → Prop}

lemma both_pure {a : α} (h : Q a s s') : Both (pure a : Traced step α) (pure a) s s' Q := ⟨rfl, h⟩

lemma Both.bind {f f' : α → Traced step β} {P : β → σ → σ → Prop} (h : Both m m' s s' Q)
    (hf : ∀ a t t', Q a t t' → Both (f a) (f' a) t t' P) : Both (m >>= f) (m' >>= f') s s' P := by
  unfold Both
  rw [result_bind, result_bind, after_bind, after_bind, h.1]
  exact hf _ _ _ h.2

lemma both_of_ends {P P' : α → σ → Prop} (h : m.Ends s P) (h' : m'.Ends s' P')
    (hQ : ∀ a t a' t', P a t → P' a' t' → a' = a ∧ Q a t t') : Both m m' s s' Q := hQ _ _ _ _ h h'

end

/-! ## What is allowed -/

/-- Every operation is allowed where it is performed. -/
def Allowed (ok : σ → ω → Prop) (step : σ → ω → σ) : σ → List ω → Prop
  | _, [] => True
  | s, o :: os => ok s o ∧ Allowed ok step (step s o) os

instance Allowed.decidable {ok : σ → ω → Prop} [∀ s o, Decidable (ok s o)] :
    ∀ (s : σ) (os : List ω), Decidable (Allowed ok step s os)
  | _, [] => inferInstanceAs (Decidable True)
  | s, o :: os =>
    have : Decidable (Allowed ok step (step s o) os) := Allowed.decidable (step s o) os
    inferInstanceAs (Decidable (ok s o ∧ Allowed ok step (step s o) os))

lemma allowed_append {ok : σ → ω → Prop} {os' : List ω} : ∀ {s : σ} {os : List ω},
    Allowed ok step s (os ++ os') ↔ Allowed ok step s os ∧ Allowed ok step (os.foldl step s) os'
  | _, [] => by rw [List.nil_append, Allowed, true_and, List.foldl_nil]
  | s, o :: os => by
    rw [List.cons_append, Allowed, Allowed, allowed_append, and_assoc]
    rfl

/-- `m` does as `m0` does wherever all that `m0` does is allowed. -/
def AsIf (ok : σ → ω → Prop) (m m0 : Traced step α) : Prop := ∀ s, Allowed ok step s (m0.ops s) → m s = m0 s

section
variable {ok : σ → ω → Prop} {m m0 : Traced step α} {f f0 : α → Traced step β}

lemma AsIf.refl (ok : σ → ω → Prop) (m : Traced step α) : AsIf ok m m := fun _ _ => rfl

lemma AsIf.bind (h : AsIf ok m m0) (hf : ∀ a, AsIf ok (f a) (f0 a)) : AsIf ok (m >>= f) (m0 >>= f0) := by
  intro s hs
  obtain ⟨hfirst, hrest⟩ := allowed_append.1 hs
  have hm := h s hfirst
  have hnext := hf (m0.result s) (m0.after s) hrest
  simp only [Bind.bind, hm]
  exact congrArg (fun p : β × List ω => (p.1, m0.ops s ++ p.2)) hnext

lemma AsIf.ends {Q : α → σ → Prop} {s : σ} (h : AsIf ok m m0) (hs : Allowed ok step s (m0.ops s)) (he : m0.Ends s Q) :
    m.Ends s Q := by
  unfold Ends result after ops at he ⊢
  rw [h s hs]
  exact he

lemma asIf_bind (hf : ∀ a, AsIf ok (f a) (f0 a)) : AsIf ok (m >>= f) (m >>= f0) := (AsIf.refl ok m).bind hf

end

end Gopherdis.Lib.Traced

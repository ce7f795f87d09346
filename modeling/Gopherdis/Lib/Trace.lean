/-
Computations on a state that keep a record of what they do to it: such a computation reads the state,
performs operations one after the other, and returns a value. What an operation does is given by its
step; the state a computation leaves is the one its operations lead to.
-/
import Mathlib.Tactic

namespace Gopherdis.Lib

open List

variable {σ ω α β γ : Type}

/-- A computation on states `σ` by operations `ω`, each of which steps the state. -/
def Traced (_step : σ → ω → σ) (α : Type) : Type := σ → α × List ω

namespace Traced

variable {step : σ → ω → σ}

instance : Monad (Traced step) where
  pure a := fun _ => (a, [])
  bind m f := fun s =>
    let s' := (m s).2.foldl step s
    ((f (m s).1 s').1, (m s).2 ++ (f (m s).1 s').2)

variable (m : Traced step α) (f : α → Traced step β)

private lemma traced_bind_assoc (g : β → Traced step γ) : m >>= f >>= g = m >>= fun a => f a >>= g := by
  funext s
  simp [bind, foldl_append, append_assoc]

instance : LawfulMonad (Traced step) :=
  .mk' _ (fun m => funext fun s => congrArg (Prod.mk (m s).1) (append_nil _)) (fun _ _ => rfl) traced_bind_assoc

variable (s : σ)

def result : α := (m s).1

def ops : List ω := (m s).2

def after : σ := (m.ops s).foldl step s

def perform (o : ω) : Traced step Unit := fun _ => ((), [o])

def read (f : σ → α) : Traced step α := fun s => (f s, [])

section
variable (s : σ)

@[simp] lemma result_pure (a : α) : (pure a : Traced step α).result s = a := rfl

@[simp] lemma result_bind : (m >>= f).result s = (f (m.result s)).result (m.after s) := rfl

@[simp] lemma ops_bind : (m >>= f).ops s = m.ops s ++ (f (m.result s)).ops (m.after s) := rfl

@[simp] lemma after_bind : (m >>= f).after s = (f (m.result s)).after (m.after s) := by
  rw [after, ops_bind, foldl_append]
  rfl

variable (f : σ → α)

end

/-! ## What holds at the end -/

/-- From `s` the computation ends with a value and a state in `Q`. -/
def Ends (Q : α → σ → Prop) : Prop := Q (m.result s) (m.after s)

section
variable {s : σ} {m : Traced step α} {Q R : α → σ → Prop}

lemma Ends.mono (h : m.Ends s Q) (hQ : ∀ a s', Q a s' → R a s') : m.Ends s R := hQ _ _ h

lemma Ends.and (h : m.Ends s Q) (h' : m.Ends s R) : m.Ends s fun a s' => Q a s' ∧ R a s' := ⟨h, h'⟩

lemma ends_self : m.Ends s fun a s' => a = m.result s ∧ s' = m.after s := ⟨rfl, rfl⟩

variable {S : β → σ → Prop} {f : α → Traced step β}

lemma Ends.bind (h : m.Ends s Q) (hf : ∀ a s', Q a s' → (f a).Ends s' S) : (m >>= f).Ends s S := by
  unfold Ends
  rw [result_bind, after_bind]
  exact hf _ _ h

lemma ends_bind_of_eq {a : α} (h : m s = (a, [])) (hf : (f a).Ends s S) : (m >>= f).Ends s S := by
  have hm : m.Ends s fun a' s' => a' = a ∧ s' = s := ⟨congrArg Prod.fst h, by rw [after, ops, h]; rfl⟩
  refine hm.bind fun a' s' h' => ?_
  obtain ⟨rfl, rfl⟩ := h'
  exact hf

lemma ends_perform_bind {o : ω} {g : Unit → Traced step β} (h : (g ()).Ends (step s o) S) :
    (perform o >>= g).Ends s S := h

lemma ends_read_bind {f : σ → α} {g : α → Traced step β} (h : (g (f s)).Ends s S) : (read f >>= g).Ends s S := h

end

/-! ## Adding up over the operations -/

/-- A quantity that every operation changes in a known way, followed over a list of operations. -/
def follow (g : γ → σ → ω → γ) (step : σ → ω → σ) : γ → σ → List ω → γ
  | x, _, [] => x
  | x, s, o :: os => follow g step (g x s o) (step s o) os

lemma follow_eq {g : γ → σ → ω → γ} {f : σ → γ} (h : ∀ s o, f (step s o) = g (f s) s o) :
    ∀ (os : List ω) (s : σ), f (os.foldl step s) = follow g step (f s) s os
  | [], _ => rfl
  | o :: os, s => by
    rw [foldl_cons, follow_eq h os, follow, h]

end Traced

end Gopherdis.Lib

/-
Calls to an implementation one after the other, each with a reply, and the same operations on what the implementation
holds: if each call replies as the operation does, so does every sequence of calls.
-/
import Mathlib.Tactic

namespace Gopherdis.Lib

variable {σ α κ ω ρ : Type}

/-- The replies to calls, and the state they leave; a call may fail. -/
def calls (call : σ → κ → Option (σ × ρ)) : σ → List κ → Option (σ × List ρ)
  | s, [] => some (s, [])
  | s, c :: cs => do
    let r ← call s c
    let r' ← calls call r.1 cs
    some (r'.1, r.2 :: r'.2)

/-- The operations one after the other, where each has one result. -/
def answers (on : α → ω → α × ρ) : α → List ω → α × List ρ
  | a, [] => (a, [])
  | a, o :: os => ((answers on (on a o).1 os).1, (on a o).2 :: (answers on (on a o).1 os).2)

/-- The same where an operation may have several. -/
inductive Answers (On : α → ω → ρ → α → Prop) : α → List ω → List ρ → α → Prop
  | nil (a : α) : Answers On a [] [] a
  | cons {a a' a'' : α} {o : ω} {os : List ω} {r : ρ} {rs : List ρ} :
    On a o r a' → Answers On a' os rs a'' → Answers On a (o :: os) (r :: rs) a''

variable {call : σ → κ → Option (σ × ρ)} {op : κ → ω} {H : α → σ → Prop}

lemma calls_answers {on : α → ω → α × ρ}
    (hcall : ∀ {s a} c, H a s → ∃ s', call s c = some (s', (on a (op c)).2) ∧ H (on a (op c)).1 s')
    {s : σ} {a : α} (h : H a s) (cs : List κ) :
    ∃ s', calls call s cs = some (s', (answers on a (cs.map op)).2) ∧ H (answers on a (cs.map op)).1 s' := by
  induction cs generalizing s a with
  | nil => exact ⟨s, rfl, h⟩
  | cons c cs ih =>
    obtain ⟨s1, hone, h1⟩ := hcall c h
    obtain ⟨s2, hrest, h2⟩ := ih h1
    exact ⟨s2, by simp [calls, hone, hrest, answers], h2⟩

lemma calls_Answers {On : α → ω → ρ → α → Prop}
    (hcall : ∀ {s a} c, H a s → ∃ s' r a', call s c = some (s', r) ∧ On a (op c) r a' ∧ H a' s')
    {s : σ} {a : α} (h : H a s) (cs : List κ) :
    ∃ s' rs a', calls call s cs = some (s', rs) ∧ Answers On a (cs.map op) rs a' ∧ H a' s' := by
  induction cs generalizing s a with
  | nil => exact ⟨s, [], a, rfl, .nil a, h⟩
  | cons c cs ih =>
    obtain ⟨s1, r, a1, hone, hon, h1⟩ := hcall c h
    obtain ⟨s2, rs, a2, hrest, hons, h2⟩ := ih h1
    exact ⟨s2, r :: rs, a2, by simp [calls, hone, hrest], .cons hon hons, h2⟩

end Gopherdis.Lib

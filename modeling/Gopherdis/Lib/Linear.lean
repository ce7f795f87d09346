/-
Commands of several clients, put in one order. What a client was answered is right if it is what the command
answers when the commands before it have been run, one after the other.
-/
import Gopherdis.Lib.Trace

namespace Gopherdis.Lib

open List

variable {ι σ ρ : Type} {apply : ι → σ → ρ × σ} {s : σ} {order : List ι} {answer answer' : ι → Option ρ} {c : ι}

def seqState (apply : ι → σ → ρ × σ) (s : σ) (order : List ι) : σ := order.foldl (fun s c => (apply c s).2) s

lemma seqState_concat (apply : ι → σ → ρ × σ) (s : σ) (order : List ι) (c : ι) :
    seqState apply s (order ++ [c]) = (apply c (seqState apply s order)).2 := foldl_concat ..

/-- The clients that have an answer are those of the order, and the answers are those of the order. -/
structure Sequential (apply : ι → σ → ρ × σ) (s : σ) (order : List ι) (answer : ι → Option ρ) : Prop where
  nodup : order.Nodup
  answered : ∀ c, (answer c).isSome = true ↔ c ∈ order
  right : ∀ before c after, order = before ++ c :: after → answer c = some (apply c (seqState apply s before)).1

lemma sequential_nil (apply : ι → σ → ρ × σ) (s : σ) (h : ∀ c, answer c = none) : Sequential apply s [] answer where
  nodup := nodup_nil
  answered c := by simp [h c]
  right before c after he := by simp at he

lemma Sequential.concat (h : Sequential apply s order answer) (hnew : answer c = none)
    (hc : answer' c = some (apply c (seqState apply s order)).1) (hother : ∀ d, d ≠ c → answer' d = answer d) :
    Sequential apply s (order ++ [c]) answer' := by
  have hnot : c ∉ order := by
    intro hmem
    rw [← h.answered c, hnew] at hmem
    cases hmem
  refine ⟨?_, fun d => ?_, ?_⟩
  · rw [nodup_append]
    refine ⟨h.nodup, nodup_singleton c, fun a ha b hb he => ?_⟩
    rw [mem_singleton.1 hb] at he
    exact hnot (he ▸ ha)
  · by_cases hd : d = c
    · rw [hd, hc]
      simp
    · rw [hother d hd, h.answered d]
      simp [hd]
  · intro before d after he
    -- The new one is the last of the order, any other has those before it that it had.
    rcases eq_nil_or_concat after with rfl | ⟨after, e, rfl⟩
    · obtain ⟨rfl, hlast⟩ := append_inj' he rfl
      cases hlast
      exact hc
    have he' : order ++ [c] = (before ++ d :: after) ++ [e] := by
      rw [he, concat_eq_append, append_assoc, cons_append]
    obtain ⟨horder, -⟩ := append_inj' he' rfl
    have hd : d ≠ c := by
      rintro rfl
      exact hnot (horder ▸ by simp)
    rw [hother d hd]
    exact h.right before d after horder

lemma Sequential.congr (h : Sequential apply s order answer) (he : ∀ c, answer' c = answer c) :
    Sequential apply s order answer' := by
  obtain rfl : answer' = answer := funext he
  exact h

end Gopherdis.Lib

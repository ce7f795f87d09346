/-
Effects on a store of keys, each with a footprint, and a follower that is told of the leader's
effects some time after they took place. As long as no two untold effects share a key, the leader
is the follower plus its untold effects, key by key.
-/
import Mathlib.Tactic

namespace Gopherdis.Lib

variable {κ ν ι : Type}

abbrev KeyMap (κ ν : Type) := κ → Option ν

/-- A command's effect: it reads and writes only the keys of its footprint. -/
structure Effect (κ ν : Type) where
  keys : Finset κ
  run : KeyMap κ ν → KeyMap κ ν
  frame : ∀ m k, k ∉ keys → run m k = m k
  congr : ∀ m m', (∀ k ∈ keys, m k = m' k) → ∀ k ∈ keys, run m k = run m' k

/-- An effect that sets one key to a function of what the key held. -/
def Effect.onKey [DecidableEq κ] (k : κ) (f : Option ν → Option ν) : Effect κ ν where
  keys := {k}
  run m := Function.update m k (f (m k))
  frame m j hj := Function.update_of_ne (Finset.notMem_singleton.1 hj) ..
  congr m m' h j hj := by
    obtain rfl := Finset.mem_singleton.1 hj
    rw [Function.update_self, Function.update_self, h j hj]

def Effect.erase [DecidableEq κ] (k : κ) : Effect κ ν := .onKey k fun _ => none

variable (m : KeyMap κ ν) (es : List (Effect κ ν))

def replay : KeyMap κ ν := es.foldl (fun m e => e.run m) m

lemma replay_concat (e : Effect κ ν) :
    replay m (es ++ [e]) = e.run (replay m es) := by
  rw [replay, List.foldl_append]; rfl

/-! ## Leader and follower -/

/-- No untold effect touches `k`. -/
def Untouched (untold : ι → Option (Effect κ ν)) (k : κ) : Prop := ∀ i e, untold i = some e → k ∉ e.keys

/-- On the keys of `C` the leader `m` is the follower `f` plus the untold effects, of which no two
share a key. -/
structure Tracks (C : Set κ) (f m : KeyMap κ ν) (untold : ι → Option (Effect κ ν)) : Prop where
  touched : ∀ i e, untold i = some e → ↑e.keys ⊆ C → ∀ k ∈ e.keys, m k = e.run f k
  disjoint : ∀ i j e e', i ≠ j → untold i = some e → untold j = some e' → Disjoint e.keys e'.keys
  rest : ∀ k ∈ C, Untouched untold k → m k = f k

variable {C : Set κ} {f m : KeyMap κ ν} {untold : ι → Option (Effect κ ν)} {i : ι} {e : Effect κ ν}

lemma Tracks.copy (h : Tracks C f m untold) {B : Set κ} {f' : KeyMap κ ν} (hin : ∀ k ∈ B, f' k = m k)
    (hout : ∀ k ∉ B, f' k = f k) (hB : ∀ k ∈ B, Untouched untold k) : Tracks (C ∪ B) f' m untold where
  touched i e hi hC k hk := by
    have hnB : ∀ k' ∈ e.keys, k' ∉ B := fun k' hk' hb => hB k' hb i e hi hk'
    have hsub : ↑e.keys ⊆ C := fun k' hk' => (hC hk').resolve_right (hnB k' hk')
    rw [h.touched i e hi hsub k hk]
    exact e.congr _ _ (fun k' hk' => (hout k' (hnB k' hk')).symm) k hk
  disjoint := h.disjoint
  rest k hk hun := by
    by_cases hb : k ∈ B
    · exact (hin k hb).symm
    · rw [hout k hb]; exact h.rest k (hk.resolve_right hb) hun

lemma Tracks.start : Tracks Set.univ m m (fun _ : ι => none) :=
  ⟨by simp, by simp, by simp⟩

variable [DecidableEq ι]

lemma untouched_update_none {k : κ} (hk : k ∉ e.keys) (hi : untold i = some e)
    (h : Untouched (Function.update untold i none) k) : Untouched untold k := by
  intro j e' hj
  by_cases hij : j = i
  · subst hij; rw [hi] at hj; cases hj; exact hk
  · exact h j e' (by rw [Function.update_of_ne hij, hj])

lemma Tracks.take (h : Tracks C f m untold) (hi : untold i = none) (hfree : ∀ k ∈ e.keys, Untouched untold k) :
    Tracks C f (e.run m) (Function.update untold i (some e)) where
  touched j e' hj hC k hk := by
    by_cases hij : j = i
    · subst hij; rw [Function.update_self] at hj; cases hj
      exact e.congr m f (fun k' hk' => h.rest k' (hC hk') (hfree k' hk')) k hk
    rw [Function.update_of_ne hij] at hj
    rw [e.frame m k fun hke => hfree k hke j e' hj hk]
    exact h.touched j e' hj hC k hk
  disjoint j j' e1 e2 hne h1 h2 := by
    rw [Finset.disjoint_left]
    intro k hk1 hk2
    by_cases hj : j = i
    · subst hj; rw [Function.update_self] at h1; cases h1
      rw [Function.update_of_ne hne.symm] at h2
      exact hfree k hk1 j' e2 h2 hk2
    rw [Function.update_of_ne hj] at h1
    by_cases hj' : j' = i
    · subst hj'; rw [Function.update_self] at h2; cases h2
      exact hfree k hk2 j e1 h1 hk1
    · rw [Function.update_of_ne hj'] at h2
      exact Finset.disjoint_left.1 (h.disjoint j j' e1 e2 hne h1 h2) hk1 hk2
  rest k hkC hk := by
    have hke : k ∉ e.keys := hk i e (Function.update_self ..)
    rw [e.frame m k hke]
    refine h.rest k hkC fun j e' hj => ?_
    have hij : j ≠ i := by rintro rfl; rw [hi] at hj; cases hj
    exact hk j e' (by rw [Function.update_of_ne hij, hj])

lemma Tracks.tell (h : Tracks Set.univ f m untold) (hi : untold i = some e) :
    Tracks Set.univ (e.run f) m (Function.update untold i none) where
  touched j e' hj _ k hk := by
    have hij : j ≠ i := by rintro rfl; rw [Function.update_self] at hj; cases hj
    rw [Function.update_of_ne hij] at hj
    have hd := Finset.disjoint_left.1 (h.disjoint j i e' e hij hj hi)
    rw [h.touched j e' hj (Set.subset_univ _) k hk]
    exact e'.congr _ _ (fun k' hk' => (e.frame f k' (hd hk')).symm) k hk
  disjoint j j' e1 e2 hne h1 h2 := by
    have hj : j ≠ i := by rintro rfl; rw [Function.update_self] at h1; cases h1
    have hj' : j' ≠ i := by rintro rfl; rw [Function.update_self] at h2; cases h2
    rw [Function.update_of_ne hj] at h1
    rw [Function.update_of_ne hj'] at h2
    exact h.disjoint j j' e1 e2 hne h1 h2
  rest k _ hk := by
    by_cases hke : k ∈ e.keys
    · exact h.touched i e hi (Set.subset_univ _) k hke
    · rw [e.frame f k hke]
      exact h.rest k trivial (untouched_update_none hke hi hk)

end Gopherdis.Lib

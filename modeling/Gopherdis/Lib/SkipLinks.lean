/-
The links of one level of a skip list. The nodes stand in a list, and those high enough for the level are
linked: each to the next one, with the distance, or to nothing, with the number of nodes behind it. A walk along
the links stops at the last node it may reach. A node is put in or taken out by a change to the last high node
before it.
-/
import Mathlib.Tactic

namespace Gopherdis.Lib

open List

structure SkipLink where
  forward : Option Nat
  span : Nat
deriving DecidableEq

section
variable (high : Nat → Bool)

/-- How far it is to the next high node, or to the end. -/
def hop : List Nat → Nat
  | [] => 0
  | v :: rest => if high v then 1 else hop rest + 1

/-- The link a node has that comes before these. -/
def linkTo (rest : List Nat) : SkipLink := ⟨rest.find? high, hop high rest⟩

/-- The high nodes of the list are linked. -/
def SkipLinks (links : Nat → SkipLink) : List Nat → Prop
  | [] => True
  | u :: rest => (high u = true → links u = linkTo high rest) ∧ SkipLinks links rest

end

variable {high : Nat → Bool} {links links' : Nat → SkipLink} {u x : Nat} {P Q A B R R' : List Nat}

lemma linkTo_low (hQ : ∀ q ∈ Q, high q = false) :
    linkTo high (Q ++ B) = ⟨(linkTo high B).forward, Q.length + (linkTo high B).span⟩ := by
  induction Q with
  | nil => simp [linkTo]
  | cons q Q ih =>
  obtain ⟨hq, hQ⟩ := forall_mem_cons.1 hQ
  have hrest := ih hQ
  simp only [linkTo, SkipLink.mk.injEq] at hrest
  simp only [linkTo, cons_append, find?_cons, hq, hop, Bool.false_eq_true, if_false, hrest,
    length_cons, SkipLink.mk.injEq, true_and]
  omega

lemma linkTo_high (hx : high x = true) : linkTo high (x :: B) = ⟨some x, 1⟩ := by
  simp [linkTo, hop, hx]

lemma linkTo_skip (hx : high x = false) :
    linkTo high (x :: B) = ⟨(linkTo high B).forward, (linkTo high B).span + 1⟩ := by
  simp [linkTo, hop, hx]

lemma linkTo_congr (hu : high u = true) : linkTo high (P ++ u :: R) = linkTo high (P ++ u :: R') := by
  induction P with
  | nil => rw [nil_append, nil_append, linkTo_high hu, linkTo_high hu]
  | cons p P ih =>
    simp only [linkTo, SkipLink.mk.injEq] at ih
    cases hp : high p <;> simp [linkTo, hop, hp, ih]

lemma linkTo_congr_high {high' : Nat → Bool} (heq : ∀ v ∈ R, high' v = high v) : linkTo high' R = linkTo high R := by
  induction R with
  | nil => rfl
  | cons v R ih =>
    obtain ⟨hv, hR⟩ := forall_mem_cons.1 heq
    have hrest := ih hR
    simp only [linkTo, SkipLink.mk.injEq] at hrest
    simp [linkTo, find?_cons, hop, hv, hrest]

namespace SkipLinks

lemma congr (h : SkipLinks high links R) (heq : ∀ v ∈ R, links' v = links v) : SkipLinks high links' R := by
  induction R with
  | nil => trivial
  | cons v R ih =>
    obtain ⟨hv, hR⟩ := forall_mem_cons.1 heq
    exact ⟨fun hhigh => hv.trans (h.1 hhigh), ih h.2 hR⟩

lemma congr_high {high' : Nat → Bool} (h : SkipLinks high links R) (heq : ∀ v ∈ R, high' v = high v) :
    SkipLinks high' links R := by
  induction R with
  | nil => trivial
  | cons v R ih =>
    obtain ⟨hv, hR⟩ := forall_mem_cons.1 heq
    refine ⟨fun hhigh => ?_, ih h.2 hR⟩
    rw [h.1 (hv ▸ hhigh)]
    exact (linkTo_congr_high hR).symm

lemma right (h : SkipLinks high links (P ++ R)) : SkipLinks high links R := by
  induction P with
  | nil => exact h
  | cons p P ih => exact ih h.2

lemma low (hQ : ∀ q ∈ Q, high q = false) (h : SkipLinks high links B) : SkipLinks high links (Q ++ B) := by
  induction Q with
  | nil => exact h
  | cons q Q ih =>
    obtain ⟨hq, hQ⟩ := forall_mem_cons.1 hQ
    exact ⟨fun hhigh => absurd hhigh (by simp [hq]), ih hQ⟩

lemma retail (h : SkipLinks high links (P ++ u :: R)) (hu : high u = true) (hP : ∀ v ∈ P, links' v = links v)
    (htail : SkipLinks high links' (u :: R')) : SkipLinks high links' (P ++ u :: R') := by
  induction P with
  | nil => exact htail
  | cons p P ih =>
    obtain ⟨hp, hP⟩ := forall_mem_cons.1 hP
    refine ⟨fun hhigh => ?_, ih h.2 hP⟩
    rw [hp, h.1 hhigh]
    exact linkTo_congr hu

lemma link_at (h : SkipLinks high links (P ++ u :: (Q ++ B))) (hu : high u = true) (hQ : ∀ q ∈ Q, high q = false) :
    links u = ⟨(linkTo high B).forward, Q.length + (linkTo high B).span⟩ := by
  rw [(right h).1 hu, linkTo_low hQ]

/-- What stands behind the last high node and its low ones is exchanged, and that node linked to it. -/
theorem relink (h : SkipLinks high links (P ++ u :: (Q ++ R))) (hu : high u = true) (hQ : ∀ q ∈ Q, high q = false)
    (hB : SkipLinks high links B) (hrest : ∀ v ∈ P ++ u :: (Q ++ B), v ≠ u → links' v = links v)
    (hnodup : (P ++ u :: (Q ++ B)).Nodup) (htail : SkipLinks high links' B → SkipLinks high links' R')
    (hlink : links' u = ⟨(linkTo high R').forward, Q.length + (linkTo high R').span⟩) :
    SkipLinks high links' (P ++ u :: (Q ++ R')) := by
  obtain ⟨-, hnodup', hdisj⟩ := nodup_append.1 hnodup
  have hne : ∀ v ∈ P, v ≠ u := fun v hv => hdisj v hv u mem_cons_self
  have hne' : ∀ v ∈ B, v ≠ u := fun v hv he =>
    (nodup_cons.1 hnodup').1 (he ▸ mem_append_right Q hv)
  have hB' : SkipLinks high links' B := hB.congr fun v hv => hrest v (by simp [hv]) (hne' v hv)
  refine retail h hu (fun v hv => hrest v (by simp [hv]) (hne v hv)) ⟨fun _ => ?_, low hQ (htail hB')⟩
  rw [linkTo_low hQ, hlink]

section
variable (hA : A = P ++ u :: Q) (hu : high u = true) (hQ : ∀ q ∈ Q, high q = false)
include hA hu hQ

lemma forward_eq_iff (h : SkipLinks high links (A ++ x :: B)) : (links u).forward = some x ↔ high x = true := by
  subst hA
  rw [append_assoc, cons_append] at h
  rw [link_at h hu hQ]
  constructor
  · intro hfind
    exact find?_some hfind
  · intro hx
    rw [linkTo_high hx]

variable (hrest : ∀ v ∈ A ++ B, v ≠ u → links' v = links v) (hnodup : (A ++ B).Nodup)
include hrest hnodup

lemma insert (h : SkipLinks high links (A ++ B))
    (hhigh : high x = true → links' u = ⟨some x, Q.length + 1⟩ ∧ links' x = ⟨(links u).forward, (links u).span - Q.length⟩)
    (hlow : high x = false → links' u = ⟨(links u).forward, (links u).span + 1⟩) :
    SkipLinks high links' (A ++ x :: B) := by
  subst hA
  rw [append_assoc, cons_append] at *
  have hlink := link_at h hu hQ
  refine relink h hu hQ (right (right h).2) hrest hnodup (fun hB => ⟨fun hx => ?_, hB⟩) ?_
  · rw [(hhigh hx).2, hlink]
    simp
  · cases hx : high x with
    | true => rw [(hhigh hx).1, linkTo_high hx]
    | false => rw [hlow hx, hlink, linkTo_skip hx, Nat.add_assoc]

lemma delete (h : SkipLinks high links (A ++ x :: B))
    (hhigh : high x = true → links' u = ⟨(links x).forward, (links u).span + (links x).span - 1⟩)
    (hlow : high x = false → links' u = ⟨(links u).forward, (links u).span - 1⟩) : SkipLinks high links' (A ++ B) := by
  subst hA
  rw [append_assoc, cons_append] at *
  have hlink := link_at h hu hQ
  obtain ⟨hx, hB⟩ : SkipLinks high links (x :: B) := right (right h).2
  refine relink h hu hQ hB hrest hnodup id ?_
  cases hxh : high x with
  | true =>
    rw [hhigh hxh, hx hxh, hlink, linkTo_high hxh, SkipLink.mk.injEq]
    exact ⟨rfl, by simp only; omega⟩
  | false => rw [hlow hxh, hlink, linkTo_skip hxh, ← Nat.add_assoc, Nat.add_sub_cancel]

end

lemma forward_head (h : SkipLinks high links (P ++ x :: R)) (hhigh : ∀ v ∈ x :: R, high v = true) :
    (links x).forward = R.head? := by
  rw [(right h).1 (hhigh x mem_cons_self)]
  rcases R with _ | ⟨y, R⟩
  · rfl
  · rw [linkTo_high (hhigh y (by simp))]
    rfl

end SkipLinks

/-! ## Walks -/

/-- Along the links, as long as `go` lets the next node pass, given how far it is from the start. -/
def walkLevel (links : Nat → SkipLink) (go : Nat → Nat → Bool) : Nat → Nat → Nat → Nat × Nat
  | 0, x, rank => (x, rank)
  | fuel + 1, x, rank =>
    match (links x).forward with
    | none => (x, rank)
    | some y => if go y (rank + (links x).span) then walkLevel links go fuel y (rank + (links x).span) else (x, rank)

variable {go : Nat → Nat → Bool}

lemma walkLevel_spec (h : SkipLinks high links (A ++ B))
    (hgo : ∀ P' y R', A ++ B = P' ++ y :: R' → P' ≠ [] → (go y P'.length = true ↔ P'.length < A.length))
    {fuel : Nat} (hfuel : Q.length ≤ fuel) (hA : A = P ++ u :: Q) (hu : high u = true) :
    ∃ P' u' Q', walkLevel links go fuel u P.length = (u', P'.length) ∧ A = P' ++ u' :: Q' ∧ high u' = true ∧
      (∀ q ∈ Q', high q = false) ∧ P.length ≤ P'.length := by
  induction fuel generalizing P u Q with
  | zero =>
    obtain rfl : Q = [] := length_eq_zero_iff.1 (by omega)
    exact ⟨P, u, [], rfl, hA, hu, by simp, le_rfl⟩
  | succ fuel ih =>
  have hlink : links u = linkTo high (Q ++ B) := by
    have hright := h
    rw [hA, append_assoc, cons_append] at hright
    exact (SkipLinks.right hright).1 hu
  rw [walkLevel, hlink]
  by_cases hlow : ∀ q ∈ Q, high q = false
  · -- The next high node is one of `B`, if there is one.
    have hstop : ∀ y, (linkTo high B).forward = some y → go y (P.length + (Q.length + (linkTo high B).span)) = false := by
      intro y hy
      obtain ⟨hhigh, B1, B2, rfl, hB₁⟩ := find?_eq_some_iff_append.1 hy
      have hB₁' : ∀ b ∈ B1, high b = false := fun b hb => by simpa using hB₁ b hb
      have hspan : (linkTo high (B1 ++ y :: B2)).span = B1.length + 1 := by
        rw [linkTo_low hB₁', linkTo_high hhigh]
      have hpass := hgo (A ++ B1) y B2 (by simp) (by simp [hA])
      rw [hspan]
      have hlen : P.length + (Q.length + (B1.length + 1)) = (A ++ B1).length := by
        rw [hA]
        simp only [length_append, length_cons]
        omega
      rw [hlen]
      by_contra htrue
      have hlt := hpass.1 (by simpa using htrue)
      rw [length_append] at hlt
      omega
    rw [linkTo_low hlow]
    cases hnext : (linkTo high B).forward with
    | none => exact ⟨P, u, Q, rfl, hA, hu, hlow, le_rfl⟩
    | some y =>
      simp only [hstop y hnext, Bool.false_eq_true, if_false]
      exact ⟨P, u, Q, rfl, hA, hu, hlow, le_rfl⟩
  · -- The walk goes on to the next high node of `A`.
    obtain ⟨Q1, y, Q2, rfl, hQ₁, hy⟩ : ∃ Q1 y Q2, Q = Q1 ++ y :: Q2 ∧ (∀ q ∈ Q1, high q = false) ∧ high y = true := by
      have hsome : (Q.find? high).isSome = true := by
        rw [find?_isSome]
        by_contra hnone
        refine hlow fun q hq => ?_
        by_contra htrue
        exact hnone ⟨q, hq, by simpa using htrue⟩
      obtain ⟨y, hy⟩ := Option.isSome_iff_exists.1 hsome
      obtain ⟨hhigh, Q1, Q2, hQ, hQ₁⟩ := find?_eq_some_iff_append.1 hy
      exact ⟨Q1, y, Q2, hQ, fun q hq => by simpa using hQ₁ q hq, hhigh⟩
    rw [append_assoc, cons_append, linkTo_low hQ₁, linkTo_high hy]
    have hA' : A = (P ++ u :: Q1) ++ y :: Q2 := by rw [hA]; simp
    have hlen : P.length + (Q1.length + 1) = (P ++ u :: Q1).length := by simp
    have hpass : go y (P.length + (Q1.length + 1)) = true := by
      rw [hlen]
      refine (hgo (P ++ u :: Q1) y (Q2 ++ B) (by rw [hA']; simp) (by simp)).2 ?_
      rw [hA', length_append, length_append]
      simp
    simp only [hpass, if_true]
    have hQ₂ : Q2.length ≤ fuel := by
      simp only [length_append, length_cons] at hfuel
      omega
    obtain ⟨P', u', Q', hwalk, hA'', hu', hQ', hle⟩ := ih hQ₂ hA' hy
    rw [← hlen] at hwalk hle
    exact ⟨P', u', Q', hwalk, hA'', hu', hQ', by omega⟩

/-- Level by level from the top, each walk from where the one above it stopped; the places at which they stopped. -/
def descend (links : Nat → Nat → SkipLink) (go : Nat → Nat → Bool) (fuel : Nat) : Nat → Nat → Nat → Nat → Nat × Nat
  | 0, x, rank => fun _ => (x, rank)
  | i + 1, x, rank =>
    let p := walkLevel (links i) go fuel x rank
    Function.update (descend links go fuel i p.1 p.2) i p

/-- On each level, the last node before the place that is high enough for it. -/
def LastHigh (height : Nat → Nat) (A : List Nat) (i : Nat) (p : Nat × Nat) : Prop :=
  ∃ P Q, A = P ++ p.1 :: Q ∧ p.2 = P.length ∧ i < height p.1 ∧ ∀ q ∈ Q, height q ≤ i

lemma descend_spec {links : Nat → Nat → SkipLink} {height : Nat → Nat} {n : Nat}
    (h : ∀ i < n, SkipLinks (fun v => i < height v) (links i) (A ++ B))
    (hgo : ∀ P' y R', A ++ B = P' ++ y :: R' → P' ≠ [] → (go y P'.length = true ↔ P'.length < A.length))
    {fuel : Nat} (hfuel : A.length ≤ fuel) (hA : A = P ++ u :: Q) (hu : n ≤ height u) {i : Nat} (hi : i < n) :
    LastHigh height A i (descend links go fuel n u P.length i) := by
  induction n generalizing P u Q with
  | zero => omega
  | succ n ih =>
  have hQ : Q.length ≤ fuel := by
    rw [hA, length_append, length_cons] at hfuel
    omega
  obtain ⟨P', u', Q', hwalk, hA', hu', hQ', -⟩ :=
    walkLevel_spec (h n (Nat.lt_succ_self n)) hgo hQ hA (decide_eq_true (Nat.lt_of_succ_le hu))
  simp only [descend, hwalk]
  rcases Nat.lt_succ_iff_lt_or_eq.1 hi with hlt | rfl
  · rw [Function.update_of_ne hlt.ne]
    exact ih (fun j hj => h j (hj.trans (Nat.lt_succ_self n))) hA' (of_decide_eq_true hu').le hlt
  · rw [Function.update_self]
    exact ⟨P', Q', hA', rfl, of_decide_eq_true hu', fun q hq => by simpa using hQ' q hq⟩

end Gopherdis.Lib

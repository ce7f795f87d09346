/-
Skip lists ordered by score and, for equal scores, by member. A node is known by its number, and `links i x` is what
the code calls `x.level[i]`; node 0 is the header. Searches visit, on level `i`, nodes with more than `i` levels
alone. Scores come from any linear order.
-/
import Gopherdis.Lib.Decimal
import Gopherdis.Lib.SkipLinks

namespace Gopherdis.Datastruct

open Lib List Function

variable {i n u : Nat} {P Q : List Nat}

/-! ## Elements -/

structure ZSetElement (S : Type) where
  member : Bytes
  score : S
deriving DecidableEq

section
variable {S : Type} [LinearOrder S]

/-- By score, then by member. -/
def ZSetElement.Before (a b : ZSetElement S) : Prop := a.score < b.score ∨ a.score = b.score ∧ a.member < b.member

instance : DecidableRel (ZSetElement.Before (S := S)) := fun _ _ => inferInstanceAs (Decidable (_ ∨ _))

instance : IsStrictTotalOrder (ZSetElement S) ZSetElement.Before where
  irrefl a := by
    rintro (h | ⟨-, h⟩)
    · exact lt_irrefl _ h
    · exact List.lt_irrefl _ h
  trans a b c := by
    rintro (hab | ⟨hab, hab'⟩) (hbc | ⟨hbc, hbc'⟩)
    · exact .inl (hab.trans hbc)
    · exact .inl (hbc ▸ hab)
    · exact .inl (hab ▸ hbc)
    · exact .inr ⟨hab.trans hbc, List.lt_trans hab' hbc'⟩
  trichotomous a b hab hba := by
    obtain ⟨hs, hm⟩ := not_or.1 hab
    obtain ⟨hs', hm'⟩ := not_or.1 hba
    have hscore : a.score = b.score := le_antisymm (not_lt.1 hs') (not_lt.1 hs)
    have hmember : a.member = b.member :=
      List.le_antisymm (List.not_lt.1 fun h => hm' ⟨hscore.symm, h⟩) (List.not_lt.1 fun h => hm ⟨hscore, h⟩)
    cases a
    cases b
    simp_all

instance : LinearOrder (ZSetElement S) := linearOrderOfSTO ZSetElement.Before

lemma element_lt_iff {a b : ZSetElement S} : a < b ↔ a.score < b.score ∨ a.score = b.score ∧ a.member < b.member :=
  Iff.rfl

end

/-! ## Nodes -/

def zSkiplistMaxLevel : Nat := 32

/-- The number of levels of a node; the code draws one at random. -/
structure Level where
  val : Nat
  pos : 1 ≤ val
  le : val ≤ zSkiplistMaxLevel

structure SkipNode (S : Type) where
  elem : ZSetElement S
  backward : Option Nat
  height : Nat

structure ZSkiplist (S : Type) where
  node : Nat → SkipNode S
  links : Nat → Nat → SkipLink
  fresh : Nat
  tail : Option Nat
  length : Nat
  level : Nat

namespace ZSkiplist

variable {S : Type}

/-- `newZSkiplist`; the header has no member and the score zero. -/
def new (zero : S) : ZSkiplist S where
  node := fun _ => ⟨⟨[], zero⟩, none, zSkiplistMaxLevel⟩
  links := fun _ _ => ⟨none, 0⟩
  fresh := 1
  tail := none
  length := 0
  level := 1

variable (sl : ZSkiplist S)

/-- A change to one level. -/
def atLevel (i : Nat) (f : (Nat → SkipLink) → Nat → SkipLink) : ZSkiplist S :=
  { sl with links := update sl.links i (f (sl.links i)) }

variable (x : Nat)

def setBackward (b : Option Nat) : ZSkiplist S :=
  { sl with node := update sl.node x { sl.node x with backward := b } }

/-- A level that was not used so far: the header sees the end of the list. -/
def newLevel (length : Nat) (links : Nat → SkipLink) : Nat → SkipLink :=
  update links 0 ⟨(links 0).forward, length⟩

/-- A new node behind `u`, which is `d` nodes before its place. -/
def link (u d : Nat) (links : Nat → SkipLink) : Nat → SkipLink :=
  update (update links x ⟨(links u).forward, (links u).span - d⟩) u ⟨some x, d + 1⟩

/-- The way past a new node that is not on the level. -/
def lengthen (u : Nat) (links : Nat → SkipLink) : Nat → SkipLink :=
  update links u ⟨(links u).forward, (links u).span + 1⟩

/-- A node goes that `u` leads to, or past. -/
def unlink (u : Nat) (links : Nat → SkipLink) : Nat → SkipLink :=
  if (links u).forward = some x then
    update links u ⟨(links x).forward, (links u).span + (links x).span - 1⟩
  else update links u ⟨(links u).forward, (links u).span - 1⟩

variable [LinearOrder S] (sl : ZSkiplist S)

/-- The nodes at which the search stops on each level, and how far they are from the header. A search makes at most
one hop for each node. -/
def search (go : Nat → Nat → Bool) : Nat → Nat × Nat := descend sl.links go (sl.length + 1) sl.level 0 0

variable (t : ZSetElement S)

/-- `update` and `rank`: on each level the last node before an element, and its distance from the header. On a level
that is not in use it is the header. -/
def before (i : Nat) : Nat × Nat :=
  if i < sl.level then sl.search (fun y _ => (sl.node y).elem < t) i else (0, 0)

/-- The node behind `x` learns what is before it now; without one it is the tail that changes. -/
def backNext (b : Option Nat) : ZSkiplist S :=
  match (sl.links 0 x).forward with
  | some y => sl.setBackward y b
  | none => { sl with tail := b }

variable (score : S) (member : Bytes)

/-- A new node with all its links, but the node behind it does not know of it yet. -/
def place (level : Level) : ZSkiplist S :=
  let update := fun i => (sl.before ⟨member, score⟩ i).1
  let rank := fun i => (sl.before ⟨member, score⟩ i).2
  let sl1 := (List.range' sl.level (level.val - sl.level)).foldl (fun sl' i => sl'.atLevel i (newLevel sl.length)) sl
  let x := sl1.fresh
  let sl2 := { sl1 with
    node := Function.update sl1.node x ⟨⟨member, score⟩, none, level.val⟩
    fresh := x + 1
    level := max sl.level level.val }
  let sl3 := (List.range level.val).foldl (fun sl' i => sl'.atLevel i (link x (update i) (rank 0 - rank i))) sl2
  let sl4 := (List.range' level.val (sl3.level - level.val)).foldl (fun sl' i => sl'.atLevel i (lengthen (update i))) sl3
  sl4.setBackward x (if update 0 = 0 then none else some (update 0))

def insert (level : Level) : ZSkiplist S :=
  let sl' := (sl.place score member level).backNext sl.fresh (some sl.fresh)
  { sl' with length := sl'.length + 1 }

/-- Levels on which the header leads nowhere are given up, but for the lowest. -/
def topLevel (links : Nat → Nat → SkipLink) : Nat → Nat
  | 0 => 0
  | 1 => 1
  | n + 2 => if (links (n + 1) 0).forward = none then topLevel links (n + 1) else n + 2

variable (update : Nat → Nat)

/-- A node off all the links; the node behind it still knows it. -/
def unlinkAll : ZSkiplist S :=
  (List.range sl.level).foldl (fun sl' i => sl'.atLevel i (unlink x (update i))) sl

def deleteNode : ZSkiplist S :=
  let sl' := (sl.unlinkAll x update).backNext x (sl.node x).backward
  { sl' with level := topLevel sl'.links sl'.level, length := sl'.length - 1 }

def delete : ZSkiplist S × Bool :=
  let update := fun i => (sl.before ⟨member, score⟩ i).1
  match (sl.links 0 (update 0)).forward with
  | none => (sl, false)
  | some x =>
    if (sl.node x).elem.score = score ∧ (sl.node x).elem.member = member then (sl.deleteNode x update, true)
    else (sl, false)

/-- `getRank`: the search is over as soon as it stands on a node with the member. -/
def getRankFrom (score : S) (member : Bytes) : Nat → Nat → Nat → Nat
  | 0, _, _ => 0
  | i + 1, x, rank =>
    let p := walkLevel (sl.links i) (fun y _ => (sl.node y).elem ≤ ⟨member, score⟩) (sl.length + 1) x rank
    if (sl.node p.1).elem.member = member then p.2 else getRankFrom score member i p.1 p.2

def getRank : Nat := sl.getRankFrom score member sl.level 0 0

omit [LinearOrder S] in
/-- `getElementByRank`, from the level below `i` on. -/
def elementFrom (rank : Nat) : Nat → Nat → Nat → Option Nat
  | 0, _, _ => none
  | i + 1, x, traversed =>
    let p := walkLevel (sl.links i) (fun _ t => t ≤ rank) (sl.length + 1) x traversed
    if p.2 = rank then some p.1 else elementFrom rank i p.1 p.2

def getElementByRank (rank : Nat) : Option Nat := sl.elementFrom rank sl.level 0 0

/-! ## Updates -/

section
omit [LinearOrder S]

variable (x v : Nat) (b : Option Nat)

@[simp] lemma setBackward_elem : ((sl.setBackward x b).node v).elem = (sl.node v).elem := by
  by_cases hv : v = x
  · subst hv
    simp [setBackward]
  · simp [setBackward, hv]

@[simp] lemma setBackward_height : ((sl.setBackward x b).node v).height = (sl.node v).height := by
  by_cases hv : v = x
  · subst hv
    simp [setBackward]
  · simp [setBackward, hv]

@[simp] lemma backNext_elem : ((sl.backNext x b).node v).elem = (sl.node v).elem := by
  rw [backNext]
  split <;> simp

@[simp] lemma backNext_height : ((sl.backNext x b).node v).height = (sl.node v).height := by
  rw [backNext]
  split <;> simp

@[simp] lemma backNext_links : (sl.backNext x b).links = sl.links := by
  rw [backNext]
  split <;> rfl

@[simp] lemma backNext_fresh : (sl.backNext x b).fresh = sl.fresh := by
  rw [backNext]
  split <;> rfl

@[simp] lemma backNext_length : (sl.backNext x b).length = sl.length := by
  rw [backNext]
  split <;> rfl

@[simp] lemma backNext_level : (sl.backNext x b).level = sl.level := by
  rw [backNext]
  split <;> rfl

end

/-! ## The nodes in order -/

omit [LinearOrder S] in
lemma foldl_atLevel (f : Nat → (Nat → SkipLink) → Nat → SkipLink) {is : List Nat} (hnodup : is.Nodup) :
    is.foldl (fun sl' i => sl'.atLevel i (f i)) sl =
      { sl with links := fun j => if j ∈ is then f j (sl.links j) else sl.links j } := by
  induction is generalizing sl with
  | nil => simp
  | cons i is ih =>
  obtain ⟨hi, hnodup⟩ := nodup_cons.1 hnodup
  rw [foldl_cons, ih _ hnodup]
  simp only [atLevel, ZSkiplist.mk.injEq, true_and, and_true]
  funext j
  by_cases hj : j = i
  · subst hj
    simp [hi]
  · simp [hj]

/-- Every node knows the one before it, the first none. -/
def Backs (node : Nat → SkipNode S) : Option Nat → List Nat → Prop
  | _, [] => True
  | b, x :: rest => (node x).backward = b ∧ Backs node (some x) rest

section
omit [LinearOrder S]
variable {sl} {node node' : Nat → SkipNode S} {b c : Option Nat} {x v : Nat} {L R : List Nat}

lemma Backs.congr (h : Backs node b R) (heq : ∀ v ∈ R, (node' v).backward = (node v).backward) : Backs node' b R := by
  induction R generalizing b with
  | nil => trivial
  | cons v R ih =>
    obtain ⟨hv, hR⟩ := forall_mem_cons.1 heq
    exact ⟨hv.trans h.1, ih h.2 hR⟩

lemma backs_append : Backs node b (L ++ R) ↔ Backs node b L ∧ Backs node (L.getLast?.or b) R := by
  induction L generalizing b with
  | nil => simp [Backs]
  | cons v L ih =>
    rw [cons_append, Backs, Backs, ih, and_assoc]
    rcases L with _ | ⟨w, L⟩ <;> simp [getLast?_cons]

variable (hforward : (sl.links 0 x).forward = R.head?)
include hforward

lemma backNext_node (hv : v ∉ R) : (sl.backNext x b).node v = sl.node v := by
  rw [backNext, hforward]
  rcases R with _ | ⟨y, R⟩
  · rfl
  · have hne : v ≠ y := fun he => hv (he ▸ mem_cons_self)
    exact update_of_ne hne _ _

lemma backNext_tail : (sl.backNext x b).tail = if R = [] then b else sl.tail := by
  rw [backNext, hforward]
  rcases R with _ | ⟨y, R⟩ <;> rfl

lemma Backs.backNext (h : Backs sl.node c R) (hnodup : R.Nodup) : Backs (sl.backNext x b).node b R := by
  rw [ZSkiplist.backNext, hforward]
  rcases R with _ | ⟨y, R⟩
  · trivial
  refine ⟨by simp [setBackward], h.2.congr fun v hv => ?_⟩
  have hne : v ≠ y := fun he => (nodup_cons.1 hnodup).1 (he ▸ hv)
  simp [setBackward, hne]

end

/-- The nodes of the list stand in this order. On every level that is in use those that are high enough are linked,
from the header on; above, the header leads nowhere. -/
structure Holds (order : List Nat) : Prop where
  nodup : (0 :: order).Nodup
  fresh : ∀ x ∈ 0 :: order, x < sl.fresh
  links : ∀ i < sl.level, SkipLinks (fun v => i < (sl.node v).height) (sl.links i) (0 :: order)
  above : ∀ i, sl.level ≤ i → (sl.links i 0).forward = none
  heights : ∀ x ∈ order, 1 ≤ (sl.node x).height ∧ (sl.node x).height ≤ sl.level
  header : (sl.node 0).height = zSkiplistMaxLevel ∧ (sl.node 0).elem.member = []
  level : 1 ≤ sl.level ∧ sl.level ≤ zSkiplistMaxLevel
  sorted : order.Pairwise fun x y => (sl.node x).elem < (sl.node y).elem
  backs : Backs sl.node none order
  tail : sl.tail = order.getLast?
  length : sl.length = order.length

lemma holds_new (zero : S) : (new zero).Holds [] where
  nodup := by simp
  fresh := by simp [new]
  links i hi := ⟨fun _ => rfl, trivial⟩
  above i hi := rfl
  heights := by simp
  header := ⟨rfl, rfl⟩
  level := ⟨le_rfl, by simp [new, zSkiplistMaxLevel]⟩
  sorted := List.Pairwise.nil
  backs := trivial
  tail := rfl
  length := rfl

variable {sl} {order L R : List Nat}

lemma passes_iff {p : Nat → Bool} (hL : ∀ x ∈ L, p x = true) (hR : ∀ x ∈ R, p x = false) (P' : List Nat) (y : Nat)
    (R' : List Nat) (hsplit : (0 :: L) ++ R = P' ++ y :: R') (hP' : P' ≠ []) :
    p y = true ↔ P'.length < (0 :: L).length := by
  obtain ⟨c, P', rfl⟩ := exists_cons_of_ne_nil hP'
  rw [cons_append, cons_append, List.cons.injEq] at hsplit
  rw [length_cons, length_cons, Nat.add_lt_add_iff_right]
  rcases append_eq_append_iff.1 hsplit.2 with ⟨Q, rfl, rfl⟩ | ⟨Q, rfl, hQ⟩
  · have hy := hR y (by simp)
    rw [hy, length_append]
    simp
  rcases Q with _ | ⟨q, Q⟩
  · rw [nil_append] at hQ
    have hy := hR y (by rw [← hQ]; simp)
    simp [hy]
  · obtain ⟨rfl, -⟩ := List.cons.inj hQ
    simp [hL y (by simp)]

omit [LinearOrder S] in
lemma search_spec (h : ∀ i < sl.level, SkipLinks (fun v => i < (sl.node v).height) (sl.links i) (0 :: L ++ R))
    (hlen : sl.length = (L ++ R).length) (hheader : sl.level ≤ (sl.node 0).height) {p : Nat → Bool}
    (hL : ∀ x ∈ L, p x = true) (hR : ∀ x ∈ R, p x = false) (hi : i < sl.level) :
    LastHigh (fun v => (sl.node v).height) (0 :: L) i (sl.search (fun y _ => p y) i) := by
  refine descend_spec (P := []) h (passes_iff hL hR) ?_ rfl hheader hi
  rw [length_append] at hlen
  rw [length_cons]
  omega

namespace Holds

section
variable (h : sl.Holds (L ++ R)) {t : ZSetElement S} (hL : ∀ x ∈ L, (sl.node x).elem < t)
  (hR : ∀ x ∈ R, t ≤ (sl.node x).elem)
include h hL hR

lemma before_spec (hi : i < zSkiplistMaxLevel) : LastHigh (fun v => (sl.node v).height) (0 :: L) i (sl.before t i) := by
  rw [before]
  split_ifs with hlevel
  · refine search_spec h.links h.length ?_ ?_ ?_ hlevel
    · rw [h.header.1]
      exact h.level.2
    · simpa using hL
    · simpa using hR
  · refine ⟨[], L, rfl, rfl, ?_, fun q hq => ?_⟩
    · simp only [h.header.1]
      exact hi
    · exact (h.heights q (mem_append_left R hq)).2.trans (not_lt.1 hlevel)

lemma before_zero : ∃ P, 0 :: L = P ++ [(sl.before t 0).1] ∧ (sl.before t 0).2 = L.length := by
  obtain ⟨P, Q, hsplit, hrank, -, hQ⟩ := h.before_spec hL hR (i := 0) (by simp [zSkiplistMaxLevel])
  have hQnil : Q = [] := by
    refine eq_nil_iff_forall_not_mem.2 fun q hq => ?_
    have hmem : q ∈ L := by
      rcases P with _ | ⟨c, P⟩
      · obtain ⟨-, rfl⟩ := List.cons.inj hsplit
        exact hq
      · obtain ⟨-, rfl⟩ := List.cons.inj hsplit
        simp [hq]
    have := (h.heights q (mem_append_left R hmem)).1
    have := hQ q hq
    simp only at this
    omega
  subst hQnil
  refine ⟨P, hsplit, ?_⟩
  have hlen := congrArg List.length hsplit
  simp only [length_cons, length_append, length_nil] at hlen
  omega

lemma pred_eq : (if (sl.before t 0).1 = 0 then none else some (sl.before t 0).1) = L.getLast? := by
  obtain ⟨P, hsplit, -⟩ := h.before_zero hL hR
  rcases P with _ | ⟨c, P⟩
  · obtain ⟨hzero, rfl⟩ := List.cons.inj hsplit
    simp [← hzero]
  have hL' : L = P ++ [(sl.before t 0).1] := (List.cons.inj hsplit).2
  have hne : (sl.before t 0).1 ≠ 0 := by
    rintro hzero
    refine (nodup_cons.1 h.nodup).1 ?_
    rw [hL', hzero]
    simp
  rw [if_neg hne, hL', getLast?_append]
  simp

end

lemma height_pos (h : sl.Holds order) {v : Nat} (hv : v ∈ 0 :: order) : 0 < (sl.node v).height := by
  rcases mem_cons.1 hv with rfl | hv
  · rw [h.header.1]
    simp [zSkiplistMaxLevel]
  · exact (h.heights v hv).1

lemma forward_zero (h : sl.Holds order) {x : Nat} (hsplit : 0 :: order = P ++ x :: Q) :
    (sl.links 0 x).forward = Q.head? := by
  have hlinks := h.links 0 h.level.1
  rw [hsplit] at hlinks
  refine hlinks.forward_head fun v hv => decide_eq_true (h.height_pos ?_)
  rw [hsplit]
  exact mem_append_right P hv

end Holds

/-! ## Insertion -/

section
variable (sl) (score : S) (member : Bytes) (level : Level)

lemma place_links (i : Nat) : (sl.place score member level).links i = if i < level.val then
      link sl.fresh (sl.before ⟨member, score⟩ i).1 ((sl.before ⟨member, score⟩ 0).2 - (sl.before ⟨member, score⟩ i).2)
        (if sl.level ≤ i then newLevel sl.length (sl.links i) else sl.links i)
    else if i < sl.level then lengthen (sl.before ⟨member, score⟩ i).1 (sl.links i) else sl.links i := by
  simp only [place, foldl_atLevel _ _ nodup_range', foldl_atLevel _ _ nodup_range, mem_range,
    mem_range'_1, setBackward]
  by_cases hi : i < level.val
  · have hold : sl.level ≤ i ∧ i < sl.level + (level.val - sl.level) ↔ sl.level ≤ i := by omega
    rw [if_neg (by omega), if_pos hi, if_pos hi]
    simp [hold]
  rw [if_neg hi, if_neg hi]
  by_cases hold : i < sl.level
  · rw [if_pos (by omega), if_neg (by omega), if_pos hold]
  · rw [if_neg (by omega), if_neg (by omega), if_neg hold]

lemma place_node : (sl.place score member level).node = Function.update sl.node sl.fresh
    ⟨⟨member, score⟩, if (sl.before ⟨member, score⟩ 0).1 = 0 then none else some (sl.before ⟨member, score⟩ 0).1,
      level.val⟩ := by
  simp [place, foldl_atLevel _ _ nodup_range', foldl_atLevel _ _ nodup_range, setBackward, Function.update_self, Function.update_idem]

lemma place_rest : (sl.place score member level).fresh = sl.fresh + 1 ∧
    (sl.place score member level).level = max sl.level level.val ∧ (sl.place score member level).tail = sl.tail ∧
    (sl.place score member level).length = sl.length := by
  simp [place, foldl_atLevel _ _ nodup_range', foldl_atLevel _ _ nodup_range, setBackward]

end

variable {score : S} {member : Bytes} {level : Level}

namespace Holds

lemma links_grown (h : sl.Holds order) (i : Nat) : SkipLinks (fun v => i < (sl.node v).height)
      (if sl.level ≤ i then newLevel sl.length (sl.links i) else sl.links i) (0 :: order) := by
  split_ifs with hlevel
  · have hlow : ∀ v ∈ order, decide (i < (sl.node v).height) = false := by
      intro v hv
      have hheight := (h.heights v hv).2
      exact decide_eq_false (by omega)
    refine ⟨fun _ => ?_, ?_⟩
    · have hend := linkTo_low (B := []) hlow
      rw [append_nil] at hend
      rw [hend, newLevel, Function.update_self, h.above i hlevel, h.length]
      rfl
    · rw [← append_nil order]
      exact SkipLinks.low hlow trivial
  · exact h.links i (not_le.1 hlevel)

lemma ne_fresh (h : sl.Holds order) {v : Nat} (hv : v ∈ 0 :: order) : v ≠ sl.fresh := (h.fresh v hv).ne

lemma links_place (h : sl.Holds (L ++ R)) (hL : ∀ x ∈ L, (sl.node x).elem < ⟨member, score⟩)
    (hR : ∀ x ∈ R, ⟨member, score⟩ ≤ (sl.node x).elem) (hi : i < max sl.level level.val) :
    SkipLinks (fun v => i < ((sl.place score member level).node v).height) ((sl.place score member level).links i)
      (0 :: L ++ sl.fresh :: R) := by
  have hmax : i < zSkiplistMaxLevel := lt_of_lt_of_le hi (max_le h.level.2 level.le)
  obtain ⟨P, Q, hA, hrank, hu, hQ⟩ := h.before_spec hL hR hmax
  obtain ⟨-, -, hrank0⟩ := h.before_zero hL hR
  have hdist : (sl.before ⟨member, score⟩ 0).2 - (sl.before ⟨member, score⟩ i).2 = Q.length := by
    have hlen := congrArg List.length hA
    simp only [length_cons, length_append] at hlen
    omega
  have hmem : (sl.before ⟨member, score⟩ i).1 ∈ 0 :: (L ++ R) := by
    rw [← cons_append, hA]
    simp
  have hold : ∀ v ∈ 0 :: (L ++ R), decide (i < ((sl.place score member level).node v).height) =
      decide (i < (sl.node v).height) := by
    intro v hv
    rw [place_node, update_of_ne (h.ne_fresh hv)]
  have hnew : ((sl.place score member level).node sl.fresh).height = level.val := by
    rw [place_node, update_self]
  refine ((h.links_grown i).congr_high hold).insert hA ?_ ?_ ?_ h.nodup ?_ ?_
  · rw [hold _ hmem]
    exact decide_eq_true hu
  · intro q hq
    rw [hold q (by rw [← cons_append, hA]; simp [hq])]
    exact decide_eq_false (not_lt.2 (hQ q hq))
  · intro v hv hne
    rw [place_links]
    split_ifs with hlevel
    · rw [link, update_of_ne hne, update_of_ne (h.ne_fresh hv)]
    · rw [link, update_of_ne hne, update_of_ne (h.ne_fresh hv)]
    · omega
    · rw [lengthen, update_of_ne hne]
    all_goals omega
  · intro hhigh
    rw [hnew, decide_eq_true_iff] at hhigh
    rw [place_links, if_pos hhigh, hdist, link, update_self,
      update_of_ne (h.ne_fresh hmem).symm, update_self]
    exact ⟨rfl, rfl⟩
  · intro hlow
    rw [hnew, decide_eq_false_iff_not] at hlow
    rw [place_links, if_neg hlow, if_pos (by omega), lengthen, update_self, if_neg (by omega)]

end Holds

lemma insert_elem (v : Nat) : ((sl.insert score member level).node v).elem =
    if v = sl.fresh then ⟨member, score⟩ else (sl.node v).elem := by
  simp only [insert, backNext_elem, place_node, update_apply]
  split_ifs <;> rfl

lemma insert_height (v : Nat) : ((sl.insert score member level).node v).height =
    if v = sl.fresh then level.val else (sl.node v).height := by
  simp only [insert, backNext_height, place_node, update_apply]
  split_ifs <;> rfl

namespace Holds

lemma insert (h : sl.Holds (L ++ R)) (hL : ∀ x ∈ L, (sl.node x).elem < ⟨member, score⟩)
    (hR : ∀ x ∈ R, ⟨member, score⟩ < (sl.node x).elem) : (sl.insert score member level).Holds (L ++ sl.fresh :: R) := by
  have hR' : ∀ x ∈ R, ⟨member, score⟩ ≤ (sl.node x).elem := fun x hx => (hR x hx).le
  have hnotMem : sl.fresh ∉ 0 :: (L ++ R) := fun hmem => h.ne_fresh hmem rfl
  obtain ⟨hfresh, hlevel, htail, hlength⟩ := place_rest sl score member level
  have hnode : ∀ v ∈ 0 :: (L ++ R), (sl.place score member level).node v = sl.node v := by
    intro v hv
    rw [place_node, update_of_ne (h.ne_fresh hv)]
  have hforward : ((sl.place score member level).links 0 sl.fresh).forward = R.head? := by
    refine (h.links_place hL hR' (lt_of_lt_of_le h.level.1 (le_max_left _ _))).forward_head fun v hv => ?_
    rcases mem_cons.1 hv with rfl | hv
    · rw [place_node, update_self]
      exact decide_eq_true level.pos
    have hmem : v ∈ 0 :: (L ++ R) := by simp [hv]
    rw [hnode v hmem]
    exact decide_eq_true (h.height_pos hmem)
  obtain ⟨hsortedL, hsortedR, hcross⟩ := pairwise_append.1 h.sorted
  obtain ⟨hbacksL, hbacksR⟩ := backs_append.1 h.backs
  have hnodup : (0 :: L ++ sl.fresh :: R).Nodup :=
    nodup_middle.2 (nodup_cons.2 ⟨hnotMem, h.nodup⟩)
  constructor
  case nodup => exact hnodup
  case fresh =>
    intro v hv
    simp only [ZSkiplist.insert, backNext_fresh, hfresh]
    rw [← cons_append, perm_middle.mem_iff, mem_cons] at hv
    rcases hv with rfl | hv
    · exact Nat.lt_succ_self _
    · exact (h.fresh v hv).trans (Nat.lt_succ_self _)
  case links =>
    intro i hi
    simp only [ZSkiplist.insert, backNext_level, hlevel] at hi
    simp only [ZSkiplist.insert, backNext_height, backNext_links]
    exact h.links_place hL hR' hi
  case above =>
    intro i hi
    simp only [ZSkiplist.insert, backNext_level, hlevel, max_le_iff] at hi
    simp only [ZSkiplist.insert, backNext_links, place_links]
    rw [if_neg (by omega), if_neg (by omega)]
    exact h.above i hi.1
  case heights =>
    intro v hv
    have hlevel' : (sl.insert score member level).level = max sl.level level.val := by
      simp [ZSkiplist.insert, backNext_level, hlevel]
    rw [insert_height, hlevel']
    rw [perm_middle.mem_iff, mem_cons] at hv
    rcases hv with rfl | hv
    · rw [if_pos rfl]
      exact ⟨level.pos, le_max_right _ _⟩
    · rw [if_neg (h.ne_fresh (mem_cons_of_mem 0 hv))]
      exact ⟨(h.heights v hv).1, (h.heights v hv).2.trans (le_max_left _ _)⟩
  case header =>
    rw [insert_height, insert_elem, if_neg (h.ne_fresh mem_cons_self), if_neg (h.ne_fresh mem_cons_self)]
    exact h.header
  case level =>
    simp only [ZSkiplist.insert, backNext_level, hlevel]
    exact ⟨h.level.1.trans (le_max_left _ _), max_le h.level.2 level.le⟩
  case sorted =>
    have helem : ∀ v ∈ L ++ R, ((sl.insert score member level).node v).elem = (sl.node v).elem := by
      intro v hv
      rw [insert_elem, if_neg (h.ne_fresh (mem_cons_of_mem 0 hv))]
    have hnew : ((sl.insert score member level).node sl.fresh).elem = ⟨member, score⟩ := by
      rw [insert_elem, if_pos rfl]
    refine pairwise_append.2 ⟨?_, pairwise_cons.2 ⟨?_, ?_⟩, ?_⟩
    · refine hsortedL.imp_of_mem fun hx hy hlt => ?_
      rwa [helem _ (mem_append_left R hx), helem _ (mem_append_left R hy)]
    · intro y hy
      rw [hnew, helem y (mem_append_right L hy)]
      exact hR y hy
    · refine hsortedR.imp_of_mem fun hx hy hlt => ?_
      rwa [helem _ (mem_append_right L hx), helem _ (mem_append_right L hy)]
    · intro x hx y hy
      rw [helem x (mem_append_left R hx)]
      rcases mem_cons.1 hy with rfl | hy
      · rw [hnew]
        exact hL x hx
      · rw [helem y (mem_append_right L hy)]
        exact hcross x hx y hy
  case backs =>
    have hdisj := (nodup_append.1 hnodup).2
    refine backs_append.2 ⟨hbacksL.congr fun v hv => ?_, ?_, ?_⟩
    · have hv' : v ∉ R := fun hvR => hdisj.2 v (mem_cons_of_mem 0 hv) v (mem_cons_of_mem _ hvR) rfl
      simp only [ZSkiplist.insert]
      rw [backNext_node hforward hv', hnode v (by simp [hv])]
    · have hv' : sl.fresh ∉ R := (nodup_cons.1 hdisj.1).1
      simp only [ZSkiplist.insert]
      rw [backNext_node hforward hv', place_node, update_self]
      simp [h.pred_eq hL hR', Option.or_none]
    · refine (hbacksR.congr fun v hv => ?_).backNext hforward (nodup_cons.1 hdisj.1).2
      rw [hnode v (by simp [hv])]
  case tail =>
    simp only [ZSkiplist.insert]
    rw [backNext_tail hforward, htail, h.tail]
    rcases R with _ | ⟨y, R⟩ <;> simp
  case length =>
    simp only [ZSkiplist.insert, backNext_length, hlength, h.length, length_append, length_cons]
    omega

end Holds

/-! ## Deletion -/

lemma topLevel_spec (links : Nat → Nat → SkipLink) (hn : 1 ≤ n) : 1 ≤ topLevel links n ∧ topLevel links n ≤ n ∧
      ∀ i, topLevel links n ≤ i → i < n → (links i 0).forward = none := by
  induction n with
  | zero => omega
  | succ n ih =>
  rcases n with _ | n
  · exact ⟨le_rfl, le_rfl, fun i hi hi' => absurd hi (not_le.2 hi')⟩
  rw [topLevel]
  split_ifs with hnone
  · obtain ⟨hpos, hle, hrest⟩ := ih (by omega)
    refine ⟨hpos, by omega, fun i hi hi' => ?_⟩
    rcases Nat.lt_succ_iff_lt_or_eq.1 hi' with hlt | rfl
    · exact hrest i hi hlt
    · exact hnone
  · exact ⟨by omega, le_rfl, fun i hi hi' => absurd hi (not_le.2 hi')⟩

omit [LinearOrder S] in
lemma unlinkAll_eq : sl.unlinkAll x update =
    { sl with links := fun i => if i < sl.level then unlink x (update i) (sl.links i) else sl.links i } := by
  simp [unlinkAll, foldl_atLevel _ _ nodup_range, mem_range]

namespace Holds

variable {x : Nat}

section
variable (h : sl.Holds (L ++ x :: R))
include h

lemma lt_of_split : (∀ y ∈ L, (sl.node y).elem < (sl.node x).elem) ∧ ∀ y ∈ R, (sl.node x).elem < (sl.node y).elem := by
  obtain ⟨-, hright, hcross⟩ := pairwise_append.1 h.sorted
  exact ⟨fun y hy => hcross y hy x mem_cons_self, (pairwise_cons.1 hright).1⟩

lemma le_of_split : (∀ y ∈ L, (sl.node y).elem < (sl.node x).elem) ∧
    ∀ y ∈ x :: R, (sl.node x).elem ≤ (sl.node y).elem :=
  ⟨h.lt_of_split.1, forall_mem_cons.2 ⟨le_rfl, fun y hy => (h.lt_of_split.2 y hy).le⟩⟩

lemma links_unlink (hi : i < sl.level) :
    SkipLinks (fun v => i < (sl.node v).height) (unlink x (sl.before (sl.node x).elem i).1 (sl.links i))
      (0 :: L ++ R) := by
  obtain ⟨hL, hR⟩ := h.le_of_split
  obtain ⟨P, Q, hA, -, hu, hQ⟩ := h.before_spec hL hR (lt_of_lt_of_le hi h.level.2)
  have hlinks : SkipLinks (fun v => i < (sl.node v).height) (sl.links i) (0 :: L ++ x :: R) := h.links i hi
  have hQ' : ∀ q ∈ Q, decide (i < (sl.node q).height) = false := fun q hq => decide_eq_false (not_lt.2 (hQ q hq))
  have hleads := hlinks.forward_eq_iff hA (decide_eq_true hu) hQ'
  have hnodup : (0 :: L ++ R).Nodup := (nodup_cons.1 (nodup_middle.1 h.nodup)).2
  refine hlinks.delete hA (decide_eq_true hu) hQ' ?_ hnodup ?_ ?_
  · intro v hv hne
    rw [unlink]
    split_ifs <;> rw [update_of_ne hne]
  · intro hhigh
    rw [unlink, if_pos (hleads.2 hhigh), update_self]
  · intro hlow
    rw [unlink, if_neg (by rw [hleads, hlow]; simp), update_self]

lemma before_ne : x ≠ (sl.before (sl.node x).elem 0).1 := by
  obtain ⟨hL, hR⟩ := h.le_of_split
  obtain ⟨P, hsplit, -⟩ := h.before_zero hL hR
  intro heq
  have hnodup : (0 :: L ++ x :: R).Nodup := h.nodup
  refine (nodup_append.1 hnodup).2.2 x ?_ x mem_cons_self rfl
  rw [hsplit, ← heq]
  simp

end

section
variable {update : Nat → Nat} (hupdate : ∀ i, update i = (sl.before (sl.node x).elem i).1)
include hupdate

lemma links_unlinkAll (h : sl.Holds (L ++ x :: R)) (hi : i < sl.level) :
    SkipLinks (fun v => i < (sl.node v).height) ((sl.unlinkAll x update).links i) (0 :: L ++ R) := by
  simp only [unlinkAll_eq, if_pos hi, hupdate]
  exact h.links_unlink hi

lemma forward_unlinkAll (h : sl.Holds (L ++ x :: R)) : ((sl.unlinkAll x update).links 0 x).forward = R.head? := by
  have hnext : (sl.links 0 x).forward = R.head? := h.forward_zero (P := 0 :: L) rfl
  have hlevel : 0 < sl.level := h.level.1
  simp only [unlinkAll_eq, if_pos hlevel, unlink, hupdate]
  split_ifs <;> rw [update_of_ne h.before_ne, hnext]

lemma deleteNode (h : sl.Holds (L ++ x :: R)) : (sl.deleteNode x update).Holds (L ++ R) := by
  obtain ⟨hx, hnodup⟩ := nodup_cons.1 (nodup_middle.1 (show (0 :: L ++ x :: R).Nodup from h.nodup))
  have hsub : ∀ v ∈ L ++ R, v ∈ L ++ x :: R := fun v hv => perm_middle.mem_iff.2 (mem_cons_of_mem x hv)
  obtain ⟨hsortedL, hsortedR, hcross⟩ := pairwise_append.1 h.sorted
  obtain ⟨hbacksL, hbackx, hbacksR⟩ := backs_append.1 h.backs
  have hforward := h.forward_unlinkAll hupdate
  obtain ⟨hpos, hle, hnone⟩ := topLevel_spec (sl.unlinkAll x update).links h.level.1
  have hnode : (sl.unlinkAll x update).node = sl.node := by rw [unlinkAll_eq]
  have hlevel : (sl.deleteNode x update).level = topLevel (sl.unlinkAll x update).links sl.level := by
    simp only [ZSkiplist.deleteNode, backNext_links, backNext_level]
    rw [unlinkAll_eq]
  constructor
  case nodup => exact hnodup
  case fresh =>
    intro v hv
    simp only [ZSkiplist.deleteNode, backNext_fresh, unlinkAll_eq]
    refine h.fresh v ?_
    rw [← cons_append, perm_middle.mem_iff]
    exact mem_cons_of_mem x hv
  case links =>
    intro i hi
    rw [hlevel] at hi
    simp only [ZSkiplist.deleteNode, backNext_height, backNext_links, hnode]
    exact h.links_unlinkAll hupdate (lt_of_lt_of_le hi hle)
  case above =>
    intro i hi
    rw [hlevel] at hi
    simp only [ZSkiplist.deleteNode, backNext_links]
    by_cases hold : i < sl.level
    · exact hnone i hi hold
    rw [unlinkAll_eq]
    simp only [if_neg hold]
    exact h.above i (not_lt.1 hold)
  case heights =>
    intro v hv
    obtain ⟨hlow, hhigh⟩ := h.heights v (hsub v hv)
    rw [hlevel]
    simp only [ZSkiplist.deleteNode, backNext_height, hnode]
    refine ⟨hlow, ?_⟩
    -- On a level that is given up the header would lead to the node.
    by_contra hgiven
    have hi : (sl.node v).height - 1 < sl.level := by omega
    have hheader := (h.links_unlinkAll hupdate hi).1 (decide_eq_true (by rw [h.header.1]; have := h.level.2; omega))
    have hnil := hnone _ (by omega) hi
    rw [hheader] at hnil
    have hlow' := find?_eq_none.1 hnil v hv
    simp only [decide_eq_true_eq] at hlow'
    omega
  case header =>
    simp only [ZSkiplist.deleteNode, backNext_height, backNext_elem, hnode]
    exact h.header
  case level =>
    rw [hlevel]
    exact ⟨hpos, hle.trans h.level.2⟩
  case sorted =>
    simp only [ZSkiplist.deleteNode, backNext_elem, hnode]
    exact pairwise_append.2 ⟨hsortedL, hsortedR.of_cons, fun y hy z hz => hcross y hy z (mem_cons_of_mem x hz)⟩
  case backs =>
    have hdisj := (nodup_append.1 hnodup).2
    simp only [ZSkiplist.deleteNode]
    refine backs_append.2 ⟨hbacksL.congr fun v hv => ?_, ?_⟩
    · have hv' : v ∉ R := fun hvR => hdisj.2 v (mem_cons_of_mem 0 hv) v hvR rfl
      rw [backNext_node hforward hv', hnode]
    · rw [hbackx, Option.or_none]
      exact (hbacksR.congr fun v _ => by rw [hnode]).backNext hforward hdisj.1
  case tail =>
    simp only [ZSkiplist.deleteNode]
    rw [backNext_tail hforward, hbackx, unlinkAll_eq, h.tail]
    rcases R with _ | ⟨y, R⟩ <;> simp
  case length =>
    simp only [ZSkiplist.deleteNode, backNext_length, unlinkAll_eq, h.length, length_append, length_cons]
    omega

end

lemma delete_of_mem (h : sl.Holds (L ++ x :: R)) (helem : (sl.node x).elem = ⟨member, score⟩) :
    sl.delete score member = (sl.deleteNode x fun i => (sl.before ⟨member, score⟩ i).1, true) := by
  obtain ⟨hL, hR⟩ := h.le_of_split
  obtain ⟨P, hsplit, -⟩ := h.before_zero hL hR
  have hnext : (sl.links 0 (sl.before (sl.node x).elem 0).1).forward = some x := by
    refine h.forward_zero (P := P) (Q := x :: R) ?_
    rw [← cons_append, hsplit]
    simp
  rw [helem] at hnext
  simp [delete, hnext, helem]

end Holds

/-! ## Ranks -/

variable {x : Nat}

/-- The search for an element leaves the header on the highest level. -/
def leavesHeader : Bool :=
  match (sl.links (sl.level - 1) 0).forward with
  | some y => (sl.node y).elem ≤ t
  | none => false

namespace Holds

section
variable (h : sl.Holds (L ++ x :: R))
include h

lemma walk_to (go : Nat → Nat → Bool) (hgo : ∀ P' y R', (0 :: (L ++ [x])) ++ R = P' ++ y :: R' → P' ≠ [] →
      (go y P'.length = true ↔ P'.length < (0 :: (L ++ [x])).length)) (hi : i < sl.level) (hA : 0 :: (L ++ [x]) = P ++ u :: Q)
    (hu : i < (sl.node u).height) : ∃ P' u' Q', walkLevel (sl.links i) go (sl.length + 1) u P.length = (u', P'.length) ∧
      0 :: (L ++ [x]) = P' ++ u' :: Q' ∧ i < (sl.node u').height ∧ (∀ q ∈ Q', (sl.node q).height ≤ i) ∧
      P.length ≤ P'.length := by
  have hlinks : SkipLinks (fun v => i < (sl.node v).height) (sl.links i) ((0 :: (L ++ [x])) ++ R) := by
    rw [cons_append, append_assoc, singleton_append]
    exact h.links i hi
  have hfuel : Q.length ≤ sl.length + 1 := by
    have hlen := congrArg List.length hA
    have hall := h.length
    simp only [length_append, length_cons, length_nil] at hlen hall
    omega
  obtain ⟨P', u', Q', hwalk, hA', hu', hQ', hle⟩ := walkLevel_spec hlinks hgo hfuel hA (decide_eq_true hu)
  exact ⟨P', u', Q', hwalk, hA', of_decide_eq_true hu', fun q hq => by simpa using hQ' q hq, hle⟩

lemma end_zero (hA : 0 :: (L ++ [x]) = P ++ u :: Q)
    (hQ : ∀ q ∈ Q, (sl.node q).height ≤ 0) : u = x ∧ P.length = L.length + 1 := by
  have hQnil : Q = [] := by
    refine eq_nil_iff_forall_not_mem.2 fun q hq => ?_
    have hmem : q ∈ 0 :: (L ++ x :: R) := by
      have hq' : q ∈ 0 :: (L ++ [x]) := by rw [hA]; simp [hq]
      simp only [mem_cons, mem_append, not_mem_nil, or_false] at hq' ⊢
      tauto
    have hpos := h.height_pos hmem
    have hzero := hQ q hq
    omega
  subst hQnil
  rw [← cons_append] at hA
  obtain ⟨hP, hu⟩ := append_inj' hA rfl
  exact ⟨(List.cons.inj hu).1.symm, by rw [← hP]; rfl⟩

lemma elementFrom_eq (hn : 1 ≤ n) (hlevel : n ≤ sl.level) (hA : 0 :: (L ++ [x]) = P ++ u :: Q) (hu : n ≤ (sl.node u).height) :
    sl.elementFrom (L.length + 1) n u P.length = some x := by
  induction n generalizing P Q u with
  | zero => omega
  | succ n ih =>
  have hgo : ∀ P' y R', (0 :: (L ++ [x])) ++ R = P' ++ y :: R' → P' ≠ [] →
      (decide (P'.length ≤ L.length + 1) = true ↔ P'.length < (0 :: (L ++ [x])).length) := by
    intro P' y R' _ _
    simp only [decide_eq_true_eq, length_cons, length_append, length_nil]
    omega
  obtain ⟨P', u', Q', hwalk, hA', hu', hQ', -⟩ :=
    h.walk_to (fun _ t => t ≤ L.length + 1) hgo (Nat.lt_of_succ_le hlevel) hA (Nat.lt_of_succ_le hu)
  rw [elementFrom, hwalk]
  simp only
  split_ifs with hrank
  · rw [← cons_append] at hA'
    obtain ⟨-, hu'⟩ := append_inj hA' (by rw [hrank, length_cons])
    rw [(List.cons.inj hu').1]
  rcases n with _ | n
  · exact absurd (h.end_zero hA' hQ').2 hrank
  · exact ih (by omega) (by omega) hA' (by omega)

lemma getElementByRank_eq : sl.getElementByRank (L.length + 1) = some x := by
  refine h.elementFrom_eq (P := []) h.level.1 le_rfl rfl ?_
  rw [h.header.1]
  exact h.level.2

end

lemma getElementByRank_eq_getElem? (h : sl.Holds order) {k : Nat} (hk : k < order.length) :
    sl.getElementByRank (k + 1) = order[k]? := by
  have hsplit : order = order.take k ++ order[k] :: order.drop (k + 1) := by
    rw [getElem_cons_drop, take_append_drop]
  have hlen : (order.take k).length = k := by
    rw [length_take]
    omega
  rw [hsplit] at h
  have hget := h.getElementByRank_eq
  rw [hlen] at hget
  rw [hget, getElem?_eq_getElem hk]

section
variable (h : sl.Holds (L ++ x :: R)) (helem : (sl.node x).elem = ⟨member, score⟩)
include h helem

lemma walk_to_elem (hi : i < sl.level) (hA : 0 :: (L ++ [x]) = P ++ u :: Q) (hu : i < (sl.node u).height) :
    ∃ P' u' Q', walkLevel (sl.links i) (fun y _ => (sl.node y).elem ≤ ⟨member, score⟩) (sl.length + 1) u P.length =
        (u', P'.length) ∧ 0 :: (L ++ [x]) = P' ++ u' :: Q' ∧ i < (sl.node u').height ∧
      (∀ q ∈ Q', (sl.node q).height ≤ i) ∧ P.length ≤ P'.length := by
  obtain ⟨hL, hR⟩ := h.lt_of_split
  rw [helem] at hL hR
  refine h.walk_to _ (passes_iff ?_ ?_) hi hA hu
  · intro y hy
    rcases mem_append.1 hy with hy | hy
    · exact decide_eq_true (hL y hy).le
    · rw [mem_singleton.1 hy, helem]
      exact decide_eq_true le_rfl
  · intro y hy
    exact decide_eq_false (not_le.2 (hR y hy))

lemma leavesHeader_iff : sl.leavesHeader ⟨member, score⟩ = true ↔ ∃ q ∈ L ++ [x], sl.level ≤ (sl.node q).height := by
  obtain ⟨hL, hR⟩ := h.lt_of_split
  rw [helem] at hL hR
  have hlevel := h.level
  have hall : L ++ x :: R = (L ++ [x]) ++ R := by simp
  have hheader : (sl.links (sl.level - 1) 0).forward =
      ((L ++ [x]) ++ R).find? fun v => decide (sl.level - 1 < (sl.node v).height) := by
    rw [(h.links (sl.level - 1) (by omega)).1 (decide_eq_true (by rw [h.header.1]; omega)), hall]
    rfl
  rw [leavesHeader, hheader, find?_append]
  cases hfind : (L ++ [x]).find? fun v => decide (sl.level - 1 < (sl.node v).height) with
  | some y =>
    have hmem := mem_of_find?_eq_some hfind
    have hhigh := find?_some hfind
    simp only [decide_eq_true_eq] at hhigh
    refine iff_of_true (decide_eq_true ?_) ⟨y, hmem, by omega⟩
    rcases mem_append.1 hmem with hy | hy
    · exact (hL y hy).le
    · rw [mem_singleton.1 hy, helem]
  | none =>
  refine iff_of_false ?_ ?_
  · cases hnext : R.find? fun v => decide (sl.level - 1 < (sl.node v).height) with
    | none => simp
    | some y => simpa using hR y (mem_of_find?_eq_some hnext)
  · rintro ⟨q, hq, hheight⟩
    have hlow := find?_eq_none.1 hfind q hq
    simp only [decide_eq_true_eq] at hlow
    omega

variable (honly : ∀ y ∈ L ++ x :: R, (sl.node y).elem.member = member → y = x)
include honly

lemma rank_of_member (hA : 0 :: (L ++ [x]) = P ++ u :: Q) (hoff : member ≠ [] ∨ P ≠ [])
    (hmember : (sl.node u).elem.member = member) : P.length = L.length + 1 := by
  rcases P with _ | ⟨c, P⟩
  · obtain ⟨rfl, -⟩ := List.cons.inj hA
    rw [h.header.2] at hmember
    simp [← hmember] at hoff
  have hA' : L ++ [x] = P ++ u :: Q := (List.cons.inj hA).2
  have hmem : u ∈ L ++ x :: R := by
    rw [← singleton_append, ← append_assoc, hA']
    simp
  obtain rfl : u = x := honly u hmem hmember
  have hnodup : (L ++ [u]).Nodup := by
    have hall := (nodup_cons.1 h.nodup).2
    rw [← singleton_append, ← append_assoc] at hall
    exact (nodup_append.1 hall).1
  have hL : u ∉ L := fun hu => (nodup_append.1 hnodup).2.2 u hu u (by simp) rfl
  obtain ⟨rfl, -, -⟩ := (append_cons_inj_of_notMem hL (by simp)).1 hA'
  rfl

lemma getRankFrom_eq (hn : 1 ≤ n) (hlevel : n ≤ sl.level)
    (hA : 0 :: (L ++ [x]) = P ++ u :: Q) (hu : n ≤ (sl.node u).height)
    (hstart : member ≠ [] ∨ P ≠ [] ∨ ∃ q ∈ Q, n ≤ (sl.node q).height) :
    sl.getRankFrom score member n u P.length = L.length + 1 := by
  induction n generalizing P Q u with
  | zero => omega
  | succ n ih =>
  obtain ⟨P', u', Q', hwalk, hA', hu', hQ', hle⟩ :=
    h.walk_to_elem helem (Nat.lt_of_succ_le hlevel) hA (Nat.lt_of_succ_le hu)
  have hoff : member ≠ [] ∨ P' ≠ [] := by
    rcases hstart with hmember | hP | ⟨q, hq, hheight⟩
    · exact .inl hmember
    · refine .inr fun hnil => hP (length_eq_zero_iff.1 ?_)
      rw [hnil, length_nil] at hle
      omega
    refine .inr fun hnil => ?_
    rw [hnil, length_nil] at hle
    obtain rfl : P = [] := length_eq_zero_iff.1 (by omega)
    rw [hnil, hA] at hA'
    rw [(List.cons.inj hA').2] at hq
    have hlow := hQ' q hq
    omega
  rw [getRankFrom, hwalk]
  simp only
  split_ifs with hmember
  · exact h.rank_of_member helem honly hA' hoff hmember
  rcases n with _ | n
  · obtain ⟨rfl, -⟩ := h.end_zero hA' hQ'
    exact absurd (by rw [helem]) hmember
  refine ih (by omega) (by omega) hA' (by omega) ?_
  rcases hoff with hoff | hoff
  · exact .inl hoff
  · exact .inr (.inl hoff)

lemma getRank_eq (hleaves : member = [] → sl.leavesHeader ⟨member, score⟩ = true) :
    sl.getRank score member = L.length + 1 := by
  refine h.getRankFrom_eq helem honly (P := []) h.level.1 le_rfl rfl ?_ ?_
  · rw [h.header.1]
    exact h.level.2
  · by_cases hempty : member = []
    · exact .inr (.inr ((h.leavesHeader_iff helem).1 (hleaves hempty)))
    · exact .inl hempty

omit honly in
lemma getRank_eq_zero (hempty : member = []) (hstays : sl.leavesHeader ⟨member, score⟩ = false) :
    sl.getRank score member = 0 := by
  have hlow : ∀ q ∈ L ++ [x], (sl.node q).height < sl.level := by
    intro q hq
    by_contra hhigh
    rw [(h.leavesHeader_iff helem).2 ⟨q, hq, not_lt.1 hhigh⟩] at hstays
    exact Bool.noConfusion hstays
  obtain ⟨hpos, hmax⟩ := h.level
  obtain ⟨n, hn⟩ : ∃ n, sl.level = n + 1 := ⟨sl.level - 1, by omega⟩
  obtain ⟨P, u, Q, hwalk, hA, hu, -, -⟩ :=
    h.walk_to_elem helem (i := n) (P := []) (by omega) rfl (by rw [h.header.1]; omega)
  rcases P with _ | ⟨c, P⟩
  · obtain ⟨rfl, -⟩ := List.cons.inj hA
    rw [length_nil] at hwalk
    rw [getRank, hn, getRankFrom, hwalk]
    simp [h.header.2, hempty]
  · have hA' : L ++ [x] = P ++ u :: Q := (List.cons.inj hA).2
    have hlowu := hlow u (by rw [hA']; simp)
    omega

end

end Holds

end ZSkiplist

end Gopherdis.Datastruct

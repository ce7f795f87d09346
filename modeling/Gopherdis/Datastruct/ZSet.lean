/-
Sorted sets: a map from members to scores beside a skip list of the same elements. Whatever is added and removed, with
any levels for the nodes, the set is a finite map whose elements are listed in order; but `Rank` takes the header,
which has the empty member, for the node it looks for.
-/
import Gopherdis.Datastruct.Skiplist
import Gopherdis.Lib.Slice

namespace Gopherdis.Datastruct

open Lib List Function ZSkiplist

structure ZSet (S : Type) where
  dict : Bytes → Option S
  sl : ZSkiplist S

namespace ZSet

variable {S : Type}

def new (zero : S) : ZSet S := ⟨fun _ => none, .new zero⟩

/-- From a node on along `next`, `count` elements at most. -/
def collect (sl : ZSkiplist S) (next : Nat → Option Nat) : Nat → Option Nat → List (ZSetElement S)
  | count + 1, some x => (sl.node x).elem :: collect sl next count (next x)
  | _, _ => []

variable [LinearOrder S] (zs : ZSet S)

omit [LinearOrder S] in
def len : Int := zs.sl.length

variable (member : Bytes)

/-- `Add`, with whether the member is new and whether its score changed. The level is that of the new node. -/
def add (score : S) (level : Level) : ZSet S × (Bool × Bool) :=
  match zs.dict member with
  | some curScore =>
    if curScore ≠ score then
      (⟨update zs.dict member (some score), (zs.sl.delete curScore member).1.insert score member level⟩,
        (false, true))
    else (zs, (false, false))
  | none => (⟨update zs.dict member (some score), zs.sl.insert score member level⟩, (true, false))

omit [LinearOrder S] in
def score : Option S := zs.dict member

def remove : ZSet S × Bool :=
  match zs.dict member with
  | none => (zs, false)
  | some score => (⟨update zs.dict member none, (zs.sl.delete score member).1⟩, true)

def rank (member : Bytes) (reverse : Bool) : Int × Bool :=
  match zs.dict member with
  | none => (-1, false)
  | some score =>
    let rank := zs.sl.getRank score member
    if rank = 0 then (-1, false)
    else if reverse then ((zs.sl.length - rank : Nat), true)
    else ((rank - 1 : Nat), true)

omit [LinearOrder S] in
def range (start stop : Int) (reverse : Bool) : List (ZSetElement S) :=
  let length : Int := zs.sl.length
  if length = 0 then []
  else
    let start := if start < 0 then length + start else start
    let stop := if stop < 0 then length + stop else stop
    let start := if start < 0 then 0 else start
    if length ≤ start ∨ stop < start then []
    else
      let stop := if length ≤ stop then length - 1 else stop
      let count := (stop - start + 1).toNat
      if reverse then
        collect zs.sl (fun x => (zs.sl.node x).backward) count (zs.sl.getElementByRank (length - start).toNat)
      else collect zs.sl (fun x => (zs.sl.links 0 x).forward) count (zs.sl.getElementByRank (start + 1).toNat)

/-! ## Walks along the nodes -/

/-- Each node of the list leads to the next. -/
def Follows (next : Nat → Option Nat) : List Nat → Prop
  | [] => True
  | x :: rest => next x = rest.head? ∧ Follows next rest

section
omit [LinearOrder S]
variable {sl : ZSkiplist S} {next : Nat → Option Nat} {nodes : List Nat}

lemma Follows.drop (h : Follows next nodes) (k : Nat) : Follows next (nodes.drop k) := by
  induction k generalizing nodes with
  | zero => exact h
  | succ k ih =>
    rcases nodes with _ | ⟨x, nodes⟩
    · trivial
    · exact ih h.2

lemma collect_eq (h : Follows next nodes) (count : Nat) :
    collect sl next count nodes.head? = (nodes.take count).map fun x => (sl.node x).elem := by
  induction count generalizing nodes with
  | zero => simp [collect]
  | succ count ih =>
    rcases nodes with _ | ⟨x, nodes⟩
    · rfl
    · rw [head?_cons, collect, h.1, ih h.2]
      rfl

lemma follows_reverse {node : Nat → SkipNode S} (h : ZSkiplist.Backs node none nodes) :
    Follows (fun x => (node x).backward) nodes.reverse := by
  induction nodes using List.reverseRecOn with
  | nil => trivial
  | append_singleton nodes x ih =>
    obtain ⟨hnodes, hx, -⟩ := backs_append.1 h
    rw [Option.or_none] at hx
    rw [reverse_append, reverse_singleton, singleton_append]
    exact ⟨hx.trans head?_reverse.symm, ih hnodes⟩

end

variable {zs} {sl : ZSkiplist S} {order : List Nat}

lemma follows_forward (h : sl.Holds order) : Follows (fun x => (sl.links 0 x).forward) order := by
  have hall : ∀ P Q, 0 :: order = P ++ Q → P ≠ [] → Follows (fun x => (sl.links 0 x).forward) Q := by
    intro P Q hsplit hP
    induction Q generalizing P with
    | nil => trivial
    | cons x Q ih => exact ⟨h.forward_zero hsplit, ih (P ++ [x]) (by simpa using hsplit) (by simp)⟩
  exact hall [0] order rfl (by simp)

lemma collect_forward (h : sl.Holds order) {start : Nat} (hstart : start < order.length) (count : Nat) :
    collect sl (fun x => (sl.links 0 x).forward) count (sl.getElementByRank (start + 1)) =
      ((order.drop start).take count).map fun x => (sl.node x).elem := by
  rw [h.getElementByRank_eq_getElem? hstart, ← head?_drop]
  exact collect_eq ((follows_forward h).drop start) count

lemma collect_backward (h : sl.Holds order) {start : Nat} (hstart : start < order.length) (count : Nat) :
    collect sl (fun x => (sl.node x).backward) count (sl.getElementByRank (order.length - start)) =
      ((order.reverse.drop start).take count).map fun x => (sl.node x).elem := by
  have hget : sl.getElementByRank (order.length - start) = (order.reverse.drop start).head? := by
    have hrank := h.getElementByRank_eq_getElem? (k := order.length - 1 - start) (by omega)
    rw [show order.length - 1 - start + 1 = order.length - start by omega] at hrank
    rw [hrank, head?_drop, getElem?_reverse hstart]
  rw [hget]
  exact collect_eq ((follows_reverse h.backs).drop start) count

/-! ## The elements of a map -/

variable (m : Bytes → Option S) (es : List (ZSetElement S))

/-- The elements of a finite map in order. -/
def Lists : Prop :=
  es.Pairwise (· < ·) ∧ ∀ e, e ∈ es ↔ m e.member = some e.score

/-- The nodes of the skip list, in this order, have the elements of the map. -/
structure Stores (sl : ZSkiplist S) (m : Bytes → Option S) (order : List Nat) : Prop where
  nodes : sl.Holds order
  elems : ∀ e, (∃ x ∈ order, (sl.node x).elem = e) ↔ m e.member = some e.score

lemma exists_split {node : Nat → SkipNode S} (hsorted : order.Pairwise fun x y => (node x).elem < (node y).elem)
    (t : ZSetElement S) : ∃ L R, order = L ++ R ∧ (∀ x ∈ L, (node x).elem < t) ∧ ∀ x ∈ R, t ≤ (node x).elem := by
  induction order with
  | nil => exact ⟨[], [], rfl, by simp, by simp⟩
  | cons x order ih =>
  obtain ⟨hx, hsorted⟩ := pairwise_cons.1 hsorted
  by_cases hlt : (node x).elem < t
  · obtain ⟨L, R, rfl, hL, hR⟩ := ih hsorted
    exact ⟨x :: L, R, rfl, forall_mem_cons.2 ⟨hlt, hL⟩, hR⟩
  · have hle := not_lt.1 hlt
    exact ⟨[], x :: order, rfl, by simp, forall_mem_cons.2 ⟨hle, fun y hy => hle.trans (hx y hy).le⟩⟩

namespace Stores

variable {m : Bytes → Option S} {member : Bytes} {score : S}

lemma lists (h : Stores sl m order) : Lists m (order.map fun x => (sl.node x).elem) :=
  ⟨pairwise_map.2 h.nodes.sorted, fun e => by rw [mem_map, h.elems]⟩

lemma insert (h : Stores sl m order) (hm : m member = none) (level : Level) :
    ∃ order', Stores (sl.insert score member level) (update m member (some score)) order' := by
  obtain ⟨L, R, rfl, hL, hR⟩ := exists_split h.nodes.sorted ⟨member, score⟩
  have hnew : ∀ x ∈ L ++ R, (sl.node x).elem ≠ ⟨member, score⟩ := by
    intro x hx heq
    have hsome := (h.elems _).1 ⟨x, hx, heq⟩
    rw [hm] at hsome
    cases hsome
  have hR' : ∀ x ∈ R, ⟨member, score⟩ < (sl.node x).elem := fun x hx =>
    lt_of_le_of_ne (hR x hx) (hnew x (mem_append_right L hx)).symm
  refine ⟨_, h.nodes.insert hL hR', fun e => ?_⟩
  have hmem : (∃ x ∈ L ++ sl.fresh :: R, ((sl.insert score member level).node x).elem = e) ↔
      ⟨member, score⟩ = e ∨ ∃ x ∈ L ++ R, (sl.node x).elem = e := by
    simp only [perm_middle.mem_iff, mem_cons, or_and_right, exists_or, exists_eq_left, insert_elem,
      if_true]
    refine or_congr_right (exists_congr fun x => and_congr_right fun hx => ?_)
    rw [if_neg (h.nodes.ne_fresh (mem_cons_of_mem 0 hx))]
  rw [hmem, h.elems, update_apply]
  split_ifs with hmember
  · rw [hmember, hm, Option.some_inj]
    rcases e with ⟨emember, escore⟩
    simp only at hmember ⊢
    simp [hmember]
  · refine or_iff_right fun heq => hmember ?_
    rw [← heq]

lemma delete (h : Stores sl m order) (hm : m member = some score) :
    ∃ order', Stores (sl.delete score member).1 (update m member none) order' := by
  obtain ⟨x, hx, helem⟩ := (h.elems ⟨member, score⟩).2 hm
  obtain ⟨L, R, rfl⟩ := append_of_mem hx
  obtain ⟨hL, hR⟩ := h.nodes.lt_of_split
  have hne : ∀ y ∈ L ++ R, (sl.node y).elem ≠ (sl.node x).elem := by
    intro y hy
    rcases mem_append.1 hy with hy | hy
    · exact (hL y hy).ne
    · exact (hR y hy).ne'
  rw [h.nodes.delete_of_mem helem]
  have hupdate : ∀ i, (fun i => (sl.before ⟨member, score⟩ i).1) i = (sl.before (sl.node x).elem i).1 := by
    intro i
    rw [helem]
  refine ⟨L ++ R, h.nodes.deleteNode hupdate, fun e => ?_⟩
  have hkept : ∀ y, ((sl.deleteNode x fun i => (sl.before ⟨member, score⟩ i).1).node y).elem = (sl.node y).elem := by
    intro y
    simp [deleteNode, backNext_elem, unlinkAll_eq]
  simp only [hkept]
  have hmem : (∃ y ∈ L ++ R, (sl.node y).elem = e) ↔ e ≠ ⟨member, score⟩ ∧ ∃ y ∈ L ++ x :: R, (sl.node y).elem = e := by
    constructor
    · rintro ⟨y, hy, rfl⟩
      exact ⟨helem ▸ hne y hy, y, perm_middle.mem_iff.2 (mem_cons_of_mem x hy), rfl⟩
    · rintro ⟨hother, y, hy, rfl⟩
      rcases mem_cons.1 (perm_middle.mem_iff.1 hy) with rfl | hy
      · exact absurd helem hother
      · exact ⟨y, hy, rfl⟩
  rw [hmem, h.elems, update_apply]
  split_ifs with hmember
  · rw [hmember, hm, Option.some_inj]
    rcases e with ⟨emember, escore⟩
    simp only at hmember ⊢
    simp [hmember, eq_comm]
  · refine and_iff_right fun heq => hmember ?_
    rw [heq]

end Stores

/-! ## Operations -/

/-- The set has the entries of the map, and its nodes are in order. -/
def Holds (zs : ZSet S) (m : Bytes → Option S) : Prop := zs.dict = m ∧ ∃ order, Stores zs.sl m order

lemma holds_new (zero : S) : (new zero).Holds fun _ => none :=
  ⟨rfl, [], ZSkiplist.holds_new zero, by simp⟩

section
variable {m : Bytes → Option S} (h : zs.Holds m) (member : Bytes)
include h

lemma add_spec (score : S) (level : Level) : (zs.add member score level).1.Holds (update m member (some score)) ∧
      (zs.add member score level).2 = (decide (m member = none), decide (m member ≠ none ∧ m member ≠ some score)) := by
  obtain ⟨rfl, order, hstores⟩ := h
  unfold add
  cases hm : zs.dict member with
  | none =>
    obtain ⟨order', hstores'⟩ := hstores.insert hm level
    exact ⟨⟨rfl, order', hstores'⟩, by simp⟩
  | some cur =>
  simp only
  split_ifs with hchanged
  · obtain ⟨order₁, hstores1⟩ := hstores.delete hm
    obtain ⟨order₂, hstores2⟩ := hstores1.insert (update_self ..) level
    rw [update_idem] at hstores2
    exact ⟨⟨rfl, order₂, hstores2⟩, by simpa using hchanged⟩
  · obtain rfl := not_not.1 hchanged
    rw [← hm, update_eq_self]
    exact ⟨⟨rfl, order, hstores⟩, by simp⟩

lemma remove_spec : (zs.remove member).1.Holds (update m member none) ∧ (zs.remove member).2 = (m member).isSome := by
  obtain ⟨rfl, order, hstores⟩ := h
  unfold remove
  cases hm : zs.dict member with
  | none =>
    simp only
    rw [← hm, update_eq_self]
    exact ⟨⟨rfl, order, hstores⟩, by rw [hm]; rfl⟩
  | some score =>
    obtain ⟨order', hstores'⟩ := hstores.delete hm
    exact ⟨⟨rfl, order', hstores'⟩, rfl⟩

end

lemma range_spec (h : zs.sl.Holds order) (start stop : Int) (reverse : Bool) : zs.range start stop reverse =
      listRange ((if reverse then order.reverse else order).map fun x => (zs.sl.node x).elem) start stop := by
  have hlen : ((if reverse then order.reverse else order).map fun x => (zs.sl.node x).elem).length = order.length := by
    cases reverse <;> simp
  have hs : (if start < 0 then (order.length : Int) + start else start) = absIndex order.length start := rfl
  have he : (if stop < 0 then (order.length : Int) + stop else stop) = absIndex order.length stop := rfl
  simp only [range, listRange, hlen, h.length, hs, he]
  generalize absIndex order.length start = s
  generalize absIndex order.length stop = e
  by_cases hempty : (order.length : Int) = 0
  · rw [if_pos hempty, if_pos (by omega)]
  rw [if_neg hempty]
  have hmax : (if s < 0 then 0 else s) = max 0 s := by split_ifs <;> omega
  have hmin : (if (order.length : Int) ≤ e then (order.length : Int) - 1 else e) = min e (order.length - 1) := by
    split_ifs <;> omega
  rw [hmax, hmin]
  by_cases hrange : min e (order.length - 1) < max 0 s
  · rw [if_pos hrange, if_pos (by omega)]
  rw [if_neg hrange, if_neg (by omega)]
  have hstart : (max 0 s).toNat < order.length := by omega
  have hcount : (min e (order.length - 1) - max 0 s + 1).toNat =
      (min e (order.length - 1) + 1).toNat - (max 0 s).toNat := by omega
  rw [hcount, ← map_take, ← map_drop, drop_take]
  cases reverse with
  | true =>
    rw [if_pos rfl, if_pos rfl, show ((order.length : Int) - max 0 s).toNat = order.length - (max 0 s).toNat by omega]
    exact collect_backward h hstart _
  | false =>
    rw [if_neg Bool.false_ne_true, if_neg Bool.false_ne_true,
      show (max 0 s + 1).toNat = (max 0 s).toNat + 1 by omega]
    exact collect_forward h hstart _

/-! ## Refinement -/

/-- Where a member stands among the elements of a map. -/
def position (member : Bytes) : Int × Bool :=
  match m member with
  | none => (-1, false)
  | some score => ((es.idxOf ⟨member, score⟩ : Nat), true)

/-- The set answers as the finite map does, whose elements are listed upwards or downwards. -/
def Refines (zs : ZSet S) (m : Bytes → Option S) : Prop :=
  ∃ es, Lists m es ∧ zs.len = es.length ∧ (∀ member, zs.score member = m member) ∧
    (∀ member reverse, zs.rank member reverse = position m (if reverse then es.reverse else es) member) ∧
    ∀ start stop reverse, zs.range start stop reverse = listRange (if reverse then es.reverse else es) start stop

lemma rank_spec {m : Bytes → Option S} (hdict : zs.dict = m) (h : Stores zs.sl m order) (member : Bytes)
    (reverse : Bool) :
    zs.rank member reverse = position m ((if reverse then order.reverse else order).map fun x => (zs.sl.node x).elem) member ↔
      (member = [] → ∀ score, m [] = some score → zs.sl.leavesHeader ⟨[], score⟩ = true) := by
  subst hdict
  unfold rank position
  cases hm : zs.dict member with
  | none =>
    refine iff_of_true rfl ?_
    rintro rfl score hscore
    rw [hm] at hscore
    cases hscore
  | some score =>
  obtain ⟨x, hx, helem⟩ := (h.elems ⟨member, score⟩).2 hm
  obtain ⟨L, R, rfl⟩ := append_of_mem hx
  obtain ⟨hL, hR⟩ := h.nodes.lt_of_split
  rw [helem] at hL hR
  have honly : ∀ y ∈ L ++ x :: R, (zs.sl.node y).elem.member = member → y = x := by
    intro y hy hmember
    have hscore := (h.elems _).1 ⟨y, hy, rfl⟩
    rw [hmember, hm, Option.some_inj] at hscore
    have heq : (zs.sl.node y).elem = ⟨member, score⟩ := by
      rw [hscore, ← hmember]
    rcases mem_cons.1 (perm_middle.mem_iff.1 hy) with rfl | hy
    · rfl
    rcases mem_append.1 hy with hy | hy
    · exact absurd heq (hL y hy).ne
    · exact absurd heq (hR y hy).ne'
  have hcond : (member = [] → ∀ score, zs.dict [] = some score → zs.sl.leavesHeader ⟨[], score⟩ = true) ↔
      (member = [] → zs.sl.leavesHeader ⟨member, score⟩ = true) := by
    refine forall_congr' fun hempty => ?_
    subst hempty
    simp [hm]
  rw [hcond]
  by_cases hleaves : member = [] → zs.sl.leavesHeader ⟨member, score⟩ = true
  · refine iff_of_true ?_ hleaves
    have hlen := h.nodes.length
    rw [length_append, length_cons] at hlen
    simp only [h.nodes.getRank_eq helem honly hleaves, Nat.add_eq_zero_iff, one_ne_zero, and_false, if_false]
    cases reverse with
    | true =>
      have hreverse : (L ++ x :: R).reverse = R.reverse ++ x :: L.reverse := by simp
      rw [if_pos rfl, if_pos rfl, hreverse,
        idxOf_map_middle (fun y hy => (hR y (mem_reverse.1 hy)).ne') helem, length_reverse]
      congr 2
      omega
    | false =>
      rw [if_neg Bool.false_ne_true, if_neg Bool.false_ne_true, idxOf_map_middle (fun y hy => (hL y hy).ne) helem]
      rfl
  · refine iff_of_false ?_ hleaves
    obtain ⟨hempty, hstays⟩ := Classical.not_imp.1 hleaves
    simp only [h.nodes.getRank_eq_zero helem hempty (by simpa using hstays), if_true]
    simp

end ZSet

/-! ## Runs -/

inductive ZSetOp (S : Type)
  | add (member : Bytes) (score : S) (level : Level)
  | remove (member : Bytes)

section
variable {S : Type} [LinearOrder S]

def ZSet.apply (zs : ZSet S) : ZSetOp S → ZSet S
  | .add member score level => (zs.add member score level).1
  | .remove member => (zs.remove member).1

omit [LinearOrder S] in
/-- What the operation does to a finite map. -/
def ZSetOp.onMap (m : Bytes → Option S) : ZSetOp S → Bytes → Option S
  | .add member score _ => update m member (some score)
  | .remove member => update m member none

namespace ZSet

variable {m : Bytes → Option S}

lemma holds_foldl {zs : ZSet S} (h : zs.Holds m) (ops : List (ZSetOp S)) :
    (ops.foldl ZSet.apply zs).Holds (ops.foldl ZSetOp.onMap m) := by
  induction ops generalizing zs m with
  | nil => exact h
  | cons op ops ih =>
    refine ih ?_
    cases op with
    | add member score level => exact (add_spec h member score level).1
    | remove member => exact (remove_spec h member).1

lemma answers_of_holds {zs : ZSet S} (h : zs.Holds m) :
    ∃ es, Lists m es ∧ zs.len = es.length ∧ (∀ member, zs.score member = m member) ∧
      (∀ member reverse, zs.rank member reverse = position m (if reverse then es.reverse else es) member ↔
        (member = [] → ∀ score, m [] = some score → zs.sl.leavesHeader ⟨[], score⟩ = true)) ∧
      ∀ start stop reverse, zs.range start stop reverse = listRange (if reverse then es.reverse else es) start stop := by
  obtain ⟨hdict, order, hstores⟩ := h
  have hreverse : ∀ reverse : Bool, (if reverse then (order.map fun x => (zs.sl.node x).elem).reverse
      else order.map fun x => (zs.sl.node x).elem) =
      (if reverse then order.reverse else order).map fun x => (zs.sl.node x).elem := by
    intro reverse
    cases reverse <;> simp
  refine ⟨_, hstores.lists, ?_, fun member => congrFun hdict member, fun member reverse => ?_,
    fun start stop reverse => ?_⟩
  · rw [len, hstores.nodes.length, length_map]
  · rw [hreverse]
    exact rank_spec hdict hstores member reverse
  · rw [hreverse]
    exact range_spec hstores.nodes start stop reverse

lemma Lists.unique {es es' : List (ZSetElement S)} (h : Lists m es) (h' : Lists m es') : es = es' := by
  refine List.Perm.eq_of_pairwise (fun a b _ _ hab hba => absurd hab (lt_asymm hba)) h.1 h'.1 ?_
  refine (perm_ext_iff_of_nodup (h.1.imp fun hab => hab.ne) (h'.1.imp fun hab => hab.ne)).2 fun e => ?_
  rw [h.2, h'.2]

end ZSet

/-- After any operations, with any levels, a sorted set is the finite map, exactly if the empty member is not in it or
the search for it leaves the header on the highest level. -/
theorem zset_refines_iff (zero : S) (ops : List (ZSetOp S)) :
    (ops.foldl ZSet.apply (.new zero)).Refines (ops.foldl ZSetOp.onMap fun _ => none) ↔
      ∀ score, ops.foldl ZSetOp.onMap (fun _ => none) [] = some score →
        (ops.foldl ZSet.apply (.new zero)).sl.leavesHeader ⟨[], score⟩ = true := by
  obtain ⟨es, hlists, hlen, hscore, hrank, hrange⟩ := ZSet.answers_of_holds (ZSet.holds_foldl (ZSet.holds_new zero) ops)
  constructor
  · rintro ⟨es', hlists', -, -, hrank', -⟩
    obtain rfl := hlists.unique hlists'
    exact (hrank [] false).1 (hrank' [] false) rfl
  · intro hleaves
    exact ⟨es, hlists, hlen, hscore, fun member reverse => (hrank member reverse).2 fun _ => hleaves, hrange⟩

end

/-- The empty member with score 0 on one level, then `a` with score 1 on two: the set has the empty member, but no
rank for it. -/
theorem empty_member_without_rank :
    let ops : List (ZSetOp Int) := [.add [] 0 ⟨1, by decide, by decide⟩, .add [97] 1 ⟨2, by decide, by decide⟩]
    let zs := ops.foldl ZSet.apply (.new 0)
    let m := ops.foldl ZSetOp.onMap fun _ => none
    zs.score [] = some 0 ∧ zs.rank [] false = (-1, false) ∧ ¬zs.Refines m := by
  intro ops zs m
  have hscore : m [] = some 0 := by decide
  have hrank : zs.rank [] false = (-1, false) := by decide
  refine ⟨by decide, hrank, ?_⟩
  rintro ⟨es, -, -, -, hranks, -⟩
  have hpos := hranks [] false
  rw [hrank, ZSet.position, hscore] at hpos
  cases hpos

end Gopherdis.Datastruct

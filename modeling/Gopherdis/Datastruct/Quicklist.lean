/-
Quicklists: doubly linked lists of nodes that hold up to 128 strings each. Nodes are put to the ends and taken from
them; no node is ever empty, and the counts are right. `none` stands for an index out of range.
-/
import Gopherdis.Lib.Decimal
import Gopherdis.Lib.Chain
import Gopherdis.Lib.Slice

namespace Gopherdis.Datastruct

open Lib List Function Option

/-! ## Quicklists -/

def defaultNodeCapacity : Nat := 128

/-- The nodes are cells of a heap, known by their numbers; `fresh` is the number of the next one. -/
structure Quicklist where
  heap : Nat → Cell (List Bytes)
  fresh : Nat
  head : Option Nat
  tail : Option Nat
  count : Int
  nodeCount : Int

namespace Quicklist

def new : Quicklist := ⟨fun _ => ⟨none, none, []⟩, 0, none, none, 0, 0⟩

variable (ql : Quicklist)

def len : Int := ql.count

def modify (id : Nat) (f : Cell (List Bytes) → Cell (List Bytes)) : Quicklist :=
  { ql with heap := update ql.heap id (f (ql.heap id)) }

variable (cell : Cell (List Bytes))

def alloc : Quicklist :=
  { ql with heap := update ql.heap ql.fresh cell, fresh := ql.fresh + 1 }

variable (val : Bytes)

/-- The one node of a list that was empty. -/
def pushFirst : Quicklist :=
  { ql.alloc ⟨none, none, [val]⟩ with head := some ql.fresh, tail := some ql.fresh, nodeCount := 1, count := 1 }

def lpush : Quicklist :=
  match ql.head with
  | none => ql.pushFirst val
  | some h =>
  let ql :=
    if (ql.heap h).val.length < defaultNodeCapacity then ql.modify h fun c => { c with val := val :: c.val }
    else
      { (ql.alloc ⟨none, some h, [val]⟩).modify h fun c => { c with prev := some ql.fresh } with
        head := some ql.fresh
        nodeCount := ql.nodeCount + 1 }
  { ql with count := ql.count + 1 }

def rpush : Quicklist :=
  match ql.tail with
  | none => ql.pushFirst val
  | some t =>
  let ql :=
    if (ql.heap t).val.length < defaultNodeCapacity then ql.modify t fun c => { c with val := c.val ++ [val] }
    else
      { (ql.alloc ⟨some t, none, [val]⟩).modify t fun c => { c with next := some ql.fresh } with
        tail := some ql.fresh
        nodeCount := ql.nodeCount + 1 }
  { ql with count := ql.count + 1 }

/-- A head that is empty goes. -/
def dropHead (h : Nat) : Quicklist :=
  let ql := { ql with head := (ql.heap h).next, nodeCount := ql.nodeCount - 1 }
  match ql.head with
  | some h' => ql.modify h' fun c => { c with prev := none }
  | none => { ql with tail := none }

def lpop : Option (Quicklist × Option Bytes) :=
  if ql.count = 0 then some (ql, none)
  else
    match ql.head with
    | none => some (ql, none)
    | some h => do
      let val ← (ql.heap h).val.head?
      let ql := ql.modify h fun c => { c with val := c.val.tail }
      let ql := { ql with count := ql.count - 1 }
      some (if (ql.heap h).val.length = 0 then ql.dropHead h else ql, some val)

def dropTail (t : Nat) : Quicklist :=
  let ql := { ql with tail := (ql.heap t).prev, nodeCount := ql.nodeCount - 1 }
  match ql.tail with
  | some t' => ql.modify t' fun c => { c with next := none }
  | none => { ql with head := none }

def rpop : Option (Quicklist × Option Bytes) :=
  if ql.count = 0 then some (ql, none)
  else
    match ql.tail with
    | none => some (ql, none)
    | some t => do
      let val ← (ql.heap t).val.getLast?
      let ql := ql.modify t fun c => { c with val := c.val.dropLast }
      let ql := { ql with count := ql.count - 1 }
      some (if (ql.heap t).val.length = 0 then ql.dropTail t else ql, some val)

variable (idx : Int)

def normalizeIndex : Int := if idx < 0 then ql.count + idx else idx

/-- What a node holds of the range; its first string has index `currIdx`. -/
def nodePart (items : List Bytes) (start stop currIdx : Int) : List Bytes :=
  let nodeEnd := currIdx + items.length - 1
  if start ≤ nodeEnd then
    let s := if currIdx < start then start - currIdx else 0
    let e := if stop < nodeEnd then stop - currIdx else (items.length : Int) - 1
    (items.take (e + 1).toNat).drop s.toNat
  else []

/-- The nodes from `id` on. -/
def rangeFrom (start stop : Int) : Nat → Option Nat → Int → List Bytes → List Bytes
  | 0, _, _, result => result
  | _, none, _, result => result
  | fuel + 1, some id, currIdx, result =>
    let items := (ql.heap id).val
    let result := result ++ nodePart items start stop currIdx
    if stop ≤ currIdx + items.length - 1 then result
    else rangeFrom start stop fuel (ql.heap id).next (currIdx + items.length) result

/-- There are at most as many nodes as were ever made. -/
def lrange (start stop : Int) : List Bytes :=
  if ql.count = 0 then []
  else
    let start := ql.normalizeIndex start
    let stop := ql.normalizeIndex stop
    let start := if start < 0 then 0 else start
    let stop := if ql.count ≤ stop then ql.count - 1 else stop
    if stop < start ∨ ql.count ≤ start then [] else ql.rangeFrom start stop ql.fresh ql.head 0 []

/-- The node that holds an index, and where in the node. -/
def locate (idx : Int) : Nat → Option Nat → Int → Option (Nat × Nat)
  | 0, _, _ => none
  | _, none, _ => none
  | fuel + 1, some id, currIdx =>
    let nodeLen := (ql.heap id).val.length
    if idx < currIdx + nodeLen then some (id, (idx - currIdx).toNat)
    else locate idx fuel (ql.heap id).next (currIdx + nodeLen)

def lindex : Option (Option Bytes) :=
  if ql.count = 0 then some none
  else
    let idx := ql.normalizeIndex idx
    if idx < 0 ∨ ql.count ≤ idx then some none
    else
      match ql.locate idx ql.fresh ql.head 0 with
      | none => some none
      | some (id, i) => do
        let val ← (ql.heap id).val[i]?
        some (some val)

def lset (val : Bytes) : Option (Quicklist × Bool) :=
  if ql.count = 0 then some (ql, false)
  else
    let idx := ql.normalizeIndex idx
    if idx < 0 ∨ ql.count ≤ idx then some (ql, false)
    else
      match ql.locate idx ql.fresh ql.head 0 with
      | none => some (ql, false)
      | some (id, i) =>
        if i < (ql.heap id).val.length then some (ql.modify id fun c => { c with val := c.val.set i val }, true)
        else none

/-! ## The strings of a quicklist -/

def contents (cells : List (Nat × List Bytes)) : List Bytes := cells.flatMap Prod.snd

@[simp] lemma contents_nil : contents [] = [] := rfl

@[simp] lemma contents_cons (c : Nat × List Bytes) (cells : List (Nat × List Bytes)) :
    contents (c :: cells) = c.2 ++ contents cells := rfl

@[simp] lemma contents_append (xs ys : List (Nat × List Bytes)) : contents (xs ++ ys) = contents xs ++ contents ys :=
  flatMap_append

/-- The nodes of a quicklist: linked both ways from the head to the tail, none of them empty or too long, and
counted. -/
structure Nodes (ql : Quicklist) (cells : List (Nat × List Bytes)) : Prop where
  chain : Chain ql.heap none cells none
  head : ql.head = firstOf cells none
  tail : ql.tail = lastCell none cells
  nodup : (cells.map Prod.fst).Nodup
  fresh : ∀ c ∈ cells, c.1 < ql.fresh
  sizes : ∀ c ∈ cells, c.2 ≠ [] ∧ c.2.length ≤ defaultNodeCapacity
  count : ql.count = (contents cells).length
  nodeCount : ql.nodeCount = cells.length

variable {ql} {cells : List (Nat × List Bytes)}

lemma nodes_new : new.Nodes [] where
  chain := trivial
  head := rfl
  tail := rfl
  nodup := nodup_nil
  fresh := by simp
  sizes := by simp
  count := rfl
  nodeCount := rfl

namespace Nodes

lemma fresh_notMem (h : ql.Nodes cells) : ql.fresh ∉ cells.map Prod.fst := by
  intro hmem
  obtain ⟨c, hc, heq⟩ := mem_map.1 hmem
  exact absurd (h.fresh c hc) (by omega)

lemma length_le_fresh (h : ql.Nodes cells) : cells.length ≤ ql.fresh := by
  have hsub : (cells.map Prod.fst).toFinset ⊆ Finset.range ql.fresh := by
    intro id hid
    obtain ⟨c, hc, rfl⟩ := mem_map.1 (mem_toFinset.1 hid)
    exact Finset.mem_range.2 (h.fresh c hc)
  have hcard := Finset.card_le_card hsub
  rwa [toFinset_card_of_nodup h.nodup, length_map, Finset.card_range] at hcard

lemma pushFirst (val : Bytes) : (ql.pushFirst val).Nodes [(ql.fresh, [val])] where
  chain := by simp [Quicklist.pushFirst, alloc]
  head := rfl
  tail := rfl
  nodup := by simp
  fresh := by simp [Quicklist.pushFirst, alloc]
  sizes := by simp [defaultNodeCapacity]
  count := by simp [Quicklist.pushFirst]
  nodeCount := by simp [Quicklist.pushFirst]

lemma set {A B : List (Nat × List Bytes)} {c : Nat × List Bytes} (h : ql.Nodes (A ++ c :: B)) (items : List Bytes)
    (count : Int) (hne : items ≠ []) (hlen : items.length ≤ defaultNodeCapacity)
    (hcount : count = (contents (A ++ (c.1, items) :: B)).length) :
    Nodes { ql.modify c.1 fun c => { c with val := items } with count := count } (A ++ (c.1, items) :: B) where
  chain := h.chain.set h.nodup items
  head := h.head.trans (by simp [firstOf_append, firstOf_cons])
  tail := by
    refine h.tail.trans ?_
    rcases B.eq_nil_or_concat with rfl | ⟨B, d, rfl⟩
    · rw [lastCell_concat, lastCell_concat]
    · rw [concat_eq_append, ← cons_append, ← cons_append, ← append_assoc, ← append_assoc,
        lastCell_concat, lastCell_concat]
  nodup := by simpa using h.nodup
  fresh := by
    obtain ⟨hA, hcB⟩ := forall_mem_append.1 h.fresh
    obtain ⟨hc, hB⟩ := forall_mem_cons.1 hcB
    exact forall_mem_append.2 ⟨hA, forall_mem_cons.2 ⟨hc, hB⟩⟩
  sizes := by
    obtain ⟨hA, hcB⟩ := forall_mem_append.1 h.sizes
    obtain ⟨-, hB⟩ := forall_mem_cons.1 hcB
    exact forall_mem_append.2 ⟨hA, forall_mem_cons.2 ⟨⟨hne, hlen⟩, hB⟩⟩
  count := hcount
  nodeCount := h.nodeCount.trans (by simp)

lemma lpush (h : ql.Nodes cells) (val : Bytes) :
    ∃ cells', (ql.lpush val).Nodes cells' ∧ contents cells' = val :: contents cells := by
  rcases cells with _ | ⟨c, cells⟩
  · rw [Quicklist.lpush, h.head]
    exact ⟨_, pushFirst val, rfl⟩
  obtain ⟨hc, hchain⟩ := h.chain
  obtain ⟨hnotin, -⟩ := nodup_cons.1 h.nodup
  have hval : (ql.heap c.1).val = c.2 := by rw [hc]
  have hcount := h.count
  simp only [Quicklist.lpush, h.head, firstOf_cons, hval]
  split_ifs with hroom
  · refine ⟨(c.1, val :: c.2) :: cells, ?_, by simp⟩
    have hset := set (A := []) h (val :: c.2) (ql.count + 1) (cons_ne_nil val c.2) hroom (by
      simp only [nil_append, contents_cons, length_append, length_cons] at hcount ⊢
      omega)
    simpa [modify, hval] using hset
  -- The head is full: a new one is linked before it.
  have hnew := h.fresh_notMem
  have hne : c.1 ≠ ql.fresh := (h.fresh c mem_cons_self).ne
  refine ⟨(ql.fresh, [val]) :: c :: cells, ⟨⟨?_, ?_, ?_⟩, rfl, ?_, ?_, ?_, ?_, ?_, ?_⟩, by simp⟩
  · simp [modify, alloc, hne.symm]
  · simp [modify, alloc, hne, hc]
  · exact (hchain.update fun hmem => hnew (mem_cons_of_mem _ hmem)).update hnotin
  · exact h.tail.trans (by simp [lastCell_cons])
  · exact nodup_cons.2 ⟨hnew, h.nodup⟩
  · exact forall_mem_cons.2 ⟨Nat.lt_succ_self _, fun d hd => (h.fresh d hd).trans (Nat.lt_succ_self _)⟩
  · exact forall_mem_cons.2 ⟨⟨by simp, by simp [defaultNodeCapacity]⟩, h.sizes⟩
  · simp only [contents_cons, length_append, length_singleton] at hcount ⊢
    simp only [modify, alloc]
    omega
  · have hnodes := h.nodeCount
    simp only [length_cons] at hnodes ⊢
    omega

lemma count_eq_zero (h : ql.Nodes cells) : ql.count = 0 ↔ contents cells = [] := by
  rw [h.count, Int.natCast_eq_zero, length_eq_zero_iff]

lemma dropHead {id : Nat} (hc : ql.heap id = ⟨none, firstOf cells none, []⟩)
    (hchain : Chain ql.heap (some id) cells none) (htail : ql.tail = lastCell (some id) cells)
    (hnodup : (cells.map Prod.fst).Nodup) (hfresh : ∀ c ∈ cells, c.1 < ql.fresh)
    (hsizes : ∀ c ∈ cells, c.2 ≠ [] ∧ c.2.length ≤ defaultNodeCapacity)
    (hcount : ql.count = (contents cells).length) (hnodes : ql.nodeCount = cells.length + 1) :
    (ql.dropHead id).Nodes cells := by
  rcases cells with _ | ⟨d, cells⟩
  · simp only [Quicklist.dropHead, hc, firstOf_nil]
    exact ⟨trivial, rfl, rfl, hnodup, hfresh, hsizes, hcount, by simp [hnodes]⟩
  obtain ⟨hd, hrest⟩ := hchain
  simp only [Quicklist.dropHead, hc, firstOf_cons]
  refine ⟨⟨?_, ?_⟩, rfl, htail.trans (by simp [lastCell_cons]), hnodup, hfresh, hsizes, hcount, ?_⟩
  · simp [modify, hd]
  · exact hrest.update (nodup_cons.1 hnodup).1
  · simp [modify, hnodes]

lemma lpop (h : ql.Nodes cells) {x : Bytes} {xs : List Bytes} (hcontents : contents cells = x :: xs) :
    ∃ ql' cells', ql.lpop = some (ql', some x) ∧ ql'.Nodes cells' ∧ contents cells' = xs := by
  have hne : ql.count ≠ 0 := fun h0 => by rw [h.count_eq_zero.1 h0] at hcontents; cases hcontents
  rcases cells with _ | ⟨⟨id, items⟩, cells⟩
  · cases hcontents
  obtain ⟨hc, hchain⟩ := h.chain
  obtain ⟨hnotin, hnodup⟩ := nodup_cons.1 h.nodup
  obtain ⟨⟨hitems, hlen⟩, hsizes⟩ := forall_mem_cons.1 h.sizes
  obtain ⟨y, items, rfl⟩ := exists_cons_of_ne_nil hitems
  obtain ⟨rfl, hxs⟩ := List.cons.inj hcontents
  have hcount := h.count
  have hnodes := h.nodeCount
  simp only [contents_cons, length_append, length_cons] at hcount hlen hnodes
  rw [Quicklist.lpop, if_neg hne, h.head]
  simp only [firstOf_cons, hc, head?_cons, bind_eq_bind, bind_some, modify, tail_cons,
    update_self]
  split_ifs with hlast
  · obtain rfl := length_eq_zero_iff.1 hlast
    refine ⟨_, cells, rfl, dropHead (by simp) (hchain.update hnotin) ?_ hnodup ?_ hsizes ?_ ?_, hxs⟩
    · exact h.tail.trans (by simp [lastCell_cons])
    · exact (forall_mem_cons.1 h.fresh).2
    · simp only [length_nil] at hcount ⊢
      omega
    · simpa using hnodes
  · refine ⟨_, (id, items) :: cells, rfl, ?_, hxs⟩
    have hrest : items ≠ [] := fun h0 => hlast (length_eq_zero_iff.2 h0)
    have hset := set (A := []) h items (ql.count - 1) hrest (by omega) (by
      simp only [nil_append, contents_cons, length_append]
      omega)
    simpa [modify, hc] using hset

end Nodes

/-! ### The other end -/

variable (c : Cell (List Bytes))

/-- A node and what it holds, seen from the tail. -/
def flip : Cell (List Bytes) := ⟨c.next, c.prev, c.val.reverse⟩

/-- The list read from its tail. -/
def mirror (ql : Quicklist) : Quicklist := { ql with heap := flip ∘ ql.heap, head := ql.tail, tail := ql.head }

def mirrorCells (cells : List (Nat × List Bytes)) : List (Nat × List Bytes) :=
  cells.reverse.map fun c => (c.1, c.2.reverse)

lemma flip_flip : flip (flip c) = c := by simp [flip]

lemma mirror_mirror (ql : Quicklist) : ql.mirror.mirror = ql := by
  have hheap : flip ∘ flip ∘ ql.heap = ql.heap := funext fun id => flip_flip (ql.heap id)
  simp [mirror, hheap]

lemma mirror_modify (id : Nat) (f : Cell (List Bytes) → Cell (List Bytes)) :
    (ql.modify id f).mirror = ql.mirror.modify id fun c => flip (f (flip c)) := by
  simp [mirror, modify, comp_update, comp_apply, flip_flip]

lemma mirror_alloc : (ql.alloc cell).mirror = ql.mirror.alloc (flip cell) := by
  simp [mirror, alloc, comp_update]

lemma contents_mirrorCells : contents (mirrorCells cells) = (contents cells).reverse := by
  induction cells with
  | nil => rfl
  | cons c cells ih =>
    rw [mirrorCells, reverse_cons, map_append, contents_append, ← mirrorCells, ih]
    simp

lemma Nodes.mirror (h : ql.Nodes cells) : ql.mirror.Nodes (mirrorCells cells) where
  chain := h.chain.mirror List.reverse
  head := h.tail.trans (by simp [firstOf, lastCell, mirrorCells, comp_def])
  tail := h.head.trans (by simp [firstOf, lastCell, mirrorCells, comp_def])
  nodup := by simpa [mirrorCells, comp_def] using h.nodup
  fresh := forall_mem_map.2 fun c hc => h.fresh c (mem_reverse.1 hc)
  sizes := forall_mem_map.2 fun c hc => by simpa using h.sizes c (mem_reverse.1 hc)
  count := by rw [contents_mirrorCells, length_reverse]; exact h.count
  nodeCount := h.nodeCount.trans (by simp [mirrorCells])

lemma mirror_rpush : (ql.rpush val).mirror = ql.mirror.lpush val := by
  cases htail : ql.tail with
  | none =>
    rw [rpush, lpush, show ql.mirror.head = none from htail, htail]
    exact congrArg (fun q => { q with head := some ql.fresh, tail := some ql.fresh, nodeCount := 1, count := 1 })
      (mirror_alloc ⟨none, none, [val]⟩)
  | some t =>
  have hlen : (ql.mirror.heap t).val.length = (ql.heap t).val.length := length_reverse
  simp only [rpush, lpush, show ql.mirror.head = some t from htail, htail, hlen]
  split_ifs
  · have hput : (ql.modify t fun c => { c with val := c.val ++ [val] }).mirror =
        ql.mirror.modify t fun c => { c with val := val :: c.val } := by simp [mirror_modify, flip]
    exact congrArg (fun q => { q with count := ql.count + 1 }) hput
  have hlink : ((ql.alloc ⟨some t, none, [val]⟩).modify t fun c => { c with next := some ql.fresh }).mirror =
      (ql.mirror.alloc ⟨none, some t, [val]⟩).modify t fun c => { c with prev := some ql.fresh } := by
    simp [mirror_modify, mirror_alloc, flip]
  exact congrArg
    (fun q => { q with head := some ql.fresh, nodeCount := ql.nodeCount + 1, count := ql.count + 1 }) hlink

lemma Nodes.rpush (h : ql.Nodes cells) (val : Bytes) :
    ∃ cells', (ql.rpush val).Nodes cells' ∧ contents cells' = contents cells ++ [val] := by
  obtain ⟨cells', h', hcontents⟩ := h.mirror.lpush val
  rw [← mirror_rpush] at h'
  refine ⟨mirrorCells cells', mirror_mirror (ql.rpush val) ▸ h'.mirror, ?_⟩
  rw [contents_mirrorCells, hcontents, contents_mirrorCells, reverse_cons, reverse_reverse]

lemma mirror_dropTail (t : Nat) : (ql.dropTail t).mirror = ql.mirror.dropHead t := by
  have hnext : (ql.mirror.heap t).next = (ql.heap t).prev := rfl
  simp only [dropTail, dropHead, hnext]
  cases (ql.heap t).prev with
  | none => rfl
  | some t' =>
    refine (mirror_modify t' _).trans ?_
    simp only [flip, reverse_reverse]
    rfl

lemma mirror_rpop : ql.rpop.map (fun r => (r.1.mirror, r.2)) = ql.mirror.lpop := by
  rw [rpop, lpop, show ql.mirror.count = ql.count from rfl, show ql.mirror.head = ql.tail from rfl]
  split_ifs
  · rfl
  cases ql.tail with
  | none => rfl
  | some t =>
  have hval : (ql.mirror.heap t).val.head? = (ql.heap t).val.getLast? := head?_reverse
  have hcut : ql.mirror.modify t (fun c => { c with val := c.val.tail }) =
      (ql.modify t fun c => { c with val := c.val.dropLast }).mirror := by simp [mirror_modify, flip]
  have hlen (q : Quicklist) : (q.mirror.heap t).val.length = (q.heap t).val.length := length_reverse
  simp only [hval, hcut, hlen]
  cases (ql.heap t).val.getLast? with
  | none => rfl
  | some val =>
    simp only [bind_eq_bind, bind_some, map_some, apply_ite Quicklist.mirror, mirror_dropTail]
    rfl

lemma Nodes.rpop (h : ql.Nodes cells) {x : Bytes} {xs : List Bytes} (hcontents : contents cells = xs ++ [x]) :
    ∃ ql' cells', ql.rpop = some (ql', some x) ∧ ql'.Nodes cells' ∧ contents cells' = xs := by
  have hmirror : contents (mirrorCells cells) = x :: xs.reverse := by
    rw [contents_mirrorCells, hcontents, reverse_append]
    rfl
  obtain ⟨ql', cells', hpop, h', hxs⟩ := h.mirror.lpop hmirror
  rw [← mirror_rpop, map_eq_some_iff] at hpop
  obtain ⟨⟨q, _⟩, hpop, heq⟩ := hpop
  cases heq
  refine ⟨q, mirrorCells cells', hpop, mirror_mirror q ▸ h'.mirror, ?_⟩
  rw [contents_mirrorCells, hxs, reverse_reverse]

namespace Nodes

/-! ## Walks from the head -/

lemma nodePart_eq {items : List Bytes} (hitems : items ≠ []) {start stop currIdx : Nat} (hcurr : currIdx ≤ stop) :
    nodePart items start stop currIdx = (items.take (stop + 1 - currIdx)).drop (start - currIdx) := by
  have hpos : 0 < items.length := length_pos_iff.2 hitems
  have hs : (if (currIdx : Int) < start then (start : Int) - currIdx else 0).toNat = start - currIdx := by
    split_ifs <;> omega
  simp only [nodePart, hs]
  by_cases hin : (start : Int) ≤ currIdx + items.length - 1
  · rw [if_pos hin]
    by_cases hend : (stop : Int) < currIdx + items.length - 1
    · congr 2
      omega
    · rw [if_neg hend, take_of_length_le (by omega), take_of_length_le (by omega)]
  · rw [if_neg hin, drop_eq_nil_of_le]
    rw [length_take]
    omega

variable {before : Option Nat}

lemma rangeFrom_eq (hchain : Chain ql.heap before cells none) (hitems : ∀ c ∈ cells, c.2 ≠ [])
    (start : Nat) {stop currIdx fuel : Nat} (hfuel : cells.length ≤ fuel) (hcurr : currIdx ≤ stop) (result : List Bytes) :
    ql.rangeFrom start stop fuel (firstOf cells none) currIdx result =
      result ++ ((contents cells).take (stop + 1 - currIdx)).drop (start - currIdx) := by
  induction cells generalizing before currIdx fuel result with
  | nil => cases fuel <;> simp [rangeFrom]
  | cons c cells ih =>
  obtain ⟨hc, hrest⟩ := hchain
  obtain ⟨hitem, hitems⟩ := forall_mem_cons.1 hitems
  rw [length_cons] at hfuel
  obtain ⟨fuel, rfl⟩ : ∃ f, fuel = f + 1 := ⟨fuel - 1, by omega⟩
  simp only [firstOf_cons, rangeFrom, hc, nodePart_eq hitem hcurr, contents_cons]
  split_ifs with hstop
  · -- The range ends in this node.
    rw [take_append_of_le_length (by omega)]
  have hnext : (currIdx : Int) + c.2.length = ((currIdx + c.2.length : Nat) : Int) := by omega
  rw [hnext, ih hrest hitems (by omega) (by omega), append_assoc, take_append,
    take_of_length_le (by omega : c.2.length ≤ stop + 1 - currIdx), drop_append, Nat.sub_add_eq,
    Nat.sub_add_eq]

lemma locate_eq (hchain : Chain ql.heap before cells none) {idx currIdx fuel : Nat}
    (hfuel : cells.length ≤ fuel) (hlow : currIdx ≤ idx) (hhigh : idx - currIdx < (contents cells).length) :
    ∃ A c B i, cells = A ++ c :: B ∧ ql.locate idx fuel (firstOf cells none) currIdx = some (c.1, i) ∧
      i < c.2.length ∧ idx - currIdx = (contents A).length + i := by
  induction cells generalizing before currIdx fuel with
  | nil => cases hhigh
  | cons c cells ih =>
  obtain ⟨hc, hrest⟩ := hchain
  rw [length_cons] at hfuel
  rw [contents_cons, length_append] at hhigh
  obtain ⟨fuel, rfl⟩ : ∃ f, fuel = f + 1 := ⟨fuel - 1, by omega⟩
  simp only [firstOf_cons, locate, hc]
  split_ifs with hin
  · exact ⟨[], c, cells, idx - currIdx, rfl, by congr 2; omega, by omega, by simp⟩
  have hnext : (currIdx : Int) + c.2.length = ((currIdx + c.2.length : Nat) : Int) := by omega
  obtain ⟨A, d, B, i, rfl, hlocate, hi, hidx⟩ :=
    ih hrest (Nat.le_of_succ_le_succ hfuel) (by omega : currIdx + c.2.length ≤ idx) (by omega)
  refine ⟨c :: A, d, B, i, rfl, by rw [hnext]; exact hlocate, hi, ?_⟩
  rw [contents_cons, length_append]
  omega

end Nodes

/-! ## The functions that take indices -/

section
variable (h : ql.Nodes cells)
include h

lemma normalizeIndex_eq (idx : Int) : ql.normalizeIndex idx = absIndex (contents cells).length idx := by
  rw [normalizeIndex, h.count, absIndex]

lemma lrange_eq (start stop : Int) : ql.lrange start stop = listRange (contents cells) start stop := by
  simp only [lrange, normalizeIndex_eq h, h.count, listRange]
  generalize absIndex (contents cells).length start = s
  generalize absIndex (contents cells).length stop = e
  by_cases hempty : (contents cells).length = 0
  · rw [if_pos (by omega), length_eq_zero_iff.1 hempty]
    simp
  rw [if_neg (by omega)]
  by_cases hrange : min e ((contents cells).length - 1) < max 0 s
  · rw [if_pos hrange, if_pos (by split_ifs <;> omega)]
  rw [if_neg hrange, if_neg (by split_ifs <;> omega)]
  have hs : (if s < 0 then 0 else s) = ((max 0 s).toNat : Int) := by split_ifs <;> omega
  have he : (if ((contents cells).length : Int) ≤ e then ((contents cells).length : Int) - 1 else e) =
      ((min e ((contents cells).length - 1)).toNat : Int) := by split_ifs <;> omega
  have hwalk := Nodes.rangeFrom_eq h.chain (fun c hc => (h.sizes c hc).1) (max 0 s).toNat h.length_le_fresh
    (Nat.zero_le (min e ((contents cells).length - 1)).toNat) []
  rw [hs, he, h.head]
  rw [nil_append, Nat.sub_zero, Nat.sub_zero] at hwalk
  refine Eq.trans hwalk ?_
  congr 2
  omega

lemma lindex_eq (idx : Int) : ql.lindex idx = some (listIndex (contents cells) idx) := by
  simp only [lindex, normalizeIndex_eq h, h.count, listIndex]
  generalize absIndex (contents cells).length idx = i
  by_cases hin : i < 0 ∨ (contents cells).length ≤ i
  · have hnone : (if i < 0 then none else (contents cells)[i.toNat]?) = none := by
      split_ifs
      · rfl
      · exact getElem?_eq_none (by omega)
    rw [hnone, if_pos hin]
    split_ifs <;> rfl
  obtain ⟨A, c, B, j, hcells, hlocate, hj, hidx⟩ :=
    Nodes.locate_eq h.chain h.length_le_fresh (Nat.zero_le i.toNat) (by omega)
  have hi : ((i.toNat : Nat) : Int) = i := by omega
  rw [hi] at hlocate
  rw [if_neg (by omega), if_neg hin, if_neg (by omega), h.head]
  simp only [Nat.cast_zero] at hlocate
  simp only [hlocate]
  subst hcells
  obtain ⟨-, hc, -⟩ := Chain.append_iff.1 h.chain
  rw [Nat.sub_zero] at hidx
  rw [hc, hidx, contents_append, contents_cons, getElem?_append_right (by omega), Nat.add_sub_cancel_left,
    getElem?_append_left hj, getElem?_eq_getElem hj]
  rfl

lemma lset_none {idx : Int} {val : Bytes} (hset : listSet (contents cells) idx val = none) :
    ql.lset idx val = some (ql, false) := by
  simp only [lset, normalizeIndex_eq h, h.count]
  unfold listSet at hset
  split_ifs at hset with hout
  split_ifs <;> rfl

lemma lset_some {idx : Int} {val : Bytes} {xs : List Bytes} (hset : listSet (contents cells) idx val = some xs) :
    ∃ ql' cells', ql.lset idx val = some (ql', true) ∧ ql'.Nodes cells' ∧ contents cells' = xs := by
  simp only [lset, normalizeIndex_eq h, h.count]
  unfold listSet at hset
  generalize absIndex (contents cells).length idx = i at hset ⊢
  split_ifs at hset with hout
  cases hset
  obtain ⟨A, c, B, j, hcells, hlocate, hj, hidx⟩ :=
    Nodes.locate_eq h.chain h.length_le_fresh (Nat.zero_le i.toNat) (by omega)
  have hi : ((i.toNat : Nat) : Int) = i := by omega
  rw [hi] at hlocate
  rw [if_neg (by omega), if_neg hout, h.head]
  simp only [Nat.cast_zero] at hlocate
  simp only [hlocate]
  subst hcells
  obtain ⟨-, hc, -⟩ := Chain.append_iff.1 h.chain
  obtain ⟨hne, hlen⟩ := h.sizes c (by simp)
  rw [hc, if_pos hj]
  refine ⟨_, A ++ (c.1, c.2.set j val) :: B, rfl, ?_, ?_⟩
  · have hset := h.set (c.2.set j val) ql.count (by simpa using hne) (by simpa using hlen) (h.count.trans (by simp))
    simpa [modify, hc] using hset
  · rw [Nat.sub_zero] at hidx
    rw [hidx, contents_append, contents_append, contents_cons, contents_cons, set_append_right _ _ (by omega),
      Nat.add_sub_cancel_left, set_append_left _ _ hj]

end

end Quicklist

end Gopherdis.Datastruct

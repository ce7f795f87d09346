/-
A list that is a listpack while it is short, and a quicklist from then on. In both it is the same list: whatever is
pushed, popped, set and replaced, under any `list-max-listpack-size`, the results are those of a plain list.
-/
import Gopherdis.Datastruct.Listpack
import Gopherdis.Datastruct.Quicklist
import Gopherdis.Lib.Calls
import Gopherdis.Object.Encoding

namespace Gopherdis.View

open Lib Datastruct List Option Listpack Quicklist

/-- One of the two pointers of a view is set. -/
inductive ListView
  | lp (l : Listpack)
  | ql (q : Quicklist)

namespace ListView

def len : ListView → Int
  | .ql q => q.len
  | .lp l => l.n

/-- The range of a listpack is cut out of all its strings. -/
def lrange (start stop : Int) : ListView → Option (List Bytes)
  | .ql q => some (q.lrange start stop)
  | .lp l => do
    let all ← l.all
    some (cut all start stop)

def lindex (i : Int) : ListView → Option (Option Bytes)
  | .ql q => q.lindex i
  | .lp l =>
    let n : Int := l.n
    let i := if i < 0 then i + n else i
    if i < 0 ∨ n ≤ i then some none else (l.get i).map some

/-- The quicklist with the strings of the listpack. -/
def promote (l : Listpack) : Option Quicklist := do
  let all ← l.all
  some (all.foldl rpush .new)

/-- A value that is too long leaves the listpack behind, also where there is nothing to set. -/
def lset (i : Int) (val : Bytes) : ListView → Option (ListView × Bool)
  | .ql q => (q.lset i val).map fun r => (.ql r.1, r.2)
  | .lp l =>
    if Object.listMaxListpackValue < val.length then do
      let q ← promote l
      let r ← q.lset i val
      some (.ql r.1, r.2)
    else
      let n : Int := l.n
      let i := if i < 0 then i + n else i
      if i < 0 ∨ n ≤ i then some (.lp l, false) else (l.replaceAt i val).map fun r => (.lp r.1, r.2)

variable (limit : Int)

/-- `listWouldExceed`: the setting counts entries if it is not negative, and bytes if it is. -/
def listWouldExceed (l : Listpack) (addedBytes : Nat) : Bool :=
  if 0 ≤ limit then limit ≤ l.n else Object.listpackBudget limit < l.buf.length + addedBytes

def growWouldPromote (l : Listpack) (val : Bytes) : Bool :=
  Object.listMaxListpackValue < val.length || listWouldExceed limit l val.length

def lpush (val : Bytes) : ListView → Option ListView
  | .ql q => some (.ql (q.lpush val))
  | .lp l =>
    if growWouldPromote limit l val then (promote l).map fun q => .ql (q.lpush val)
    else (l.insertAt 0 val).map fun r => .lp r.1

def rpush (val : Bytes) : ListView → Option ListView
  | .ql q => some (.ql (q.rpush val))
  | .lp l =>
    if growWouldPromote limit l val then (promote l).map fun q => .ql (q.rpush val)
    else some (.lp (l.append val))

def lpop : ListView → Option (ListView × Option Bytes)
  | .ql q => q.lpop.map fun r => (.ql r.1, r.2)
  | .lp l =>
    if l.n = 0 then some (.lp l, none)
    else do
      let v ← l.get 0
      let r ← l.deleteRange 0 1
      some (.lp r.1, some v)

def rpop : ListView → Option (ListView × Option Bytes)
  | .ql q => q.rpop.map fun r => (.ql r.1, r.2)
  | .lp l =>
    if l.n = 0 then some (.lp l, none)
    else do
      let v ← l.get ((l.n : Int) - 1)
      let r ← l.deleteRange ((l.n : Int) - 1) 1
      some (.lp r.1, some v)

variable (items : List Bytes)

/-- `replaceAll`: a quicklist stays one. -/
def replaceAll (v : ListView) : ListView :=
  let oversized := items.any fun it => Object.listMaxListpackValue < it.length
  let isQuicklist := match v with
    | .ql _ => true
    | .lp _ => false
  if isQuicklist || oversized || Object.listTooBig limit items then .ql (items.foldl Quicklist.rpush .new)
  else .lp (items.foldl append .new)

/-! ## The list a view holds -/

/-- The strings of the view; a quicklist has its nodes in order. -/
def Holds (xs : List Bytes) : ListView → Prop
  | .lp l => l.Packs xs
  | .ql q => ∃ cells, q.Nodes cells ∧ contents cells = xs

lemma foldl_rpush {q : Quicklist} {cells : List (Nat × List Bytes)} (h : q.Nodes cells) (items : List Bytes) :
    ∃ cells', (items.foldl Quicklist.rpush q).Nodes cells' ∧
      Quicklist.contents cells' = Quicklist.contents cells ++ items := by
  induction items generalizing q cells with
  | nil => exact ⟨cells, h, (append_nil _).symm⟩
  | cons item items ih =>
    obtain ⟨cells₁, h1, hcontents1⟩ := h.rpush item
    obtain ⟨cells₂, h2, hcontents2⟩ := ih h1
    exact ⟨cells₂, h2, by rw [hcontents2, hcontents1, append_assoc, singleton_append]⟩

lemma promote_spec {l : Listpack} {xs : List Bytes} (h : l.Packs xs) :
    ∃ q cells, promote l = some q ∧ q.Nodes cells ∧ Quicklist.contents cells = xs := by
  obtain ⟨cells, hnodes, hcontents⟩ := foldl_rpush Quicklist.nodes_new xs
  rw [promote, all_eq h]
  exact ⟨_, cells, rfl, hnodes, hcontents⟩

section
variable {xs : List Bytes} {v : ListView} (h : v.Holds xs)
include h

lemma len_spec : v.len = xs.length := by
  rcases v with l | q
  · exact congrArg Nat.cast (Listpack.Packs.n h)
  · obtain ⟨cells, hnodes, rfl⟩ := h
    exact hnodes.count

lemma lrange_spec (start stop : Int) : v.lrange start stop = some (listRange xs start stop) := by
  rcases v with l | q
  · simp [lrange, all_eq h, bind_eq_bind, bind_some, cut_eq]
  · obtain ⟨cells, hnodes, rfl⟩ := h
    exact congrArg some (lrange_eq hnodes start stop)

lemma lindex_spec (i : Int) : v.lindex i = some (listIndex xs i) := by
  rcases v with l | q
  · have hp : l.Packs xs := h
    have hi : (if i < 0 then i + (xs.length : Int) else i) = absIndex xs.length i := by
      rw [absIndex]; split_ifs <;> omega
    simp only [lindex, hp.n, hi, listIndex]
    generalize absIndex xs.length i = j
    by_cases hout : j < 0 ∨ (xs.length : Int) ≤ j
    · split_ifs
      · rfl
      · rw [getElem?_eq_none (by omega)]
    have hj : j = (j.toNat : Int) := by omega
    have hlt : j.toNat < xs.length := by omega
    rw [if_neg hout, if_neg (by omega), getElem?_eq_getElem hlt]
    conv_lhs => rw [hj]
    rw [get_eq hp hlt]
    rfl
  · obtain ⟨cells, hnodes, rfl⟩ := h
    exact lindex_eq hnodes i

lemma lpush_spec (limit : Int) (val : Bytes) : ∃ v', v.lpush limit val = some v' ∧ v'.Holds (val :: xs) := by
  rcases v with l | q
  · rw [lpush]
    split_ifs
    · obtain ⟨q, cells, hq, hnodes, rfl⟩ := promote_spec h
      rw [hq]
      exact ⟨_, rfl, hnodes.lpush val⟩
    · obtain ⟨l', hinsert, hp⟩ := insertAt_eq h (Nat.zero_le xs.length) val
      exact ⟨.lp l', by simpa using congrArg (Option.map fun r => ListView.lp r.1) hinsert, by simpa [Holds] using hp⟩
  · obtain ⟨cells, hnodes, rfl⟩ := h
    exact ⟨_, rfl, hnodes.lpush val⟩

lemma rpush_spec (limit : Int) (val : Bytes) : ∃ v', v.rpush limit val = some v' ∧ v'.Holds (xs ++ [val]) := by
  rcases v with l | q
  · rw [rpush]
    split_ifs
    · obtain ⟨q, cells, hq, hnodes, rfl⟩ := promote_spec h
      rw [hq]
      exact ⟨_, rfl, hnodes.rpush val⟩
    · exact ⟨_, rfl, Listpack.Packs.append h val⟩
  · obtain ⟨cells, hnodes, rfl⟩ := h
    exact ⟨_, rfl, hnodes.rpush val⟩

lemma lpop_spec : ∃ v', v.lpop = some (v', xs.head?) ∧ v'.Holds xs.tail := by
  rcases v with l | q
  · have hp : l.Packs xs := h
    rw [lpop, hp.n]
    rcases xs with _ | ⟨x, xs⟩
    · exact ⟨.lp l, rfl, h⟩
    obtain ⟨l', hdelete, hp'⟩ := deleteRange_eq (i := 0) hp Nat.one_pos (by simp)
    have hget := get_eq (i := 0) hp (by simp)
    simp only [Nat.cast_zero, Nat.cast_one] at hdelete hget
    rw [if_neg (by simp), hget]
    simp only [bind_eq_bind, bind_some, hdelete]
    exact ⟨.lp l', rfl, by simpa [Holds] using hp'⟩
  · obtain ⟨cells, hnodes, rfl⟩ := h
    rw [lpop]
    rcases hcontents : contents cells with _ | ⟨x, xs⟩
    · rw [Quicklist.lpop, if_pos (hnodes.count_eq_zero.2 hcontents)]
      exact ⟨_, rfl, cells, hnodes, hcontents⟩
    obtain ⟨q', cells', hpop, hnodes', hcontents'⟩ := hnodes.lpop hcontents
    rw [hpop]
    exact ⟨_, rfl, cells', hnodes', hcontents'⟩

lemma rpop_spec : ∃ v', v.rpop = some (v', xs.getLast?) ∧ v'.Holds xs.dropLast := by
  rcases v with l | q
  · have hp : l.Packs xs := h
    rw [rpop, hp.n]
    rcases xs.eq_nil_or_concat with rfl | ⟨xs, x, rfl⟩
    · exact ⟨.lp l, rfl, h⟩
    rw [concat_eq_append] at hp ⊢
    have hlast : ((xs ++ [x]).length : Int) - 1 = (xs.length : Int) := by simp
    obtain ⟨l', hdelete, hp'⟩ := deleteRange_eq (i := xs.length) hp Nat.one_pos (by simp)
    have hget := get_eq (i := xs.length) hp (by simp)
    simp only [Nat.cast_one] at hdelete
    rw [if_neg (by simp), hlast, hget]
    simp only [bind_eq_bind, bind_some, hdelete]
    exact ⟨.lp l', by simp, by simpa [Holds] using hp'⟩
  · obtain ⟨cells, hnodes, rfl⟩ := h
    rw [rpop]
    rcases (contents cells).eq_nil_or_concat with hcontents | ⟨xs, x, hcontents⟩
    · rw [Quicklist.rpop, if_pos (hnodes.count_eq_zero.2 hcontents), hcontents]
      exact ⟨_, rfl, cells, hnodes, hcontents⟩
    rw [concat_eq_append] at hcontents
    obtain ⟨q', cells', hpop, hnodes', hcontents'⟩ := hnodes.rpop hcontents
    rw [hpop, hcontents]
    exact ⟨.ql q', by simp, cells', hnodes', by simpa using hcontents'⟩

lemma lset_spec (i : Int) (val : Bytes) :
    ∃ v', v.lset i val = some (v', (listSet xs i val).isSome) ∧ v'.Holds ((listSet xs i val).getD xs) := by
  have hquick : ∀ {q : Quicklist} {cells : List (Nat × List Bytes)}, q.Nodes cells →
      ∃ q', q.lset i val = some (q', (listSet (contents cells) i val).isSome) ∧
        (ListView.ql q').Holds ((listSet (contents cells) i val).getD (contents cells)) := by
    intro q cells hnodes
    cases hset : listSet (contents cells) i val with
    | none => exact ⟨q, lset_none hnodes hset, cells, hnodes, rfl⟩
    | some ys =>
      obtain ⟨q', cells', hlset, hnodes', hcontents⟩ := lset_some hnodes hset
      exact ⟨q', hlset, cells', hnodes', hcontents⟩
  rcases v with l | q
  · have hp : l.Packs xs := h
    rw [lset]
    by_cases hlong : Object.listMaxListpackValue < val.length
    · rw [if_pos hlong]
      obtain ⟨q, cells, hq, hnodes, rfl⟩ := promote_spec h
      obtain ⟨q', hlset, hholds⟩ := hquick hnodes
      simp only [hq, bind_eq_bind, bind_some, hlset]
      exact ⟨_, rfl, hholds⟩
    have hi : (if i < 0 then i + (xs.length : Int) else i) = absIndex xs.length i := by
      rw [absIndex]; split_ifs <;> omega
    rw [if_neg hlong]
    simp only [hp.n, hi, listSet]
    generalize absIndex xs.length i = j
    by_cases hout : j < 0 ∨ (xs.length : Int) ≤ j
    · rw [if_pos hout, if_pos hout]
      exact ⟨.lp l, rfl, h⟩
    have hj : j = (j.toNat : Int) := by omega
    obtain ⟨l', hreplace, hp'⟩ := replaceAt_eq hp (by omega : j.toNat < xs.length) val
    rw [if_neg hout, if_neg hout]
    rw [← hj] at hreplace
    exact ⟨.lp l', by rw [hreplace]; rfl, hp'⟩
  · obtain ⟨cells, hnodes, rfl⟩ := h
    obtain ⟨q', hlset, hholds⟩ := hquick hnodes
    rw [lset, hlset]
    exact ⟨_, rfl, hholds⟩

end

lemma replaceAll_spec (v : ListView) : (v.replaceAll limit items).Holds items := by
  simp only [replaceAll]
  split_ifs
  · exact foldl_rpush Quicklist.nodes_new items
  · have hp := packs_new.foldl_append items
    rwa [nil_append] at hp

end ListView

/-! ## Runs -/

inductive ListOp
  | lpush (val : Bytes)
  | rpush (val : Bytes)
  | lpop
  | rpop
  | lset (i : Int) (val : Bytes)
  | replaceAll (items : List Bytes)
  | lrange (start stop : Int)
  | lindex (i : Int)
  | len

inductive ListReply
  | unit
  | num (n : Int)
  | flag (b : Bool)
  | one (val : Option Bytes)
  | list (items : List Bytes)
deriving DecidableEq

/-- An operation, with `list-max-listpack-size` at the time. -/
structure ListCall where
  op : ListOp
  limit : Int

def ListView.call (v : ListView) (c : ListCall) : Option (ListView × ListReply) :=
  match c.op with
  | .lpush val => (v.lpush c.limit val).map fun v => (v, .unit)
  | .rpush val => (v.rpush c.limit val).map fun v => (v, .unit)
  | .lpop => v.lpop.map fun r => (r.1, .one r.2)
  | .rpop => v.rpop.map fun r => (r.1, .one r.2)
  | .lset i val => (v.lset i val).map fun r => (r.1, .flag r.2)
  | .replaceAll items => some (v.replaceAll c.limit items, .unit)
  | .lrange start stop => (v.lrange start stop).map fun items => (v, .list items)
  | .lindex i => (v.lindex i).map fun val => (v, .one val)
  | .len => some (v, .num v.len)

/-- The operation on a plain list, with its result. -/
def ListOp.on (xs : List Bytes) : ListOp → List Bytes × ListReply
  | .lpush val => (val :: xs, .unit)
  | .rpush val => (xs ++ [val], .unit)
  | .lpop => (xs.tail, .one xs.head?)
  | .rpop => (xs.dropLast, .one xs.getLast?)
  | .lset i val => ((listSet xs i val).getD xs, .flag (listSet xs i val).isSome)
  | .replaceAll items => (items, .unit)
  | .lrange start stop => (xs, .list (listRange xs start stop))
  | .lindex i => (xs, .one (listIndex xs i))
  | .len => (xs, .num xs.length)

lemma ListView.call_spec {v : ListView} {xs : List Bytes} (h : v.Holds xs) (c : ListCall) :
    ∃ v', v.call c = some (v', (c.op.on xs).2) ∧ v'.Holds (c.op.on xs).1 := by
  unfold ListView.call
  cases c.op with
  | lpush val =>
    obtain ⟨v', hpush, hv'⟩ := lpush_spec h c.limit val
    simp only [hpush]
    exact ⟨v', rfl, hv'⟩
  | rpush val =>
    obtain ⟨v', hpush, hv'⟩ := rpush_spec h c.limit val
    simp only [hpush]
    exact ⟨v', rfl, hv'⟩
  | lpop =>
    obtain ⟨v', hpop, hv'⟩ := lpop_spec h
    simp only [hpop]
    exact ⟨v', rfl, hv'⟩
  | rpop =>
    obtain ⟨v', hpop, hv'⟩ := rpop_spec h
    simp only [hpop]
    exact ⟨v', rfl, hv'⟩
  | lset i val =>
    obtain ⟨v', hset, hv'⟩ := lset_spec h i val
    simp only [hset]
    exact ⟨v', rfl, hv'⟩
  | replaceAll items => exact ⟨_, rfl, replaceAll_spec c.limit items v⟩
  | lrange start stop =>
    simp only [lrange_spec h]
    exact ⟨v, rfl, h⟩
  | lindex i =>
    simp only [lindex_spec h]
    exact ⟨v, rfl, h⟩
  | len => exact ⟨v, by rw [len_spec h]; rfl, h⟩

/-- Whatever is called on a view that begins as an empty listpack, under any settings, the results are those of a
plain list; the view holds that list, and a quicklist has its nodes linked in both directions, none of them empty
or longer than 128, and counts right. -/
theorem list_view_refines (cs : List ListCall) :
    ∃ v, calls ListView.call (.lp .new) cs = some (v, (answers ListOp.on [] (cs.map ListCall.op)).2) ∧
      v.Holds (answers ListOp.on [] (cs.map ListCall.op)).1 ∧
      ∀ q, v = .ql q → ∃ cells, Chain q.heap none cells none ∧ q.head = firstOf cells none ∧
        q.tail = lastCell none cells ∧ (∀ c ∈ cells, c.2 ≠ [] ∧ c.2.length ≤ 128) ∧
        q.count = ((cells.map fun c => c.2.length).sum : Nat) := by
  have hempty : (ListView.lp .new).Holds [] := packs_new
  obtain ⟨v, hcalls, hholds⟩ := calls_answers (H := ListView.Holds) (fun c h => ListView.call_spec h c) hempty cs
  refine ⟨v, hcalls, hholds, ?_⟩
  rintro q rfl
  obtain ⟨cells, hnodes, -⟩ := hholds
  refine ⟨cells, hnodes.chain, hnodes.head, hnodes.tail, hnodes.sizes, ?_⟩
  rw [hnodes.count, contents, length_flatMap]

end Gopherdis.View

/-
The keyspace with its objects: the map of a shard holds pointers, and a pointer copied out of it sees
every later change that is made to the object in place. Storing a value makes a new object; renaming
takes the object along.
-/
import Gopherdis.Store.Operations

namespace Gopherdis.Store

open Lib Object Function Finmap

/-- A pointer in a shard, with the deadline beside it. -/
structure Binding where
  ref : Nat
  expireAt : Int
deriving DecidableEq, Repr

abbrev Bindings := Finmap fun _ : Bytes => Binding

section
variable {es : Bindings} {key k : Bytes} {b c : Binding}

lemma lookup_insert_cases (h : (es.insert key c).lookup k = some b) :
    (k = key ∧ b = c) ∨ (k ≠ key ∧ es.lookup k = some b) := by
  by_cases hk : k = key
  · subst hk
    rw [lookup_insert] at h
    exact .inl ⟨rfl, (Option.some.inj h).symm⟩
  · rw [lookup_insert_of_ne _ hk] at h
    exact .inr ⟨hk, h⟩

lemma lookup_erase_some (h : (es.erase key).lookup k = some b) : k ≠ key ∧ es.lookup k = some b := by
  by_cases hk : k = key
  · subst hk
    rw [lookup_erase] at h
    cases h
  · rw [lookup_erase_ne hk] at h
    exact ⟨hk, h⟩

end

/-- Pointers lead to objects made before, and no two keys have the same one. -/
structure Memory where
  heap : Nat → Value
  entries : Bindings
  next : Nat
  made : ∀ {k b}, entries.lookup k = some b → b.ref < next
  unshared : ∀ {k k' b b'}, entries.lookup k = some b → entries.lookup k' = some b' → b.ref = b'.ref → k = k'

namespace Memory

def empty : Memory := ⟨fun _ => .str [], ∅, 0, nofun, nofun⟩

variable (m : Memory)

def entry (b : Binding) : Entry := ⟨m.heap b.ref, b.expireAt⟩

def content (k : Bytes) : Option Entry := (m.entries.lookup k).map m.entry

variable (key : Bytes)

def store (val : Value) (expireAt : Int) : Memory where
  heap := update m.heap m.next val
  entries := m.entries.insert key ⟨m.next, expireAt⟩
  next := m.next + 1
  made h := by
    obtain ⟨-, rfl⟩ | ⟨-, h⟩ := lookup_insert_cases h
    · exact Nat.lt_succ_self _
    · exact (m.made h).trans (Nat.lt_succ_self _)
  unshared h h' he := by
    -- the new object is none of those made before
    obtain ⟨hk, hb⟩ | ⟨-, hk⟩ := lookup_insert_cases h <;> obtain ⟨hk', hb'⟩ | ⟨-, hk'⟩ := lookup_insert_cases h'
    · exact hk.trans hk'.symm
    · exact absurd (he.symm.trans (congrArg Binding.ref hb)) (m.made hk').ne
    · exact absurd (he.trans (congrArg Binding.ref hb')) (m.made hk).ne
    · exact m.unshared hk hk' he

def remove : Memory where
  heap := m.heap
  entries := m.entries.erase key
  next := m.next
  made h := m.made (lookup_erase_some h).2
  unshared h h' he := m.unshared (lookup_erase_some h).2 (lookup_erase_some h').2 he

/-- A pointer no key has any more, put under a key. -/
def bind (b : Binding) (hb : b.ref < m.next)
    (hfree : ∀ k c, m.entries.lookup k = some c → c.ref = b.ref → k = key) : Memory where
  heap := m.heap
  entries := m.entries.insert key b
  next := m.next
  made h := by
    obtain ⟨-, rfl⟩ | ⟨-, h⟩ := lookup_insert_cases h
    · exact hb
    · exact m.made h
  unshared h h' he := by
    obtain ⟨hk, hc⟩ | ⟨-, hk⟩ := lookup_insert_cases h <;> obtain ⟨hk', hc'⟩ | ⟨-, hk'⟩ := lookup_insert_cases h'
    · exact hk.trans hk'.symm
    · exact hk.trans (hfree _ _ hk' (he.symm.trans (congrArg Binding.ref hc))).symm
    · exact (hfree _ _ hk (he.trans (congrArg Binding.ref hc'))).trans hk'.symm
    · exact m.unshared hk hk' he

/-- `SetExpireAt` and `Persist`: the object stays. -/
def setExpire (expireAt : Int) : Memory :=
  match h : m.entries.lookup key with
  | none => m
  | some b =>
    have hb : b.ref < m.next := m.made h
    m.bind key ⟨b.ref, expireAt⟩ hb fun _ _ hc he => m.unshared hc h he

/-- `RENAME`: the object, and its deadline, goes from one key to the other. -/
def move (src dst : Bytes) : Memory :=
  match h : m.entries.lookup src with
  | none => m
  | some b =>
    have hb : b.ref < (m.remove src).next := m.made h
    (m.remove src).bind dst b hb fun _ _ hc he =>
      absurd (m.unshared (lookup_erase_some hc).2 h he) (lookup_erase_some hc).1

def mutate (val : Value) : Memory :=
  match m.entries.lookup key with
  | none => m
  | some b => { m with heap := update m.heap b.ref val }

end Memory

open Memory

/-- What a command does to the objects and the pointers. -/
inductive HeapOp
  | store (key : Bytes) (val : Value) (expireAt : Int)
  | move (src dst : Bytes)
  | setExpire (key : Bytes) (expireAt : Int)
  | remove (key : Bytes)
  | mutate (key : Bytes) (val : Value)

def Memory.apply (m : Memory) : HeapOp → Memory
  | .store key val expireAt => m.store key val expireAt
  | .move src dst => m.move src dst
  | .setExpire key expireAt => m.setExpire key expireAt
  | .remove key => m.remove key
  | .mutate key val => m.mutate key val

def Memory.applyAll (m : Memory) (ops : List HeapOp) : Memory := ops.foldl Memory.apply m

/-! ## Objects that stay as they are -/

section
variable {m : Memory} {r : Nat}

/-- The operation changes the object in place. -/
def HeapOp.mutates (m : Memory) (r : Nat) : HeapOp → Prop
  | .mutate key _ => ∃ b, m.entries.lookup key = some b ∧ b.ref = r
  | _ => False

/-- None of the operations changes the object in place, each in the state it comes to be performed in. -/
def Spares (r : Nat) : Memory → List HeapOp → Prop
  | _, [] => True
  | m, o :: ops => ¬ o.mutates m r ∧ Spares r (m.apply o) ops

lemma next_le_apply (o : HeapOp) : m.next ≤ (m.apply o).next := by
  cases o with
  | store => exact Nat.le_succ _
  | move src dst =>
    simp only [apply, move]
    split <;> exact le_rfl
  | setExpire key expireAt =>
    simp only [apply, setExpire]
    split <;> exact le_rfl
  | remove => exact le_rfl
  | mutate key val =>
    simp only [apply, mutate]
    split <;> exact le_rfl

lemma heap_apply {o : HeapOp} (hr : r < m.next) (ho : ¬ o.mutates m r) : (m.apply o).heap r = m.heap r := by
  cases o with
  | store => exact update_of_ne hr.ne ..
  | move src dst =>
    simp only [apply, move]
    split <;> rfl
  | setExpire key expireAt =>
    simp only [apply, setExpire]
    split <;> rfl
  | remove => rfl
  | mutate key val =>
    simp only [apply, mutate]
    split
    · rfl
    · rename_i b hb
      exact update_of_ne (fun he => ho ⟨b, hb, he.symm⟩) ..

lemma next_le_applyAll : ∀ (ops : List HeapOp) (m : Memory), m.next ≤ (m.applyAll ops).next
  | [], _ => le_rfl
  | o :: ops, m => (next_le_apply o).trans (next_le_applyAll ops (m.apply o))

lemma heap_applyAll : ∀ (ops : List HeapOp) {m : Memory}, r < m.next → Spares r m ops →
    (m.applyAll ops).heap r = m.heap r
  | [], _, _, _ => rfl
  | o :: ops, _, hr, ⟨ho, hops⟩ => (heap_applyAll ops (hr.trans_le (next_le_apply o)) hops).trans (heap_apply hr ho)

end

/-! ## What the keys hold -/

section
variable (m : Memory) (key : Bytes) (val : Value)

lemma content_store (expireAt : Int) (k : Bytes) :
    (m.store key val expireAt).content k = if k = key then some ⟨val, expireAt⟩ else m.content k := by
  by_cases hk : k = key
  · subst hk
    simp [content, store, entry]
  rw [if_neg hk, content, content]
  simp only [store, lookup_insert_of_ne _ hk]
  cases hl : m.entries.lookup k with
  | none => rfl
  | some b => simp [entry, (m.made hl).ne]

end

end Gopherdis.Store

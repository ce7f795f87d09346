/-
Listpacks: byte strings in one buffer, each behind its length, and how many there are. The functions walk over the
buffer; `none` stands for a slice or an index out of range. On a buffer that appending has made, or one of the other
functions, all of them do to the strings what they say.
-/
import Gopherdis.Lib.Varint

namespace Gopherdis.Datastruct

open Lib List Option

variable {i : Nat}

structure Listpack where
  buf : Bytes
  n : Nat

def slice (buf : Bytes) (lo hi : Nat) : Option Bytes :=
  if lo ≤ hi ∧ hi ≤ buf.length then some ((buf.drop lo).take (hi - lo)) else none

namespace Listpack

variable (lp : Listpack)

def new : Listpack := ⟨[], 0⟩

variable (val : Bytes)

def append : Listpack := ⟨lp.buf ++ putVarint val.length ++ val, lp.n + 1⟩

/-- Start and length of every string from byte `i` on. -/
def offsetsFrom (buf : Bytes) : Nat → Nat → List (Nat × Nat)
  | 0, _ => []
  | fuel + 1, i =>
    if i < buf.length then
      match readVarint (buf.drop i) with
      | none => []
      | some (l, k) => (i + k, l) :: offsetsFrom buf fuel (i + k + l)
    else []

def offsets : List (Nat × Nat) := offsetsFrom lp.buf lp.buf.length 0

/-- Nothing, where there is no such string. -/
def get (i : Int) : Option Bytes :=
  if i < 0 ∨ lp.n ≤ i then some []
  else
    match lp.offsets[i.toNat]? with
    | none => some []
    | some (start, len) => slice lp.buf start (start + len)

section
variable {σ : Type}

/-- `fn` goes over the strings from byte `i` on, until it says to stop. -/
def forEachFrom (buf : Bytes) (fn : σ → Nat → Bytes → σ × Bool) : Nat → Nat → Nat → σ → Option σ
  | 0, _, _, s => some s
  | fuel + 1, idx, i, s =>
    if i < buf.length then
      match readVarint (buf.drop i) with
      | none => some s
      | some (l, k) => do
        let val ← slice buf (i + k) (i + k + l)
        if (fn s idx val).2 then forEachFrom buf fn fuel (idx + 1) (i + k + l) (fn s idx val).1
        else some (fn s idx val).1
    else some s

def forEach (fn : σ → Nat → Bytes → σ × Bool) (s : σ) : Option σ := forEachFrom lp.buf fn lp.buf.length 0 0 s

end

variable (start : Int) (stride : Nat)

/-- Whether this string is the one, if it is one to look at. -/
def findStep (found : Option Nat) (i : Nat) (cur : Bytes) :
    Option Nat × Bool :=
  if i < start ∨ (i - start) % stride ≠ 0 then (found, true)
  else if cur = val then (some i, false)
  else (found, true)

/-- The first string equal to `val` among those at `start`, `start + stride` and so on. -/
def find : Option (Option Nat) :=
  lp.forEach (findStep val start stride) none

def replaceAt (i : Int) (val : Bytes) : Option (Listpack × Bool) :=
  if i < 0 ∨ lp.n ≤ i then some (lp, false)
  else
    match lp.offsets[i.toNat]? with
    | none => some (lp, false)
    | some (start, len) => do
      let head ← slice lp.buf 0 (start - varintLen len)
      let tail ← slice lp.buf (start + len) lp.buf.length
      some (⟨head ++ putVarint val.length ++ val ++ tail, lp.n⟩, true)

def deleteRange (i count : Int) : Option (Listpack × Bool) :=
  if i < 0 ∨ count ≤ 0 ∨ lp.n < i + count then some (lp, false)
  else
    let starts := lp.offsets
    if starts.length < i + count then some (lp, false)
    else do
      let (start, len) ← starts[i.toNat]?
      let (lastStart, lastLen) ← starts[(i + count - 1).toNat]?
      let head ← slice lp.buf 0 (start - varintLen len)
      let tail ← slice lp.buf (lastStart + lastLen) lp.buf.length
      some (⟨head ++ tail, lp.n - count.toNat⟩, true)

def insertAt (i : Int) (val : Bytes) : Option (Listpack × Bool) :=
  if i < 0 ∨ lp.n < i then some (lp, false)
  else if i = lp.n then some (lp.append val, true)
  else do
    let (start, len) ← lp.offsets[i.toNat]?
    let head ← slice lp.buf 0 (start - varintLen len)
    let tail ← slice lp.buf (start - varintLen len) lp.buf.length
    some (⟨head ++ putVarint val.length ++ val ++ tail, lp.n + 1⟩, true)

def all : Option (List Bytes) := lp.forEach (fun out _ val => (out ++ [val], true)) []

/-! ## A listpack of given strings -/

/-- The listpack holds these strings. -/
structure Packs (lp : Listpack) (xs : List Bytes) : Prop where
  buf : lp.buf = packed xs
  n : lp.n = xs.length

variable {lp} {xs : List Bytes}

lemma packs_new : new.Packs [] := ⟨rfl, rfl⟩

namespace Packs

lemma append (h : lp.Packs xs) (val : Bytes) : (lp.append val).Packs (xs ++ [val]) where
  buf := by simp [Listpack.append, h.buf, packOne]
  n := by simp [Listpack.append, h.n]

lemma foldl_append (h : lp.Packs xs) (vals : List Bytes) : (vals.foldl Listpack.append lp).Packs (xs ++ vals) := by
  induction vals generalizing lp xs with
  | nil => simpa using h
  | cons val vals ih => simpa using ih (h.append val)

end Packs

/-! ## Walks -/

lemma slice_packed (pre rest x : Bytes) :
    slice (pre ++ (packOne x ++ rest)) (pre.length + varintLen x.length) (pre.length + varintLen x.length + x.length) =
      some x := by
  rw [slice, if_pos ⟨by omega, by simp only [length_append, length_packOne]; omega⟩]
  have hdrop : (pre ++ (packOne x ++ rest)).drop (pre.length + varintLen x.length) = x ++ rest := by
    rw [packOne, ← append_assoc, ← append_assoc, append_assoc]
    exact drop_left' (by simp)
  rw [hdrop, Nat.add_sub_cancel_left, take_left']
  rfl

/-- There is fuel for one more string, and the next one begins where it ends. -/
theorem packed_step (pre : Bytes) {x : Bytes} {fuel : Nat} (hfuel : (packed (x :: xs)).length ≤ fuel) :
    ∃ f, fuel = f + 1 ∧ (packed xs).length ≤ f ∧ pre.length < (pre ++ packed (x :: xs)).length ∧
      pre.length + varintLen x.length + x.length = (pre ++ packOne x).length := by
  have hpos := packOne_pos x
  have hlength := length_packOne x
  simp only [packed_cons, length_append] at hfuel ⊢
  exact ⟨fuel - 1, by omega, by omega, by omega, by omega⟩

lemma offsetsFrom_packed (pre : Bytes) (xs : List Bytes) {fuel : Nat} (hfuel : (packed xs).length ≤ fuel) (i : Nat) :
    (offsetsFrom (pre ++ packed xs) fuel pre.length)[i]? =
      xs[i]?.map fun x => (pre.length + startOf xs i, x.length) := by
  induction xs generalizing pre fuel i with
  | nil => cases fuel <;> simp [offsetsFrom]
  | cons x xs ih =>
  obtain ⟨fuel, rfl, hfuel, hlt, hpre⟩ := packed_step pre hfuel
  rw [offsetsFrom, if_pos hlt, packed_cons, drop_left' rfl, readVarint_packed]
  cases i with
  | zero => simp [startOf]
  | succ i =>
  simp only [getElem?_cons_succ]
  rw [hpre, ← append_assoc, ih (pre ++ packOne x) hfuel i]
  congr 1
  funext y
  simp [startOf, length_packOne, Nat.add_assoc]

lemma offsets_get (h : lp.Packs xs) (i : Nat) : lp.offsets[i]? = xs[i]?.map fun x => (startOf xs i, x.length) := by
  have hoffsets := offsetsFrom_packed [] xs (Nat.le_refl _) i
  simpa [offsets, h.buf] using hoffsets

lemma length_offsets (h : lp.Packs xs) : lp.offsets.length = xs.length := by
  refine le_antisymm ?_ ?_
  · have hnone : lp.offsets[xs.length]? = none := by simp [offsets_get h]
    exact getElem?_eq_none_iff.1 hnone
  · by_contra hlt
    have hnone : lp.offsets[lp.offsets.length]? = none := by simp
    rw [offsets_get h, map_eq_none_iff, getElem?_eq_none_iff] at hnone
    omega

section
variable {σ : Type} (fn : σ → Nat → Bytes → σ × Bool)

/-- The walk over the strings themselves. -/
def visit : List Bytes → Nat → σ → σ
  | [], _, s => s
  | x :: xs, idx, s => if (fn s idx x).2 then visit xs (idx + 1) (fn s idx x).1 else (fn s idx x).1

lemma forEachFrom_packed (pre : Bytes) (xs : List Bytes) {fuel : Nat} (hfuel : (packed xs).length ≤ fuel) (idx : Nat)
    (s : σ) : forEachFrom (pre ++ packed xs) fn fuel idx pre.length s = some (visit fn xs idx s) := by
  induction xs generalizing pre fuel idx s with
  | nil => cases fuel <;> simp [forEachFrom, visit]
  | cons x xs ih =>
  obtain ⟨fuel, rfl, hfuel, hlt, hpre⟩ := packed_step pre hfuel
  rw [forEachFrom, if_pos hlt, packed_cons, drop_left' rfl, readVarint_packed]
  simp only [slice_packed, bind_eq_bind, bind_some, visit]
  split_ifs with hgo
  · rw [hpre, ← append_assoc]
    exact ih (pre ++ packOne x) hfuel (idx + 1) _
  · rfl

lemma forEach_eq (h : lp.Packs xs) (s : σ) : lp.forEach fn s = some (visit fn xs 0 s) := by
  have hwalk := forEachFrom_packed fn [] xs (Nat.le_refl _) 0 s
  simpa [forEach, h.buf] using hwalk

end

lemma all_eq (h : lp.Packs xs) : lp.all = some xs := by
  have hvisit : ∀ (xs : List Bytes) (idx : Nat) (out : List Bytes),
      visit (fun out _ val => (out ++ [val], true)) xs idx out = out ++ xs := by
    intro xs
    induction xs with
    | nil => simp [visit]
    | cons x xs ih => intro idx out; simp [visit, ih]
  rw [all, forEach_eq _ h, hvisit, nil_append]

/-! ## The functions on the strings -/

lemma slice_take (xs : List Bytes) (i : Nat) :
    slice (packed xs) 0 (packed (xs.take i)).length = some (packed (xs.take i)) := by
  have hsplit : packed xs = packed (xs.take i) ++ packed (xs.drop i) := by rw [← packed_append, take_append_drop]
  rw [slice, if_pos ⟨Nat.zero_le _, by rw [hsplit, length_append]; omega⟩, drop_zero, Nat.sub_zero, hsplit,
    take_left']
  rfl

lemma slice_drop (xs : List Bytes) (i : Nat) :
    slice (packed xs) (packed (xs.take i)).length (packed xs).length = some (packed (xs.drop i)) := by
  have hsplit : packed xs = packed (xs.take i) ++ packed (xs.drop i) := by rw [← packed_append, take_append_drop]
  rw [slice, if_pos ⟨by rw [hsplit, length_append]; omega, Nat.le_refl _⟩]
  conv_lhs => rw [hsplit]
  rw [drop_left' rfl, length_append, Nat.add_sub_cancel_left, take_length]

lemma startOf_sub (hi : i < xs.length) : startOf xs i - varintLen xs[i].length = (packed (xs.take i)).length := by
  rw [startOf_eq hi, Nat.add_sub_cancel]

lemma startOf_add (hi : i < xs.length) : startOf xs i + xs[i].length = (packed (xs.take (i + 1))).length := by
  rw [startOf_eq hi, take_add_one, getElem?_eq_getElem hi, toList_some,
    packed_append, length_append, packed_cons, packed_nil, append_nil, length_packOne]
  omega

section
variable (h : lp.Packs xs)
include h

lemma offsets_of_lt (hi : i < xs.length) : lp.offsets[i]? = some (startOf xs i, xs[i].length) := by
  rw [offsets_get h, getElem?_eq_getElem hi, map_some]

lemma get_eq (hi : i < xs.length) : lp.get i = some xs[i] := by
  have hslice := slice_packed (packed (xs.take i)) (packed (xs.drop (i + 1))) xs[i]
  rw [← packed_split hi] at hslice
  rw [get, if_neg (by rw [h.n]; omega), Int.toNat_natCast, offsets_of_lt h hi, h.buf, startOf_eq hi]
  exact hslice

lemma replaceAt_eq (hi : i < xs.length) (val : Bytes) :
    ∃ lp', lp.replaceAt i val = some (lp', true) ∧ lp'.Packs (xs.set i val) := by
  rw [replaceAt, if_neg (by rw [h.n]; omega), Int.toNat_natCast, offsets_of_lt h hi, h.buf]
  simp only [startOf_sub hi, startOf_add hi, slice_take, slice_drop, bind_eq_bind, bind_some]
  refine ⟨_, rfl, ?_, by rw [h.n, length_set]⟩
  rw [set_eq_take_append_cons_drop, if_pos hi, packed_append, packed_cons, packOne]
  simp [append_assoc]

lemma deleteRange_eq {count : Nat} (hcount : 0 < count) (hi : i + count ≤ xs.length) :
    ∃ lp', lp.deleteRange i count = some (lp', true) ∧ lp'.Packs (xs.take i ++ xs.drop (i + count)) := by
  have hlast : ((i : Int) + count - 1).toNat = i + count - 1 := by omega
  have hfirst : i < xs.length := by omega
  have hend : i + count - 1 < xs.length := by omega
  have hstop := startOf_add hend
  rw [Nat.sub_add_cancel (by omega)] at hstop
  rw [deleteRange, if_neg (by rw [h.n]; omega)]
  simp only [length_offsets h]
  rw [if_neg (by omega), Int.toNat_natCast, hlast, offsets_of_lt h hfirst, offsets_of_lt h hend, h.buf]
  simp only [bind_eq_bind, bind_some, startOf_sub hfirst, hstop, slice_take, slice_drop]
  refine ⟨_, rfl, by rw [packed_append], ?_⟩
  simp only [h.n, Int.toNat_natCast, length_append, length_take, length_drop]
  omega

lemma insertAt_eq (hi : i ≤ xs.length) (val : Bytes) :
    ∃ lp', lp.insertAt i val = some (lp', true) ∧ lp'.Packs (xs.take i ++ val :: xs.drop i) := by
  rw [insertAt, if_neg (by rw [h.n]; omega)]
  split_ifs with hlast
  · obtain rfl : i = xs.length := by rw [h.n] at hlast; omega
    exact ⟨_, rfl, by simpa using h.append val⟩
  have hlt : i < xs.length := by rw [h.n] at hlast; omega
  rw [Int.toNat_natCast, offsets_of_lt h hlt, h.buf]
  simp only [bind_eq_bind, bind_some, startOf_sub hlt, slice_take, slice_drop]
  refine ⟨_, rfl, ?_, ?_⟩
  · rw [packed_append, packed_cons, packOne]
    simp [append_assoc]
  · simp only [h.n, length_append, length_take, length_cons, length_drop]
    omega

end

lemma findStep_none (i : Nat) (cur : Bytes) : findStep val start stride none i cur =
    if start ≤ i ∧ (i - start) % stride = 0 ∧ cur = val then (some i, false) else (none, true) := by
  grind [findStep]

lemma find_one (h : lp.Packs xs) (val : Bytes) :
    lp.find val 0 1 = some (if val ∈ xs then some (xs.idxOf val) else none) := by
  have hvisit : ∀ (xs : List Bytes) (idx : Nat),
      visit (findStep val 0 1) xs idx none = if val ∈ xs then some (idx + xs.idxOf val) else none := by
    intro xs
    induction xs with
    | nil => simp [visit]
    | cons x xs ih =>
    intro idx
    rw [visit, findStep_none]
    by_cases hx : x = val
    · simp [hx]
    · simp [hx, ih, Ne.symm hx, idxOf_cons_ne _ hx, Nat.add_assoc, Nat.add_comm 1]
  rw [find, forEach_eq _ h, hvisit]
  simp

def flat (ps : List (Bytes × Bytes)) : List Bytes := ps.flatMap fun p => [p.1, p.2]

@[simp] lemma flat_cons (p : Bytes × Bytes) (ps : List (Bytes × Bytes)) : flat (p :: ps) = p.1 :: p.2 :: flat ps := rfl

lemma find_two {ps : List (Bytes × Bytes)} (h : lp.Packs (flat ps)) (val : Bytes) :
    lp.find val 0 2 = some (if val ∈ ps.map Prod.fst then some (2 * (ps.map Prod.fst).idxOf val) else none) := by
  have hvisit : ∀ (ps : List (Bytes × Bytes)) (idx : Nat),
      visit (findStep val 0 2) (flat ps) (2 * idx) none =
        if val ∈ ps.map Prod.fst then some (2 * (idx + (ps.map Prod.fst).idxOf val)) else none := by
    intro ps
    induction ps with
    | nil => simp [visit, flat]
    | cons p ps ih =>
    intro idx
    have hnext : 2 * idx + 1 + 1 = 2 * (idx + 1) := by omega
    rw [flat_cons, visit, findStep_none]
    by_cases hx : p.1 = val
    · simp [hx]
    have hmem : val ∈ (p :: ps).map Prod.fst ↔ val ∈ ps.map Prod.fst := by
      rw [map_cons, mem_cons, or_iff_right (Ne.symm hx)]
    have hodd : ¬ (0 ≤ ((2 * idx + 1 : Nat) : Int) ∧ (((2 * idx + 1 : Nat) : Int) - 0) % (2 : Nat) = 0 ∧ p.2 = val) :=
      fun h => by omega
    rw [if_neg (c := _ ∧ _) fun h => hx h.2.2, if_pos rfl, visit, findStep_none, if_neg hodd, if_pos rfl, hnext, ih,
      if_congr hmem rfl rfl, map_cons, idxOf_cons_ne _ hx, Nat.add_assoc, Nat.add_comm 1]
  have hzero := hvisit ps 0
  rw [find, forEach_eq _ h, hzero]
  simp

section
variable {A B : List (Bytes × Bytes)} {p : Bytes × Bytes}

lemma flat_append (A B : List (Bytes × Bytes)) : flat (A ++ B) = flat A ++ flat B := flatMap_append

lemma length_flat (A : List (Bytes × Bytes)) : (flat A).length = 2 * A.length := by
  induction A with
  | nil => rfl
  | cons p A ih =>
    rw [flat_cons, length_cons, length_cons, ih, length_cons]
    omega

lemma get_flat (h : lp.Packs (flat (A ++ p :: B))) : lp.get ((2 * A.length : Nat) + 1) = some p.2 := by
  rw [flat_append, flat_cons] at h
  have hlen := length_flat A
  have hlt : 2 * A.length + 1 < (flat A ++ p.1 :: p.2 :: flat B).length := by
    rw [length_append, hlen, length_cons, length_cons]
    omega
  refine (get_eq h hlt).trans (congrArg some ?_)
  simp [hlen]

lemma deleteRange_flat (h : lp.Packs (flat (A ++ p :: B))) :
    ∃ lp', lp.deleteRange (2 * A.length : Nat) 2 = some (lp', true) ∧ lp'.Packs (flat (A ++ B)) := by
  have hlen := length_flat A
  rw [flat_append, flat_cons] at h
  have hle : 2 * A.length + 2 ≤ (flat A ++ p.1 :: p.2 :: flat B).length := by
    rw [length_append, hlen, length_cons, length_cons]
    omega
  obtain ⟨lp', hdelete, hp⟩ := deleteRange_eq h Nat.two_pos hle
  refine ⟨lp', hdelete, ?_⟩
  rw [flat_append]
  rwa [← hlen, take_left, drop_length_add_append] at hp

lemma insertAt_flat (h : lp.Packs (flat (A ++ B))) (p : Bytes × Bytes) :
    ∃ lp1 lp2, lp.insertAt (2 * A.length : Nat) p.1 = some (lp1, true) ∧
      lp1.insertAt ((2 * A.length : Nat) + 1) p.2 = some (lp2, true) ∧ lp2.Packs (flat (A ++ p :: B)) := by
  have hlen := length_flat A
  rw [flat_append] at h
  obtain ⟨lp1, hfirst, hp1⟩ := insertAt_eq (i := 2 * A.length) h (by rw [length_append]; omega) p.1
  rw [← hlen, take_left, drop_left] at hp1
  obtain ⟨lp2, hsecond, hp2⟩ := insertAt_eq (i := 2 * A.length + 1) hp1
    (by rw [length_append, length_cons]; omega) p.2
  refine ⟨lp1, lp2, hfirst, hsecond, ?_⟩
  rw [flat_append, flat_cons]
  rw [← hlen, take_length_add_append, drop_length_add_append] at hp2
  simpa using hp2

end

/-! ## Histories -/

/-- A call that changes a listpack. -/
inductive Op
  | append (val : Bytes)
  | insertAt (i : Int) (val : Bytes)
  | replaceAt (i : Int) (val : Bytes)
  | deleteRange (i count : Int)

namespace Op

variable (lp) in
def run : Op → Option (Listpack × Bool)
  | append val => some (lp.append val, true)
  | insertAt i val => lp.insertAt i val
  | replaceAt i val => lp.replaceAt i val
  | deleteRange i count => lp.deleteRange i count

variable (xs) in
/-- What it is to do to the strings. -/
def apply : Op → List Bytes × Bool
  | append val => (xs ++ [val], true)
  | insertAt i val => if 0 ≤ i ∧ i ≤ xs.length then (xs.take i.toNat ++ val :: xs.drop i.toNat, true) else (xs, false)
  | replaceAt i val => if 0 ≤ i ∧ i < xs.length then (xs.set i.toNat val, true) else (xs, false)
  | deleteRange i count =>
    if 0 ≤ i ∧ 0 < count ∧ i + count ≤ xs.length then (xs.take i.toNat ++ xs.drop (i + count).toNat, true)
    else (xs, false)

lemma run_eq (h : lp.Packs xs) (op : Op) :
    ∃ lp', op.run lp = some (lp', (op.apply xs).2) ∧ lp'.Packs (op.apply xs).1 ∧ ((op.apply xs).2 = false → lp' = lp) := by
  have hn : (lp.n : Int) = xs.length := by rw [h.n]
  cases op with
  | append val => exact ⟨_, rfl, h.append val, Bool.noConfusion⟩
  | insertAt i val =>
    rw [apply]
    split_ifs with hi
    · lift i to Nat using hi.1
      obtain ⟨lp', hrun, hp⟩ := insertAt_eq h (i := i) (by omega) val
      exact ⟨lp', hrun, hp, by simp⟩
    · exact ⟨lp, if_pos (by omega), h, fun _ => rfl⟩
  | replaceAt i val =>
    rw [apply]
    split_ifs with hi
    · lift i to Nat using hi.1
      obtain ⟨lp', hrun, hp⟩ := replaceAt_eq h (i := i) (by omega) val
      exact ⟨lp', hrun, hp, by simp⟩
    · exact ⟨lp, if_pos (by omega), h, fun _ => rfl⟩
  | deleteRange i count =>
  rw [apply]
  split_ifs with hi
  · lift i to Nat using hi.1
    lift count to Nat using hi.2.1.le
    have hpos : 0 < count := by omega
    obtain ⟨lp', hrun, hp⟩ := deleteRange_eq (i := i) h hpos (by omega)
    exact ⟨lp', hrun, hp, by simp⟩
  · exact ⟨lp, if_pos (by omega), h, fun _ => rfl⟩

end Op

lemma get_all (h : lp.Packs xs) (i : Int) : lp.get i = some (if 0 ≤ i then xs[i.toNat]?.getD [] else []) := by
  have hn : (lp.n : Int) = xs.length := by rw [h.n]
  by_cases hi : 0 ≤ i ∧ i < xs.length
  · lift i to Nat using hi.1
    have hlt : i < xs.length := by omega
    rw [get_eq h hlt, if_pos hi.1, Int.toNat_natCast, getElem?_eq_getElem hlt, getD_some]
  rw [get, if_pos (by omega)]
  split_ifs
  · rw [getElem?_eq_none (by omega), getD_none]
  · rfl

lemma find_eq (h : lp.Packs xs) (val : Bytes) (start : Int) (stride : Nat) : lp.find val start stride =
    some ((xs.zipIdx.find? fun p => start ≤ p.2 ∧ (p.2 - start) % stride = 0 ∧ p.1 = val).map Prod.snd) := by
  rw [find, forEach_eq _ h]
  congr 1
  clear h
  generalize 0 = idx
  induction xs generalizing idx with
  | nil => rfl
  | cons x xs ih =>
    rw [visit, findStep_none, zipIdx_cons, find?_cons]
    by_cases hat : start ≤ idx ∧ (idx - start) % stride = 0 ∧ x = val
    · rw [if_pos hat, decide_eq_true hat]
      rfl
    · rw [if_neg hat, decide_eq_false hat]
      exact ih (idx + 1)

/-- After any calls the buffer holds the strings, one behind the other with their lengths, that the calls on the list
itself leave; the next call does what the one on the list does, and leaves everything as it is if it reports `false`;
and what is read is what the list holds. -/
theorem listpack_history (ops : List Op) : ∃ lp xs, ops.foldlM (fun lp op => (op.run lp).map Prod.fst) new = some lp ∧
    xs = ops.foldl (fun xs op => (op.apply xs).1) [] ∧ lp.buf = packed xs ∧ lp.n = xs.length ∧
    (∀ op : Op, ∃ lp', op.run lp = some (lp', (op.apply xs).2) ∧ ((op.apply xs).2 = false → lp' = lp)) ∧
    (∀ i, lp.get i = some (if 0 ≤ i then xs[i.toNat]?.getD [] else [])) ∧
    (∀ (σ : Type) (fn : σ → Nat → Bytes → σ × Bool) s, lp.forEach fn s = some (visit fn xs 0 s)) ∧ lp.all = some xs ∧
    ∀ val start stride, 1 ≤ stride → lp.find val start stride =
      some ((xs.zipIdx.find? fun p => start ≤ p.2 ∧ (p.2 - start) % stride = 0 ∧ p.1 = val).map Prod.snd) := by
  have hmade : ∃ lp, ops.foldlM (fun lp op => (op.run lp).map Prod.fst) new = some lp ∧
      lp.Packs (ops.foldl (fun xs op => (op.apply xs).1) []) := by
    induction ops using reverseRecOn with
    | nil => exact ⟨new, rfl, packs_new⟩
    | append_singleton ops op ih =>
      obtain ⟨lp, hrun, hp⟩ := ih
      obtain ⟨lp', hop, hp', -⟩ := op.run_eq hp
      exact ⟨lp', by simp [hrun, hop], by simpa using hp'⟩
  obtain ⟨lp, hrun, h⟩ := hmade
  refine ⟨lp, _, hrun, rfl, h.buf, h.n, fun op => ?_, get_all h, fun _ fn s => forEach_eq fn h s, all_eq h,
    fun val start stride _ => find_eq h val start stride⟩
  obtain ⟨lp', hop, -, hsame⟩ := op.run_eq h
  exact ⟨lp', hop, hsame⟩

end Listpack

end Gopherdis.Datastruct

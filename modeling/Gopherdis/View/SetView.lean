/-
A set that is an intset, a listpack or a hash set, and goes from one to the next as it grows. In each of them it is
the same finite set: whatever is added, removed and popped, under any limits, the replies are those of the set.
-/
import Gopherdis.Datastruct.IntSet
import Gopherdis.Datastruct.Listpack
import Gopherdis.Lib.Calls

namespace Gopherdis.View

open Lib Datastruct List Listpack IntSet

variable {s : IntSet} {m : Bytes}

structure SetLimits where
  maxIntsetEntries : Int
  maxListpackEntries : Int
  maxListpackValue : Int

/-- One of the three pointers of a view is set. -/
inductive SetView
  | is (s : IntSet)
  | lp (l : Listpack)
  | ht (s : Finset Bytes)

/-- The order in which the map of a hash set is walked. -/
structure Walk where
  list : Finset Bytes → List Bytes
  nodup : ∀ s, (list s).Nodup
  toFinset_list : ∀ s, (list s).toFinset = s

def hashAdd (s : Finset Bytes) (ms : List Bytes) : Finset Bytes × Nat :=
  ms.foldl (fun r m => if m ∈ r.1 then r else (insert m r.1, r.2 + 1)) (s, 0)

namespace SetView

def card : SetView → Nat
  | .ht s => s.card
  | .lp l => l.n
  | .is s => s.len

def contains (m : Bytes) : SetView → Option Bool
  | .ht s => some (m ∈ s)
  | .lp l => (l.find m 0 1).map Option.isSome
  | .is s => some ((parse m).any s.contains)

def members (w : Walk) : SetView → Option (List Bytes)
  | .ht s => some (w.list s)
  | .lp l => l.all
  | .is s => some s.members

/-- The end of `addOne`, where the view is a hash set. -/
def addHash (s : Finset Bytes) (m : Bytes) : SetView × Bool := (.ht (hashAdd s [m]).1, 0 < (hashAdd s [m]).2)

variable (lim : SetLimits)

/-- The same where it is a listpack. -/
def addPacked (l : Listpack) (m : Bytes) : Option (SetView × Bool) :=
  if lim.maxListpackValue < m.length ∨ lim.maxListpackEntries ≤ l.n then do
    let ms ← l.all
    some (addHash (hashAdd ∅ ms).1 m)
  else some (.lp (l.append m), true)

/-- A member that is no integer, or one too many, leaves the intset behind. -/
def addPast (s : IntSet) (m : Bytes) : Option (SetView × Bool) :=
  if m.length ≤ lim.maxListpackValue ∧ s.len < lim.maxListpackEntries then
    addPacked lim (s.members.foldl append .new) m
  else some (addHash (hashAdd ∅ s.members).1 m)

def addOne (v : SetView) (m : Bytes) : Option (SetView × Bool) := do
  if ← v.contains m then some (v, false)
  else
    match v with
    | .ht s => some (addHash s m)
    | .lp l => addPacked lim l m
    | .is s =>
      match parse m with
      | some n => if s.len < lim.maxIntsetEntries then some (.is (s.add n).1, (s.add n).2) else addPast lim s m
      | none => addPast lim s m

def add (lim : SetLimits) : SetView → List Bytes → Option (SetView × Nat)
  | v, [] => some (v, 0)
  | v, m :: ms => do
    let r ← v.addOne lim m
    let r' ← add lim r.1 ms
    some (r'.1, (if r.2 then 1 else 0) + r'.2)

def removeOne (m : Bytes) : SetView → Option (SetView × Bool)
  | .ht s => some (.ht (s.erase m), m ∈ s)
  | .lp l => do
    match ← l.find m 0 1 with
    | some i =>
      let r ← l.deleteRange i 1
      some (.lp r.1, true)
    | none => some (.lp l, false)
  | .is s =>
    match parse m with
    | some n => some (.is (s.remove n).1, (s.remove n).2)
    | none => some (.is s, false)

def remove : SetView → List Bytes → Option (SetView × Nat)
  | v, [] => some (v, 0)
  | v, m :: ms => do
    let r ← v.removeOne m
    let r' ← remove r.1 ms
    some (r'.1, (if r.2 then 1 else 0) + r'.2)

/-- `members[:count]` is out of range for a negative count, which `SPOP` refuses. -/
def pop (w : Walk) (v : SetView) (count : Int) : Option (SetView × List Bytes) := do
  let ms ← v.members w
  let count := if (ms.length : Int) < count then (ms.length : Int) else count
  if count < 0 then none
  else
    let picked := ms.take count.toNat
    let r ← v.remove picked
    some (r.1, picked)

/-! ## The set a view holds -/

/-- The members of the view; an intset is strictly sorted, and a listpack has no member twice. -/
def Holds (S : Finset Bytes) : SetView → Prop
  | .ht s => S = s
  | .lp l => ∃ xs, l.Packs xs ∧ xs.Nodup ∧ S = xs.toFinset
  | .is s => s.Sorted ∧ (∀ n ∈ s.vals, InInt64 n) ∧ S = s.members.toFinset

lemma mem_members (h : ∀ n ∈ s.vals, InInt64 n) : m ∈ s.members ↔ ∃ n, IntSet.parse m = some n ∧ n ∈ s.vals := by
  rw [IntSet.members, mem_map]
  constructor
  · rintro ⟨n, hn, rfl⟩
    exact ⟨n, IntSet.parse_eq_some.2 ⟨h n hn, rfl⟩, hn⟩
  · rintro ⟨n, hparse, hn⟩
    exact ⟨n, hn, (IntSet.parse_eq_some.1 hparse).2⟩

lemma formatInt_inj {a b : Int} (ha : InInt64 a) (hb : InInt64 b) (h : formatInt a = formatInt b) : a = b := by
  have hparse := parseInt_formatInt ha
  rw [h, parseInt_formatInt hb] at hparse
  exact (Option.some.inj hparse).symm

lemma nodup_members (hs : s.Sorted) (h : ∀ n ∈ s.vals, InInt64 n) : s.members.Nodup := by
  refine List.Nodup.map_on (fun a ha b hb => formatInt_inj (h a ha) (h b hb)) ?_
  exact hs.imp fun hab => hab.ne

lemma hashAdd_eq (s : Finset Bytes) (ms : List Bytes) :
    hashAdd s ms = (s ∪ ms.toFinset, (s ∪ ms.toFinset).card - s.card) := by
  have hfold : ∀ (ms : List Bytes) (t : Finset Bytes) (n : Nat), s.card + n = t.card →
      ms.foldl (fun r m => if m ∈ r.1 then r else (insert m r.1, r.2 + 1)) (t, n) =
        (t ∪ ms.toFinset, (t ∪ ms.toFinset).card - s.card) := by
    intro ms
    induction ms with
    | nil => intro t n hn; simp [← hn]
    | cons m ms ih =>
    intro t n hn
    rw [foldl_cons, toFinset_cons]
    simp only
    split_ifs with hm
    · rw [ih t n hn, Finset.union_insert, ← Finset.insert_union, Finset.insert_eq_self.2 hm]
    · rw [ih _ _ (by rw [Finset.card_insert_of_notMem hm]; omega), Finset.union_insert, Finset.insert_union]
  exact hfold ms s 0 rfl

section
variable {S : Finset Bytes} {v : SetView} (h : v.Holds S)
include h

lemma members_spec (w : Walk) : ∃ l, v.members w = some l ∧ l.Nodup ∧ l.toFinset = S := by
  rcases v with s | l | s
  · exact ⟨_, rfl, nodup_members h.1 h.2.1, h.2.2.symm⟩
  · obtain ⟨xs, hp, hnodup, rfl⟩ := h
    exact ⟨xs, all_eq hp, hnodup, rfl⟩
  · obtain rfl := h
    exact ⟨_, rfl, w.nodup S, w.toFinset_list S⟩

lemma card_spec : v.card = S.card := by
  rcases v with s | l | s
  · obtain ⟨hs, hint, rfl⟩ := h
    rw [toFinset_card_of_nodup (nodup_members hs hint)]
    simp [card, IntSet.len, IntSet.members]
  · obtain ⟨xs, hp, hnodup, rfl⟩ := h
    rw [toFinset_card_of_nodup hnodup]
    exact hp.n
  · obtain rfl := h
    rfl

lemma contains_spec (m : Bytes) : v.contains m = some (decide (m ∈ S)) := by
  rcases v with s | l | s
  · obtain ⟨hs, hint, rfl⟩ := h
    rw [contains, Option.some_inj, Bool.eq_iff_iff, decide_eq_true_iff, mem_toFinset, mem_members hint,
      Option.any_eq_true]
    simp [contains_iff hs]
  · obtain ⟨xs, hp, hnodup, rfl⟩ := h
    rw [contains, find_one hp]
    by_cases hm : m ∈ xs <;> simp [hm]
  · obtain rfl := h
    rfl

end

/-! ## Changes -/

lemma addHash_spec (S : Finset Bytes) (hm : m ∉ S) : (addHash S m).2 = true ∧ (addHash S m).1.Holds (insert m S) := by
  simp only [addHash, hashAdd_eq, toFinset_cons, toFinset_nil, insert_empty_eq, Finset.union_singleton,
    Finset.card_insert_of_notMem hm, Holds]
  simp

lemma addPacked_spec {l : Listpack} {xs : List Bytes} (hp : l.Packs xs) (hnodup : xs.Nodup) (hm : m ∉ xs.toFinset) :
    ∃ v', addPacked lim l m = some (v', true) ∧ v'.Holds (insert m xs.toFinset) := by
  unfold addPacked
  split_ifs
  · obtain ⟨htrue, hholds⟩ := addHash_spec xs.toFinset hm
    simp only [all_eq hp, Option.bind_eq_bind, Option.bind_some, hashAdd_eq, Finset.empty_union]
    exact ⟨_, by rw [← htrue], hholds⟩
  rw [mem_toFinset] at hm
  refine ⟨_, rfl, xs ++ [m], hp.append m, ?_, by rw [toFinset_append]; simp⟩
  exact nodup_append.2 ⟨hnodup, nodup_singleton m, by
    rintro a ha b hb rfl
    exact hm (mem_singleton.1 hb ▸ ha)⟩

lemma addPast_spec (hs : s.Sorted) (hint : ∀ n ∈ s.vals, InInt64 n) (hm : m ∉ s.members.toFinset) :
    ∃ v', addPast lim s m = some (v', true) ∧ v'.Holds (insert m s.members.toFinset) := by
  unfold addPast
  split_ifs
  · have hp := packs_new.foldl_append s.members
    exact addPacked_spec lim hp (nodup_members hs hint) hm
  obtain ⟨htrue, hholds⟩ := addHash_spec s.members.toFinset hm
  rw [hashAdd_eq, Finset.empty_union]
  exact ⟨_, by rw [← htrue], hholds⟩

section
variable {S : Finset Bytes} {v : SetView}

lemma addOne_spec (h : v.Holds S) (lim : SetLimits) (m : Bytes) :
    ∃ v', v.addOne lim m = some (v', decide (m ∉ S)) ∧ v'.Holds (insert m S) := by
  simp only [addOne, contains_spec h m, Option.bind_eq_bind, Option.bind_some]
  by_cases hm : m ∈ S
  · rw [if_pos (decide_eq_true hm), Finset.insert_eq_self.2 hm]
    exact ⟨v, by simp [hm], h⟩
  rw [if_neg (by simp [hm]), decide_eq_true hm]
  rcases v with s | l | s
  · obtain ⟨hs, hint, rfl⟩ := h
    cases hparse : parse m with
    | none => exact addPast_spec lim hs hint hm
    | some n =>
    simp only
    split_ifs
    · obtain ⟨hn, rfl⟩ := parse_eq_some.1 hparse
      have hnew : n ∉ s.vals := fun hmem => hm (mem_toFinset.2 (mem_map_of_mem hmem))
      obtain ⟨s', hadd, hs', hperm⟩ := add_spec hs hnew
      rw [hadd]
      refine ⟨_, rfl, hs', fun k hk => ?_, ?_⟩
      · rcases mem_cons.1 (hperm.mem_iff.1 hk) with rfl | hk
        · exact hn
        · exact hint k hk
      · show _ = (s'.vals.map formatInt).toFinset
        rw [toFinset_eq_of_perm _ _ (hperm.map formatInt), map_cons, toFinset_cons]
        rfl
    · exact addPast_spec lim hs hint hm
  · obtain ⟨xs, hp, hnodup, rfl⟩ := h
    exact addPacked_spec lim hp hnodup hm
  · obtain rfl := h
    obtain ⟨htrue, hholds⟩ := addHash_spec S hm
    exact ⟨_, by rw [← htrue], hholds⟩

lemma add_spec (h : v.Holds S) (lim : SetLimits) (ms : List Bytes) :
    ∃ v', v.add lim ms = some (v', (S ∪ ms.toFinset).card - S.card) ∧ v'.Holds (S ∪ ms.toFinset) := by
  induction ms generalizing v S with
  | nil => exact ⟨v, by simp [add], by simpa using h⟩
  | cons m ms ih =>
  obtain ⟨v1, hone, h1⟩ := addOne_spec h lim m
  obtain ⟨v2, hrest, h2⟩ := ih h1
  have hunion : insert m S ∪ ms.toFinset = S ∪ (m :: ms).toFinset := by
    rw [toFinset_cons, Finset.union_insert, Finset.insert_union]
  rw [hunion] at hrest h2
  refine ⟨v2, ?_, h2⟩
  rw [add, hone]
  simp only [Option.bind_eq_bind, Option.bind_some, hrest]
  -- The rest counts from the set with the member.
  have hle : (insert m S).card ≤ (S ∪ (m :: ms).toFinset).card := by
    rw [← hunion]
    exact Finset.card_le_card Finset.subset_union_left
  congr 2
  by_cases hm : m ∈ S
  · simp [hm]
  rw [Finset.card_insert_of_notMem hm] at hle ⊢
  simp only [hm, not_false_eq_true, decide_true, if_true]
  omega

lemma removeOne_spec (h : v.Holds S) (m : Bytes) :
    ∃ v', v.removeOne m = some (v', decide (m ∈ S)) ∧ v'.Holds (S.erase m) := by
  rcases v with s | l | s
  · obtain ⟨hs, hint, rfl⟩ := h
    rw [removeOne]
    cases hparse : IntSet.parse m with
    | none =>
      have hm : m ∉ s.members := by
        rw [mem_members hint, hparse]
        rintro ⟨n, hn, -⟩
        cases hn
      refine ⟨.is s, by simp [hm], hs, hint, ?_⟩
      rw [Finset.erase_eq_of_notMem (by simpa using hm)]
    | some n =>
    obtain ⟨hn, rfl⟩ := IntSet.parse_eq_some.1 hparse
    obtain ⟨s', hremove, hs', hvals⟩ := IntSet.remove_spec (v := n) hs
    have hmem : formatInt n ∈ s.members ↔ n ∈ s.vals := by
      rw [mem_members hint, hparse]
      simp
    have hsub : ∀ k ∈ s'.vals, k ∈ s.vals := fun k hk => mem_of_mem_erase (hvals ▸ hk)
    simp only [hremove]
    refine ⟨.is s', by simp [hmem], hs', fun k hk => hint k (hsub k hk), ?_⟩
    ext a
    simp only [Finset.mem_erase, mem_toFinset, IntSet.members, mem_map, hvals]
    have hnodup : s.vals.Nodup := hs.imp fun hab => hab.ne
    constructor
    · rintro ⟨hne, k, hk, rfl⟩
      exact ⟨k, hnodup.mem_erase_iff.2 ⟨fun he => hne (by rw [he]), hk⟩, rfl⟩
    · rintro ⟨k, hk, rfl⟩
      obtain ⟨hne, hk⟩ := hnodup.mem_erase_iff.1 hk
      exact ⟨fun he => hne (formatInt_inj (hint k hk) hn he), k, hk, rfl⟩
  · obtain ⟨xs, hp, hnodup, rfl⟩ := h
    rw [removeOne, find_one hp]
    simp only [Option.bind_eq_bind, Option.bind_some]
    by_cases hm : m ∈ xs
    · have hlt : xs.idxOf m < xs.length := idxOf_lt_length_of_mem hm
      obtain ⟨l', hdelete, hp'⟩ := deleteRange_eq hp Nat.one_pos (by omega : xs.idxOf m + 1 ≤ xs.length)
      rw [if_pos hm]
      simp only [Nat.cast_one] at hdelete
      simp only [hdelete, Option.bind_some]
      rw [← eraseIdx_eq_take_drop_succ, ← erase_eq_eraseIdx_of_idxOf rfl] at hp'
      refine ⟨.lp l', by simp [hm], _, hp', hnodup.erase m, ?_⟩
      ext a
      simp [hnodup.mem_erase_iff]
    · refine ⟨.lp l, by simp [hm], xs, hp, hnodup, ?_⟩
      rw [Finset.erase_eq_of_notMem (by simpa using hm)]
  · obtain rfl := h
    exact ⟨_, rfl, rfl⟩

lemma remove_spec (h : v.Holds S) (ms : List Bytes) :
    ∃ v', v.remove ms = some (v', (S ∩ ms.toFinset).card) ∧ v'.Holds (S \ ms.toFinset) := by
  induction ms generalizing v S with
  | nil => exact ⟨v, by simp [remove], by simpa using h⟩
  | cons m ms ih =>
  obtain ⟨v1, hone, h1⟩ := removeOne_spec h m
  obtain ⟨v2, hrest, h2⟩ := ih h1
  have hsdiff : S.erase m \ ms.toFinset = S \ (m :: ms).toFinset := by
    rw [toFinset_cons, Finset.sdiff_insert, Finset.erase_sdiff_comm]
  refine ⟨v2, ?_, hsdiff ▸ h2⟩
  rw [remove, hone]
  simp only [Option.bind_eq_bind, Option.bind_some, hrest]
  congr 2
  rw [toFinset_cons]
  by_cases hm : m ∈ S
  · have hinter : S ∩ insert m ms.toFinset = insert m (S.erase m ∩ ms.toFinset) := by
      ext a
      by_cases ha : a = m <;> simp [ha, hm]
    rw [hinter, Finset.card_insert_of_notMem (by simp), if_pos (decide_eq_true hm), Nat.add_comm]
  · rw [Finset.inter_insert_of_notMem hm, Finset.erase_eq_of_notMem hm, if_neg (by simp [hm]), Nat.zero_add]

lemma pop_spec (h : v.Holds S) (w : Walk) (count : Nat) :
    ∃ v' l, v.pop w count = some (v', l) ∧ l.Nodup ∧ l.toFinset ⊆ S ∧ l.length = min count S.card ∧
      v'.Holds (S \ l.toFinset) := by
  obtain ⟨ms, hms, hnodup, rfl⟩ := members_spec h w
  have hcount : (if (ms.length : Int) < count then (ms.length : Int) else count) = (min count ms.length : Nat) := by
    split_ifs <;> omega
  obtain ⟨v', hremove, hv'⟩ := remove_spec h (ms.take (min count ms.length))
  refine ⟨v', ms.take (min count ms.length), ?_, hnodup.sublist (take_sublist ..), ?_, ?_, hv'⟩
  · simp only [pop, hms, Option.bind_eq_bind, Option.bind_some, hcount]
    rw [if_neg (by omega), Int.toNat_natCast, hremove, Option.bind_some]
  · intro a ha
    rw [mem_toFinset] at ha ⊢
    exact mem_of_mem_take ha
  · rw [toFinset_card_of_nodup hnodup, length_take]
    omega

end

end SetView

/-! ## Runs -/

inductive SetOp
  | add (members : List Bytes)
  | remove (members : List Bytes)
  | pop (count : Nat)
  | contains (member : Bytes)
  | card
  | members

/-- An operation, with the limits at the time and the order in which it finds the members of a map. -/
structure SetCall where
  op : SetOp
  lim : SetLimits
  walk : Walk

inductive SetReply
  | num (n : Nat)
  | flag (b : Bool)
  | list (ms : List Bytes)
  deriving DecidableEq

/-- The reply of the code, and the view it leaves. -/
def SetView.call (v : SetView) (c : SetCall) : Option (SetView × SetReply) :=
  match c.op with
  | .add ms => (v.add c.lim ms).map fun r => (r.1, .num r.2)
  | .remove ms => (v.remove ms).map fun r => (r.1, .num r.2)
  | .pop count => (v.pop c.walk count).map fun r => (r.1, .list r.2)
  | .contains m => (v.contains m).map fun b => (v, .flag b)
  | .card => some (v, .num v.card)
  | .members => (v.members c.walk).map fun ms => (v, .list ms)

/-- What the operation is on a finite set. A pop takes some members, as many as it is to; members come in any
order, none of them twice. -/
def SetOp.On (S : Finset Bytes) : SetOp → SetReply → Finset Bytes → Prop
  | .add ms, r, S' => r = .num ((S ∪ ms.toFinset).card - S.card) ∧ S' = S ∪ ms.toFinset
  | .remove ms, r, S' => r = .num (S ∩ ms.toFinset).card ∧ S' = S \ ms.toFinset
  | .pop count, r, S' =>
    ∃ l, r = .list l ∧ l.Nodup ∧ l.toFinset ⊆ S ∧ l.length = min count S.card ∧ S' = S \ l.toFinset
  | .contains m, r, S' => r = .flag (m ∈ S) ∧ S' = S
  | .card, r, S' => r = .num S.card ∧ S' = S
  | .members, r, S' => ∃ l, r = .list l ∧ l.Nodup ∧ l.toFinset = S ∧ S' = S

lemma SetView.call_spec {v : SetView} {S : Finset Bytes} (h : v.Holds S) (c : SetCall) :
    ∃ v' r S', v.call c = some (v', r) ∧ c.op.On S r S' ∧ v'.Holds S' := by
  unfold SetView.call
  cases c.op with
  | add ms =>
    obtain ⟨v', hadd, hv'⟩ := add_spec h c.lim ms
    simp only [hadd]
    exact ⟨v', _, _, rfl, ⟨rfl, rfl⟩, hv'⟩
  | remove ms =>
    obtain ⟨v', hremove, hv'⟩ := remove_spec h ms
    simp only [hremove]
    exact ⟨v', _, _, rfl, ⟨rfl, rfl⟩, hv'⟩
  | pop count =>
    obtain ⟨v', l, hpop, hnodup, hsub, hlen, hv'⟩ := pop_spec h c.walk count
    simp only [hpop]
    exact ⟨v', _, _, rfl, ⟨l, rfl, hnodup, hsub, hlen, rfl⟩, hv'⟩
  | contains m =>
    simp only [contains_spec h]
    exact ⟨v, _, _, rfl, ⟨rfl, rfl⟩, h⟩
  | card => exact ⟨v, _, _, rfl, ⟨by rw [card_spec h], rfl⟩, h⟩
  | members =>
    obtain ⟨l, hl, hnodup, hS⟩ := members_spec h c.walk
    simp only [hl]
    exact ⟨v, _, _, rfl, ⟨l, rfl, hnodup, hS, rfl⟩, h⟩

/-- Whatever is called on a view that begins as an empty intset, under any limits and however maps are walked, the
replies are those of a finite set; the view holds that set, and is strictly sorted while it is an intset. -/
theorem set_view_refines (cs : List SetCall) : ∃ v replies S, calls SetView.call (.is .new) cs = some (v, replies) ∧
      Answers SetOp.On ∅ (cs.map SetCall.op) replies S ∧ v.Holds S ∧ ∀ s, v = .is s → s.vals.Pairwise (· < ·) := by
  have hempty : (SetView.is IntSet.new).Holds ∅ := ⟨List.Pairwise.nil, by simp [IntSet.new], rfl⟩
  obtain ⟨v, replies, S, hcalls, hops, hholds⟩ :=
    calls_Answers (H := SetView.Holds) (fun c h => SetView.call_spec h c) hempty cs
  refine ⟨v, replies, S, hcalls, hops, hholds, ?_⟩
  rintro s rfl
  exact hholds.1

noncomputable def anyWalk : Walk := ⟨Finset.toList, Finset.nodup_toList, Finset.toList_toFinset⟩

/-- "007" does not go into the intset, and a third member does not go into the listpack. -/
noncomputable def growingRun : List SetCall :=
  [.add [ascii "1"], .add [ascii "007"], .pop 1, .add [ascii "a", ascii "b"], .card].map (⟨·, ⟨512, 2, 64⟩, anyWalk⟩)

def SetView.hashed : SetView → Bool
  | .ht _ => true
  | _ => false

theorem growing_set_agrees : ∃ v S, calls SetView.call (.is .new) growingRun =
      some (v, [.num 1, .num 1, .list [ascii "1"], .num 2, .num 3]) ∧ v.hashed = true ∧
    Answers SetOp.On ∅ (growingRun.map SetCall.op) [.num 1, .num 1, .list [ascii "1"], .num 2, .num 3] S ∧
    v.Holds S := by
  obtain ⟨v, replies, S, hcalls, hanswers, hholds, -⟩ := set_view_refines growingRun
  have heval : (calls SetView.call (.is .new) growingRun).any (fun r => r.1.hashed &&
      r.2 = [.num 1, .num 1, .list [ascii "1"], .num 2, .num 3]) = true := by decide +kernel
  rw [hcalls, Option.any_some, Bool.and_eq_true, decide_eq_true_eq] at heval
  obtain ⟨hhashed, rfl⟩ := heval
  exact ⟨v, S, hcalls, hhashed, hanswers, hholds⟩

end Gopherdis.View

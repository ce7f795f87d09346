/-
Values built by insertions alone into a new collection, and the encoding they have in the end. A list is a
quicklist once an element is long or there were too many; a hash is a hash table if any field or value ever set
is long, or if there are too many; a set leaves the intset at the first member that does not fit it, and only
the members from there on count for the listpack; a sorted set is as its members say.
-/
import Gopherdis.Encoded.Sets
import Gopherdis.Encoded.SortedSets
import Mathlib.Data.List.TakeWhile

namespace Gopherdis.Encoded

open Lib Codec Object Store Command List

variable {β γ : Type}
variable {bs ms : List Bytes} {es : List (Bytes × Bytes)}

/-! ## Insertions one after the other -/

variable (K : Kind β) (f : Held β → γ → List (Edit β))

/-- A new collection after these insertions. -/
def built (xs : List γ) : Held β :=
  Held.edited ⟨[], K.fresh⟩ (editAll f ⟨[], K.fresh⟩ xs)

lemma editAll_append (h : Held β) (xs ys : List γ) :
    editAll f h (xs ++ ys) = editAll f h xs ++ editAll f (h.edited (editAll f h xs)) ys := by
  induction xs generalizing h with
  | nil => rfl
  | cons x xs ih => rw [cons_append, editAll, editAll, ih, edited_append, append_assoc]

lemma built_append (xs ys : List γ) : built K f (xs ++ ys) = (built K f xs).edited (editAll f (built K f xs) ys) := by
  rw [built, editAll_append, edited_append]
  rfl

lemma built_concat (xs : List γ) (x : γ) : built K f (xs ++ [x]) = (built K f xs).edited (f (built K f xs) x) := by
  rw [built_append, editAll, editAll, append_nil]

lemma built_induction {K : Kind β} {f : Held β → γ → List (Edit β)} {P : List γ → Held β → Prop}
    (hnew : P [] ⟨[], K.fresh⟩) (hstep : ∀ xs x h, P xs h → P (xs ++ [x]) (h.edited (f h x))) (xs : List γ) :
    P xs (built K f xs) := by
  induction xs using List.reverseRecOn with
  | nil => exact hnew
  | append_singleton xs x ih =>
    rw [built_concat]
    exact hstep xs x _ ih

variable (S : Settings)

/-- The insertions a value was built by. -/
inductive Build
  | str (b : Bytes)
  | list (pushes : List (ListEnd × Bytes))
  | hash (sets : List (Bytes × Bytes))
  | set (members : List Bytes)
  | zset (adds : List (Bytes × Score))

def pushOne (h : Held Bytes) (p : ListEnd × Bytes) : List (Edit Bytes) := pushEdits S p.1 h p.2

def Build.object : Build → Robj
  | .str b => tryEncodeString b
  | .list pushes => (built listKind (pushOne S) pushes).obj listKind
  | .hash sets => (built hashKind (hashSetEdits S) sets).obj hashKind
  | .set members => (built setKind (setAddEdits S) members).obj setKind
  | .zset adds => (built zsetKind (zAddEdits S) adds).obj zsetKind

/-- Something was inserted. -/
def Build.Some : Build → Prop
  | .str _ => True
  | .list pushes => pushes ≠ []
  | .hash sets => sets ≠ []
  | .set members => members ≠ []
  | .zset adds => adds ≠ []

variable {S}

/-! ## Lists -/

def size (bs : List Bytes) : Nat := (bs.map List.length).sum

lemma size_append (as bs : List Bytes) : size (as ++ bs) = size as + size bs := by simp [size]

lemma size_singleton (b : Bytes) : size [b] = b.length := by simp [size]

lemma size_perm {as : List Bytes} (h : as.Perm bs) : size as = size bs := (h.map List.length).sum_eq

lemma packedBytes_eq (h : ∀ b ∈ bs, b.length ≤ listMaxListpackValue) : packedBytes bs = size bs + bs.length := by
  induction bs with
  | nil => rfl
  | cons b bs ih =>
  obtain ⟨hb, hbs⟩ := forall_mem_cons.1 h
  have hlen : uvarintLen b.length = 1 := by
    have hsmall : b.length < 0x80 := lt_of_le_of_lt hb (by decide)
    rw [uvarintLen, uvarintLenFrom, if_pos hsmall]
  have hrest := ih hbs
  simp only [packedBytes, size] at hrest
  simp only [packedBytes, size, map_cons, sum_cons, length_cons, packedLen, hlen, hrest]
  omega

variable (limit : Int)

/-- Pushed one by one, the elements stay in a listpack. A push does not count its own header. -/
def FitsPushed (vals : List Bytes) : Prop :=
  (∀ b ∈ vals, b.length ≤ listMaxListpackValue) ∧
    if 0 ≤ limit then (vals.length : Int) ≤ limit else vals = [] ∨ size vals + vals.length ≤ listpackBudget limit + 1

lemma fitsPushed_concat {limit : Int} {vals items : List Bytes} (hperm : items.Perm vals) (val : Bytes) :
    FitsPushed limit (vals ++ [val]) ↔
      FitsPushed limit vals ∧ val.length ≤ listMaxListpackValue ∧ listWouldExceed limit items val.length = false := by
  have hlen := hperm.length_eq
  have hbytes : (∀ b ∈ vals, b.length ≤ listMaxListpackValue) → packedBytes items = size vals + vals.length := by
    intro h
    rw [packedBytes_eq fun b hb => h b (hperm.mem_iff.1 hb), size_perm hperm, hlen]
  have hshort : (∀ b ∈ vals ++ [val], b.length ≤ listMaxListpackValue) ↔
      (∀ b ∈ vals, b.length ≤ listMaxListpackValue) ∧ val.length ≤ listMaxListpackValue := by
    rw [forall_mem_append, forall_mem_singleton]
  simp only [FitsPushed, hshort, listWouldExceed]
  by_cases hlimit : 0 ≤ limit
  · simp only [if_pos hlimit, decide_eq_false_iff_not, not_le, length_append, length_singleton, hlen]
    constructor
    · rintro ⟨⟨hvals, hval⟩, hn⟩
      exact ⟨⟨hvals, by omega⟩, hval, by omega⟩
    · rintro ⟨⟨hvals, -⟩, hval, hn⟩
      exact ⟨⟨hvals, hval⟩, by omega⟩
  simp only [if_neg hlimit, decide_eq_false_iff_not, not_lt, length_append, length_singleton, size_append,
    size_singleton, append_eq_nil_iff, cons_ne_self, and_false, false_or]
  constructor
  · rintro ⟨⟨hvals, hval⟩, hn⟩
    rw [hbytes hvals]
    exact ⟨⟨hvals, .inr (by omega)⟩, hval, by omega⟩
  · rintro ⟨⟨hvals, -⟩, hval, hn⟩
    rw [hbytes hvals] at hn
    exact ⟨⟨hvals, hval⟩, by omega⟩

/-- The list after these pushes. -/
structure ListBuilt (S : Settings) (pushes : List (ListEnd × Bytes)) (h : Held Bytes) : Prop where
  items : h.items.Perm (pushes.map Prod.snd)
  enc : h.enc = .listpack ∨ h.enc = .quicklist
  packed : h.enc = .listpack ↔ FitsPushed S.server.listMaxListpackSize (pushes.map Prod.snd)

lemma listBuilt_built (pushes : List (ListEnd × Bytes)) : ListBuilt S pushes (built listKind (pushOne S) pushes) := by
  refine built_induction ?_ ?_ pushes
  · exact ⟨List.Perm.nil, .inl rfl, iff_of_true rfl ⟨by simp, by split_ifs with h <;> simp [h]⟩⟩
  · rintro pushes ⟨side, val⟩ ⟨items, enc⟩ ⟨hitems, henc, hpacked⟩
    simp only [pushOne, edited_pushEdits]
    constructor
    · have hpush : (pushEnd val side items).Perm (val :: items) := by
        cases side with
        | left => exact List.Perm.refl _
        | right => exact perm_append_singleton val items
      rw [map_append, map_singleton]
      exact hpush.trans ((hitems.cons val).trans (perm_append_singleton val _).symm)
    · split_ifs
      · exact .inr rfl
      · exact henc
    · rw [map_append, map_singleton, fitsPushed_concat hitems val, ← hpacked]
      simp only [growWouldPromote]
      rcases henc with rfl | rfl
      · by_cases hlong : listMaxListpackValue < val.length
        · simp [hlong]
        by_cases hexceed : listWouldExceed S.server.listMaxListpackSize items val.length = true
        · simp [hexceed]
        · simp [hlong, not_lt.1 hlong, hexceed]
      · simp

/-! ## Hashes -/

lemma stays_packed {enc boxed : Encoding} (hboxed : boxed ≠ .listpack) {first short long fresh promote : Prop}
    [Decidable fresh] [Decidable promote] {n n' entries : Int} (henc : enc = .listpack ↔ first ∨ short ∧ n ≤ entries)
    (hpromote : promote ↔ long ∨ fresh ∧ entries ≤ n) (hlength : n' = if fresh then n + 1 else n)
    (hfirst : first → short ∧ fresh) :
    (if enc = .listpack ∧ promote then boxed else enc) = .listpack ↔ (short ∧ ¬long) ∧ n' ≤ entries := by
  have hroom : ¬(fresh ∧ entries ≤ n) ∧ (fresh ∨ n ≤ entries) ↔ n' ≤ entries := by
    rw [hlength]
    by_cases hf : fresh
    · simp only [hf, true_and, true_or, and_true, if_true]
      omega
    · simp [hf]
  split_ifs with h
  · refine iff_of_false hboxed ?_
    rintro ⟨⟨-, hlong⟩, hn⟩
    rcases hpromote.1 h.2 with hlong' | hfull
    · exact hlong hlong'
    · exact (hroom.2 hn).1 hfull
  rw [henc, ← hroom]
  rw [henc, hpromote, not_and, not_or] at h
  constructor
  · rintro hpacked
    obtain ⟨hlong, hfull⟩ := h hpacked
    rcases hpacked with hf | ⟨hshort, hn⟩
    · exact ⟨⟨(hfirst hf).1, hlong⟩, hfull, .inl (hfirst hf).2⟩
    · exact ⟨⟨hshort, hlong⟩, hfull, .inr hn⟩
  · rintro ⟨⟨hshort, -⟩, hfull, hfresh | hn⟩
    · exact .inr ⟨hshort, by have := not_and.1 hfull hfresh; omega⟩
    · exact .inr ⟨hshort, hn⟩

/-- The hash after these settings. -/
structure HashBuilt (S : Settings) (sets : List (Bytes × Bytes)) (h : Held (Bytes × Bytes)) : Prop where
  items : h.items = sets.foldl (fun es e => hashSet es e.1 e.2) []
  nodup : (h.items.map Prod.fst).Nodup
  enc : h.enc = .listpack ∨ h.enc = .hashtable
  packed : h.enc = .listpack ↔ sets = [] ∨
    (∀ e ∈ sets, (e.1.length : Int) ≤ S.E.hashMaxListpackValue ∧ (e.2.length : Int) ≤ S.E.hashMaxListpackValue) ∧
      (h.items.length : Int) ≤ S.E.hashMaxListpackEntries

lemma edited_hashSetEdits (h : Held (Bytes × Bytes)) (e : Bytes × Bytes) :
    h.edited (hashSetEdits S h e) = ⟨hashSet h.items e.1 e.2,
      if h.enc = .listpack ∧ hashShouldPromote S h.items e.1 e.2 then .hashtable else h.enc⟩ := by
  unfold hashSetEdits
  split_ifs <;> rfl

lemma lookup_isNone_iff {α : Type} (es : List (Bytes × α)) (k : Bytes) :
    ((es.find? fun e => e.1 = k).map Prod.snd).isNone = true ↔ k ∉ es.map Prod.fst := by
  rw [Option.isNone_map, Option.isNone_iff_eq_none, find?_eq_none, mem_map]
  constructor
  · rintro h ⟨e, he, rfl⟩
    exact h e he (decide_eq_true rfl)
  · intro h e he hk
    exact h ⟨e, he, of_decide_eq_true hk⟩

lemma hashSet_old {f : Bytes} (h : f ∈ es.map Prod.fst) (v : Bytes) :
    (hashSet es f v).map Prod.fst = es.map Prod.fst := by
  have hany : es.any (fun e => e.1 = f) = true := by simpa using h
  rw [hashSet, if_pos hany, map_map]
  refine map_congr_left fun e _ => ?_
  simp only [Function.comp_apply]
  split_ifs with he
  · exact he.symm
  · rfl

lemma length_hashSet (es : List (Bytes × Bytes)) (f v : Bytes) :
    ((hashSet es f v).length : Int) = if f ∉ es.map Prod.fst then (es.length : Int) + 1 else es.length := by
  by_cases hmem : f ∈ es.map Prod.fst
  · have hlen := congrArg List.length (hashSet_old hmem v)
    rw [length_map, length_map] at hlen
    rw [if_neg (not_not.2 hmem), hlen]
  · rw [if_pos hmem, hashSet_new hmem, length_append, length_singleton, Nat.cast_add, Nat.cast_one]

lemma hashShouldPromote_iff (es : List (Bytes × Bytes)) (field val : Bytes) : hashShouldPromote S es field val = true ↔
      ¬((field.length : Int) ≤ S.E.hashMaxListpackValue ∧ (val.length : Int) ≤ S.E.hashMaxListpackValue) ∨
        field ∉ es.map Prod.fst ∧ S.E.hashMaxListpackEntries ≤ es.length := by
  rw [hashShouldPromote, Bool.or_eq_true, Bool.or_eq_true, Bool.and_eq_true, hashGet, lookup_isNone_iff, decide_eq_true_iff,
    decide_eq_true_iff, decide_eq_true_iff, not_and_or, not_le, not_le, or_comm (a := _ < (val.length : Int))]

variable (sets : List (Bytes × Bytes))

lemma hashBuilt_built : HashBuilt S sets (built hashKind (hashSetEdits S) sets) := by
  refine built_induction ?_ ?_ sets
  · exact ⟨rfl, nodup_nil, .inl rfl, iff_of_true rfl (.inl rfl)⟩
  · rintro sets ⟨field, val⟩ ⟨items, enc⟩ ⟨hitems, hnodup, henc, hpacked⟩
    simp only at hitems hnodup henc hpacked
    simp only [edited_hashSetEdits]
    constructor
    · rw [foldl_append, ← hitems]
      rfl
    · by_cases hmem : field ∈ items.map Prod.fst
      · rwa [hashSet_old hmem]
      rw [hashSet_new hmem, map_append, nodup_append]
      refine ⟨hnodup, nodup_singleton _, ?_⟩
      rintro a ha b hb rfl
      have hfield : a = field := by simpa using hb
      exact hmem (hfield ▸ ha)
    · split_ifs
      · exact .inr rfl
      · exact henc
    · have hfirst : sets = [] →
          (∀ e ∈ sets, (e.1.length : Int) ≤ S.E.hashMaxListpackValue ∧ (e.2.length : Int) ≤ S.E.hashMaxListpackValue) ∧
            field ∉ items.map Prod.fst := by
        rintro rfl
        rw [hitems]
        simp
      rw [stays_packed (by decide) hpacked (hashShouldPromote_iff items field val) (length_hashSet items field val) hfirst,
        forall_mem_append, forall_mem_singleton, not_not]
      simp

lemma mem_hashSet {f v : Bytes} {e : Bytes × Bytes} (h : e ∈ hashSet es f v) : e ∈ es ∨ e = (f, v) := by
  unfold hashSet at h
  split_ifs at h
  · obtain ⟨x, hx, rfl⟩ := mem_map.1 h
    split_ifs
    · exact .inr rfl
    · exact .inl hx
  · simpa using h

lemma fields_hashSet (es : List (Bytes × Bytes)) (f v : Bytes) {g : Bytes} :
    g ∈ (hashSet es f v).map Prod.fst ↔ g ∈ es.map Prod.fst ∨ g = f := by
  by_cases hmem : f ∈ es.map Prod.fst
  · rw [hashSet_old hmem]
    refine ⟨.inl, fun h => h.elim id ?_⟩
    rintro rfl
    exact hmem
  · rw [hashSet_new hmem, map_append, mem_append, map_singleton, mem_singleton]

lemma hashSets_mem : (∀ e ∈ sets.foldl (fun es e => hashSet es e.1 e.2) [], e ∈ sets) ∧
      ∀ e ∈ sets, e.1 ∈ (sets.foldl (fun es e => hashSet es e.1 e.2) []).map Prod.fst := by
  induction sets using List.reverseRecOn with
  | nil => simp
  | append_singleton sets x ih =>
  rw [foldl_append, foldl_cons, foldl_nil]
  constructor
  · intro e he
    rcases mem_hashSet he with h | rfl
    · exact mem_append_left _ (ih.1 e h)
    · exact mem_append_right _ (mem_singleton_self _)
  · intro e he
    rw [fields_hashSet]
    rcases mem_append.1 he with h | h
    · exact .inl (ih.2 e h)
    · exact .inr (congrArg Prod.fst (mem_singleton.1 h))

/-! ## Sets -/

/-- How many of the members, in the order they were added, the intset takes. -/
def intPart (S : Settings) (ms : List Bytes) : Nat :=
  min S.E.setMaxIntsetEntries.toNat (ms.takeWhile isCanonicalInt).length

lemma intPart_le (ms : List Bytes) : intPart S ms ≤ ms.length :=
  (Nat.min_le_right _ _).trans (takeWhile_sublist _).length_le

lemma intPart_eq_length_iff (ms : List Bytes) :
    intPart S ms = ms.length ↔ ms.all isCanonicalInt = true ∧ ms.length ≤ S.E.setMaxIntsetEntries.toNat := by
  have hle := (takeWhile_sublist (l := ms) isCanonicalInt).length_le
  have hall : (ms.takeWhile isCanonicalInt).length = ms.length ↔ ms.all isCanonicalInt = true := by
    rw [all_eq_true, ← takeWhile_eq_self_iff]
    exact ⟨(takeWhile_sublist _).eq_of_length, congrArg List.length⟩
  rw [intPart, ← hall]
  omega

lemma intPart_concat (ms : List Bytes) (m : Bytes) : intPart S (ms ++ [m]) =
      if intPart S ms = ms.length ∧ isCanonicalInt m = true ∧ (ms.length : Int) < S.E.setMaxIntsetEntries then
        ms.length + 1 else intPart S ms := by
  have hle := (takeWhile_sublist (l := ms) isCanonicalInt).length_le
  rw [intPart, intPart, takeWhile_append]
  by_cases hm : isCanonicalInt m = true
  · simp only [takeWhile_cons, hm, if_true, takeWhile_nil, true_and, apply_ite List.length, length_append,
      length_singleton]
    generalize (ms.takeWhile isCanonicalInt).length = t at hle
    by_cases hall : t = ms.length
    · rw [if_pos hall]
      by_cases hroom : (ms.length : Int) < S.E.setMaxIntsetEntries
      · rw [if_pos ⟨by omega, hroom⟩]
        omega
      · rw [if_neg fun h => hroom h.2]
        omega
    · rw [if_neg hall, if_neg (by omega)]
  · simp only [takeWhile_cons, hm, Bool.false_eq_true, if_false, append_nil, false_and, and_false,
      apply_ite List.length]
    split_ifs with hall
    · rw [hall]
    · rfl

/-- The encoding of a set with these members, in the order they were added: those the intset took are not looked at
again when it becomes a listpack. -/
def setBuiltEncoding (S : Settings) (ms : List Bytes) : Encoding :=
  if intPart S ms = ms.length then .intset
  else if (∀ m ∈ ms.drop (intPart S ms), (m.length : Int) ≤ S.E.setMaxListpackValue) ∧
      (ms.length : Int) ≤ S.E.setMaxListpackEntries then .listpack
  else .hashtable

lemma setBuiltEncoding_concat (ms : List Bytes) (m : Bytes) : setBuiltEncoding S (ms ++ [m]) =
      match setBuiltEncoding S ms with
      | .intset =>
        if isCanonicalInt m ∧ ms.length < S.E.setMaxIntsetEntries then .intset
        else if setFitsListpack S ms m then .listpack else .hashtable
      | .listpack => if setFitsListpack S ms m then .listpack else .hashtable
      | enc => enc := by
  have hle := intPart_le (S := S) ms
  have hfits : setFitsListpack S ms m = true ↔
      (m.length : Int) ≤ S.E.setMaxListpackValue ∧ ((ms.length + 1 : Nat) : Int) ≤ S.E.setMaxListpackEntries := by
    rw [setFitsListpack, Bool.and_eq_true, decide_eq_true_iff, decide_eq_true_iff]
    omega
  rw [setBuiltEncoding, intPart_concat, length_append, length_singleton]
  by_cases hall : intPart S ms = ms.length
  · rw [setBuiltEncoding, if_pos hall]
    by_cases hint : isCanonicalInt m = true ∧ (ms.length : Int) < S.E.setMaxIntsetEntries
    · simp [hall, hint, and_self]
    have hlast : (ms ++ [m]).drop ms.length = [m] := drop_left
    have hpart : ¬(intPart S ms = ms.length ∧ isCanonicalInt m = true ∧ (ms.length : Int) < S.E.setMaxIntsetEntries) :=
      fun h => hint h.2
    rw [if_neg hpart, hall, if_neg (by omega), hlast]
    simp [if_neg hint, hfits]
  have hdrop : (ms ++ [m]).drop (intPart S ms) = ms.drop (intPart S ms) ++ [m] := drop_append_of_le_length hle
  have hpart : ¬(intPart S ms = ms.length ∧ isCanonicalInt m = true ∧ (ms.length : Int) < S.E.setMaxIntsetEntries) :=
    fun h => hall h.1
  rw [if_neg hpart, if_neg (by omega), hdrop, setBuiltEncoding, if_neg hall]
  simp only [forall_mem_append, forall_mem_singleton]
  by_cases hpacked : (∀ m ∈ ms.drop (intPart S ms), (m.length : Int) ≤ S.E.setMaxListpackValue) ∧
      (ms.length : Int) ≤ S.E.setMaxListpackEntries
  · rw [if_pos hpacked]
    simp [hfits, iff_true_intro hpacked.1, true_and]
  rw [if_neg hpacked, if_neg]
  rintro ⟨⟨hshort, -⟩, hn⟩
  exact hpacked ⟨hshort, by omega⟩

/-- The set after these additions. -/
structure SetBuilt (S : Settings) (members : List Bytes) (h : Held Bytes) : Prop where
  items : h.items = members.foldl setAdd []
  nodup : h.items.Nodup
  enc : h.enc = setBuiltEncoding S h.items

lemma edited_setAddEdits (h : Held Bytes) (m : Bytes) (henc : h.enc = setBuiltEncoding S h.items) :
    h.edited (setAddEdits S h m) = ⟨setAdd h.items m, setBuiltEncoding S (setAdd h.items m)⟩ := by
  obtain ⟨items, enc⟩ := h
  by_cases hmem : m ∈ items
  · rw [setAddEdits, setAdd, if_pos hmem, if_pos hmem]
    exact congrArg (Held.mk items) henc
  rw [setAddEdits, setAdd, if_neg hmem, if_neg hmem, setBuiltEncoding_concat, ← henc]
  cases enc with
  | intset | listpack =>
    split_ifs <;> rfl
  | _ => rfl

lemma setBuilt_built (members : List Bytes) : SetBuilt S members (built setKind (setAddEdits S) members) := by
  refine built_induction ?_ ?_ members
  · exact ⟨rfl, nodup_nil, by simp [setBuiltEncoding, intPart, setKind]⟩
  · rintro members m h ⟨hitems, hnodup, henc⟩
    rw [edited_setAddEdits h m henc]
    constructor
    · rw [foldl_append, ← hitems]
      rfl
    · unfold setAdd
      split_ifs with hmem
      · exact hnodup
      · exact (perm_append_singleton m h.items).nodup_iff.2 (nodup_cons.2 ⟨hmem, hnodup⟩)
    · rfl

/-! ## Sorted sets -/

/-- The sorted set after these additions. -/
structure ZsetBuilt (S : Settings) (adds : List (Bytes × Score)) (h : Held (Bytes × Score)) : Prop where
  mem : ∀ m, m ∈ h.items.map Prod.fst ↔ m ∈ adds.map Prod.fst
  nodup : (h.items.map Prod.fst).Nodup
  enc : h.enc = .listpack ∨ h.enc = .skiplist
  packed : h.enc = .listpack ↔ adds = [] ∨
    (∀ m ∈ adds.map Prod.fst, (m.length : Int) ≤ S.E.zsetMaxListpackValue) ∧
      (h.items.length : Int) ≤ S.E.zsetMaxListpackEntries

lemma zScore_isNone_iff (es : List (Bytes × Score)) (m : Bytes) : (zScore es m).isNone = true ↔ m ∉ es.map Prod.fst :=
  lookup_isNone_iff es m

variable (h : Held (Bytes × Score))

lemma zPlaceEdits_members (enc : Encoding) (e : Bytes × Score) : (h.edited (zPlaceEdits S enc h.items e)).enc = h.enc ∧
      ((h.edited (zPlaceEdits S enc h.items e)).items.map Prod.fst).Perm
        (if e.1 ∉ h.items.map Prod.fst then e.1 :: h.items.map Prod.fst else h.items.map Prod.fst) := by
  unfold zPlaceEdits
  cases hscore : zScore h.items e.1 with
  | none =>
    have hnew := (zScore_isNone_iff h.items e.1).1 (by rw [hscore]; rfl)
    rw [if_pos hnew]
    exact ⟨rfl, (zInsert_perm e h.items).map Prod.fst⟩
  | some old =>
  have hold : e.1 ∈ h.items.map Prod.fst := by
    by_contra hnew
    have := (zScore_isNone_iff h.items e.1).2 hnew
    rw [hscore] at this
    cases this
  have hmoved : ((zInsert S.E e (zRemoveItem h.items e.1)).map Prod.fst).Perm (h.items.map Prod.fst) := by
    obtain ⟨x, hx, hxe⟩ := mem_map.1 hold
    obtain ⟨y, pre, post, -, hy, hsplit, herase⟩ :=
      exists_of_eraseP (p := fun e' : Bytes × Score => decide (e'.1 = e.1)) hx (decide_eq_true hxe)
    have hye : y.1 = e.1 := of_decide_eq_true hy
    have hsame : (e :: zRemoveItem h.items e.1).map Prod.fst = (y :: (pre ++ post)).map Prod.fst := by
      rw [zRemoveItem, herase, map_cons, map_cons, hye]
    refine ((zInsert_perm e _).map Prod.fst).trans ?_
    rw [hsame, hsplit]
    exact (perm_middle.symm).map Prod.fst
  simp only
  split_ifs
  all_goals first | exact ⟨rfl, List.Perm.refl _⟩ | exact ⟨rfl, hmoved⟩

lemma edited_zAddEdits (e : Bytes × Score) : (h.edited (zAddEdits S h e)).enc =
        (if h.enc = .listpack ∧ zsetShouldPromote S h.items e.1 then .skiplist else h.enc) ∧
      ((h.edited (zAddEdits S h e)).items.map Prod.fst).Perm
        (if e.1 ∉ h.items.map Prod.fst then e.1 :: h.items.map Prod.fst else h.items.map Prod.fst) := by
  unfold zAddEdits
  by_cases hpromote : h.enc = .listpack ∧ zsetShouldPromote S h.items e.1 = true
  · rw [if_pos hpromote, if_pos hpromote]
    exact zPlaceEdits_members ⟨h.items, .skiplist⟩ .skiplist e
  · rw [if_neg hpromote, if_neg hpromote]
    exact zPlaceEdits_members h h.enc e

lemma zsetShouldPromote_iff (es : List (Bytes × Score)) (member : Bytes) : zsetShouldPromote S es member = true ↔
      ¬(member.length : Int) ≤ S.E.zsetMaxListpackValue ∨
        member ∉ es.map Prod.fst ∧ S.E.zsetMaxListpackEntries ≤ es.length := by
  rw [zsetShouldPromote, Bool.or_eq_true, Bool.and_eq_true, zScore_isNone_iff, decide_eq_true_iff, decide_eq_true_iff,
    not_le]

lemma zsetBuilt_built (adds : List (Bytes × Score)) : ZsetBuilt S adds (built zsetKind (zAddEdits S) adds) := by
  refine built_induction ?_ ?_ adds
  · exact ⟨fun _ => Iff.rfl, nodup_nil, .inl rfl, iff_of_true rfl (.inl rfl)⟩
  · rintro adds e h ⟨hmem, hnodup, henc, hpacked⟩
    obtain ⟨henc', hperm⟩ := edited_zAddEdits h e
    generalize h.edited (zAddEdits S h e) = h' at henc' hperm
    have hlength : (h'.items.length : Int) =
        if e.1 ∉ h.items.map Prod.fst then (h.items.length : Int) + 1 else h.items.length := by
      have := hperm.length_eq
      rw [length_map] at this
      rw [this]
      split_ifs <;> simp
    have hfirst : adds = [] →
        (∀ m ∈ adds.map Prod.fst, (m.length : Int) ≤ S.E.zsetMaxListpackValue) ∧ e.1 ∉ h.items.map Prod.fst := by
      rintro rfl
      simp [hmem]
    constructor
    · intro m
      rw [hperm.mem_iff, map_append, mem_append, map_singleton, mem_singleton, ← hmem]
      split_ifs with hold
      · refine ⟨.inl, fun h => h.elim id ?_⟩
        rintro rfl
        exact hold
      · rw [mem_cons, or_comm]
    · rw [hperm.nodup_iff]
      split_ifs with hold
      · exact hnodup
      · exact nodup_cons.2 ⟨hold, hnodup⟩
    · rw [henc']
      split_ifs
      · exact .inr rfl
      · exact henc
    · rw [henc', stays_packed (by decide) hpacked (zsetShouldPromote_iff h.items e.1) hlength hfirst, map_append,
        forall_mem_append, map_singleton, forall_mem_singleton, not_not]
      simp

/-! ## What a snapshot makes of them -/

lemma maxLen_le_iff (hne : bs ≠ []) {limit : Int} : (maxLen bs : Int) ≤ limit ↔ ∀ b ∈ bs, (b.length : Int) ≤ limit := by
  have hfold : ∀ (ns : List Nat) (acc : Nat), ((ns.foldl max acc : Nat) : Int) ≤ limit ↔
      (acc : Int) ≤ limit ∧ ∀ n ∈ ns, (n : Int) ≤ limit := by
    intro ns
    induction ns with
    | nil => simp
    | cons n ns ih =>
      intro acc
      rw [foldl_cons, ih, forall_mem_cons, Nat.cast_max, max_le_iff, and_assoc]
  obtain ⟨b, bs, rfl⟩ := exists_cons_of_ne_nil hne
  rw [maxLen, hfold, forall_mem_map]
  constructor
  · exact fun h => h.2
  · intro h
    have := h b mem_cons_self
    exact ⟨by omega, h⟩

/-- The insertions after which a loaded value has the encoding it was saved with. Two bytes are counted for a header
when a list is loaded, one when it is pushed to, and none for the element itself; a value that was set and replaced
is no longer there; the members an intset took are looked at when the set is loaded. A string is always loaded raw. -/
def Build.Kept (S : Settings) : Build → Prop
  | .str b => isCanonicalInt b = false ∧ embstrSizeLimit < b.length
  | .list pushes =>
    0 ≤ S.server.listMaxListpackSize ∨ (∃ p ∈ pushes, listMaxListpackValue < p.2.length) ∨
      ¬(size (pushes.map Prod.snd) + pushes.length ≤ listpackBudget S.server.listMaxListpackSize + 1 ∧
        listpackBudget S.server.listMaxListpackSize < size (pushes.map Prod.snd) + 2 * pushes.length)
  | .hash sets =>
    (∃ e ∈ sets, S.E.hashMaxListpackValue < e.2.length) →
      S.E.hashMaxListpackEntries < (sets.foldl (fun es e => hashSet es e.1 e.2) []).length ∨
        ∃ e ∈ sets.foldl (fun es e => hashSet es e.1 e.2) [],
          S.E.hashMaxListpackValue < e.1.length ∨ S.E.hashMaxListpackValue < e.2.length
  | .set members =>
    let ms := members.foldl setAdd []
    intPart S ms < ms.length → (ms.length : Int) ≤ S.E.setMaxListpackEntries →
      (∀ m ∈ ms.drop (intPart S ms), (m.length : Int) ≤ S.E.setMaxListpackValue) →
        ∀ m ∈ ms.take (intPart S ms), (m.length : Int) ≤ S.E.setMaxListpackValue
  | .zset _ => True

lemma enc_eq_iff {a b small large : Encoding} (ha : a = small ∨ a = large) (hb : b = small ∨ b = large)
    (hne : small ≠ large) : a = b ↔ (a = small ↔ b = small) := by
  rcases ha with rfl | rfl <;> rcases hb with rfl | rfl <;> simp [hne, hne.symm]

variable (items : List Bytes)

lemma listEncoding_cases :
    listEncoding limit items = .listpack ∨ listEncoding limit items = .quicklist := by
  unfold listEncoding
  split_ifs
  · exact .inr rfl
  · exact .inl rfl

lemma listEncoding_eq_listpack_iff :
    listEncoding limit items = .listpack ↔ (∀ b ∈ items, b.length ≤ listMaxListpackValue) ∧
      if 0 ≤ limit then (items.length : Int) ≤ limit else size items + 2 * items.length ≤ listpackBudget limit := by
  have hsum : (items.map fun it => it.length + 2).sum = size items + 2 * items.length := by
    rw [sum_map_add, size, map_const', sum_replicate, smul_eq_mul, Nat.mul_comm]
  have hlong : items.any (fun it => decide (listMaxListpackValue < it.length)) = false ↔
      ∀ b ∈ items, b.length ≤ listMaxListpackValue := by simp
  have hbig : listTooBig limit items = false ↔
      if 0 ≤ limit then (items.length : Int) ≤ limit else size items + 2 * items.length ≤ listpackBudget limit := by
    rw [listTooBig, hsum]
    split_ifs <;> simp
  rw [listEncoding, ← hlong, ← hbig, ← Bool.or_eq_false_iff]
  split_ifs with h
  · simp [h]
  · simpa using h

lemma list_kept_iff {pushes : List (ListEnd × Bytes)} (hne : pushes ≠ []) {h : Held Bytes} (hb : ListBuilt S pushes h) :
    listEncoding S.server.listMaxListpackSize h.items = h.enc ↔ (Build.list pushes).Kept S := by
  obtain ⟨hitems, henc, hpacked⟩ := hb
  have hlen : h.items.length = pushes.length := hitems.length_eq.trans (length_map _)
  have hshort : (∀ b ∈ h.items, b.length ≤ listMaxListpackValue) ↔
      ∀ b ∈ pushes.map Prod.snd, b.length ≤ listMaxListpackValue := by simp only [hitems.mem_iff]
  have hlong : (∃ p ∈ pushes, listMaxListpackValue < p.2.length) ↔
      ¬∀ b ∈ pushes.map Prod.snd, b.length ≤ listMaxListpackValue := by
    simp only [forall_mem_map, not_forall, not_le, exists_prop]
  rw [enc_eq_iff (listEncoding_cases _ _) henc (by decide), listEncoding_eq_listpack_iff, hpacked, hshort,
    size_perm hitems, hlen, Build.Kept, hlong, FitsPushed, map_eq_nil_iff, length_map]
  by_cases hall : ∀ b ∈ pushes.map Prod.snd, b.length ≤ listMaxListpackValue
  · by_cases hlimit : 0 ≤ S.server.listMaxListpackSize
    · simp only [hlimit, if_true, true_or]
    · simp only [iff_true_intro hall, hlimit, if_false, true_and, not_true_eq_false, false_or, hne]
      omega
  · simp only [hall, false_and, not_false_eq_true, true_or, or_true]

lemma hashEncoding_cases (es : List (Bytes × Bytes)) :
    hashEncoding S.E es = .listpack ∨ hashEncoding S.E es = .hashtable := by
  unfold hashEncoding
  dsimp only
  split_ifs
  · exact .inl rfl
  · exact .inr rfl

lemma hashEncoding_eq_listpack_iff (hne : es ≠ []) :
    hashEncoding S.E es = .listpack ↔ (es.length : Int) ≤ S.E.hashMaxListpackEntries ∧
      ∀ e ∈ es, (e.1.length : Int) ≤ S.E.hashMaxListpackValue ∧ (e.2.length : Int) ≤ S.E.hashMaxListpackValue := by
  have hflat : es.flatMap (fun e => [e.1, e.2]) ≠ [] := by
    obtain ⟨e, es, rfl⟩ := exists_cons_of_ne_nil hne
    exact cons_ne_nil _ _
  have hall : (∀ b ∈ es.flatMap (fun e => [e.1, e.2]), (b.length : Int) ≤ S.E.hashMaxListpackValue) ↔
      ∀ e ∈ es, (e.1.length : Int) ≤ S.E.hashMaxListpackValue ∧ (e.2.length : Int) ≤ S.E.hashMaxListpackValue := by
    simp only [forall_mem_flatMap, forall_mem_cons, not_mem_nil, false_implies, implies_true, and_true]
  rw [← hall, ← maxLen_le_iff hflat, hashEncoding]
  split_ifs with h
  · exact iff_of_true rfl h
  · exact iff_of_false (by decide) h

lemma hash_kept_iff {sets : List (Bytes × Bytes)} (hne : sets ≠ []) {h : Held (Bytes × Bytes)}
    (hb : HashBuilt S sets h) (hes : es.Perm h.items) : hashEncoding S.E es = h.enc ↔ (Build.hash sets).Kept S := by
  obtain ⟨hitems, -, henc, hpacked⟩ := hb
  obtain ⟨hfrom, hfields⟩ := hashSets_mem sets
  rw [← hitems] at hfrom hfields
  have hes' : es ≠ [] := by
    obtain ⟨e, he⟩ := exists_mem_of_ne_nil sets hne
    obtain ⟨x, hx, -⟩ := mem_map.1 (hfields e he)
    exact ne_nil_of_mem (hes.mem_iff.2 hx)
  rw [enc_eq_iff (hashEncoding_cases es) henc (by decide), hashEncoding_eq_listpack_iff hes', hpacked, hes.length_eq,
    Build.Kept, ← hitems]
  simp only [hes.mem_iff, hne, false_or]
  -- what is no longer there was set once, and what is there was set too
  have hlong : (∃ e ∈ h.items, S.E.hashMaxListpackValue < e.1.length ∨ S.E.hashMaxListpackValue < e.2.length) ↔
      ¬∀ e ∈ h.items,
        (e.1.length : Int) ≤ S.E.hashMaxListpackValue ∧ (e.2.length : Int) ≤ S.E.hashMaxListpackValue := by
    simp only [not_forall, not_and_or, not_le, exists_prop]
  rw [hlong, ← not_le, ← not_and_or]
  by_cases hsets : ∀ e ∈ sets,
      (e.1.length : Int) ≤ S.E.hashMaxListpackValue ∧ (e.2.length : Int) ≤ S.E.hashMaxListpackValue
  · have hshort := fun e he => hsets e (hfrom e he)
    refine iff_of_true ?_ ?_
    · rw [iff_true_intro hsets, iff_true_intro hshort, and_true, true_and]
    · rintro ⟨e, he, hv⟩
      exact absurd (hsets e he).2 (not_le.2 hv)
  rw [iff_false_intro hsets, false_and, iff_false]
  refine ⟨fun h _ => h, fun h hshort => ?_⟩
  refine h ?_ hshort
  by_contra hnone
  refine hsets fun e he => ⟨?_, not_lt.1 fun hv => hnone ⟨e, he, hv⟩⟩
  obtain ⟨x, hx, hxe⟩ := mem_map.1 (hfields e he)
  exact hxe ▸ (hshort.2 x hx).1

lemma setEncoding_eq (hne : ms ≠ []) : setEncoding S.E ms = if intPart S ms = ms.length then .intset
      else if (∀ m ∈ ms, (m.length : Int) ≤ S.E.setMaxListpackValue) ∧ (ms.length : Int) ≤ S.E.setMaxListpackEntries
        then .listpack else .hashtable := by
  have hroom : (ms.length : Int) ≤ S.E.setMaxIntsetEntries ↔ ms.length ≤ S.E.setMaxIntsetEntries.toNat := by
    have := length_pos_iff.2 hne
    omega
  simp [setEncoding, maxLen_le_iff hne, intPart_eq_length_iff, hroom, and_comm]

lemma setEncoding_perm {ms' : List Bytes} (h : ms.Perm ms') : setEncoding S.E ms = setEncoding S.E ms' := by
  have hall : ms.all isCanonicalInt = ms'.all isCanonicalInt := by
    rw [Bool.eq_iff_iff, all_eq_true, all_eq_true]
    simp [h.mem_iff]
  have hmax : maxLen ms = maxLen ms' := (h.map List.length).foldl_eq 0
  rw [setEncoding, setEncoding, hall, hmax, h.length_eq]

lemma set_kept_iff {members : List Bytes} (hne : members ≠ []) {h : Held Bytes} (hb : SetBuilt S members h)
    (hms : ms.Perm h.items) : setEncoding S.E ms = h.enc ↔ (Build.set members).Kept S := by
  obtain ⟨hitems, -, henc⟩ := hb
  have hle := intPart_le (S := S) h.items
  have hne' : h.items ≠ [] := by
    obtain rfl | ⟨init, m, rfl⟩ := eq_nil_or_concat' members
    · exact absurd rfl hne
    rw [hitems, foldl_append, foldl_cons, foldl_nil, setAdd]
    split_ifs with hm
    · exact ne_nil_of_mem hm
    · exact append_ne_nil_of_right_ne_nil _ (cons_ne_nil _ _)
  have hsplit : (∀ m ∈ h.items, (m.length : Int) ≤ S.E.setMaxListpackValue) ↔
      (∀ m ∈ h.items.take (intPart S h.items), (m.length : Int) ≤ S.E.setMaxListpackValue) ∧
        ∀ m ∈ h.items.drop (intPart S h.items), (m.length : Int) ≤ S.E.setMaxListpackValue := by
    rw [← forall_mem_append, take_append_drop]
  rw [setEncoding_perm hms, setEncoding_eq hne', henc, setBuiltEncoding, Build.Kept, ← hitems]
  by_cases hall : intPart S h.items = h.items.length
  · rw [if_pos hall, if_pos hall]
    exact iff_of_true rfl fun hlt => absurd hlt (by omega)
  have hlt : intPart S h.items < h.items.length := by omega
  rw [if_neg hall, if_neg hall]
  simp only [hsplit]
  by_cases hn : (h.items.length : Int) ≤ S.E.setMaxListpackEntries
  · by_cases hdrop : ∀ m ∈ h.items.drop (intPart S h.items), (m.length : Int) ≤ S.E.setMaxListpackValue
    · by_cases htake : ∀ m ∈ h.items.take (intPart S h.items), (m.length : Int) ≤ S.E.setMaxListpackValue
      · exact iff_of_true (by rw [if_pos ⟨⟨htake, hdrop⟩, hn⟩, if_pos ⟨hdrop, hn⟩]) fun _ _ _ => htake
      refine iff_of_false ?_ fun h => htake (h hlt hn hdrop)
      rw [if_neg fun h => htake h.1.1, if_pos ⟨hdrop, hn⟩]
      decide
    · refine iff_of_true ?_ fun _ _ h => absurd h hdrop
      rw [if_neg fun h => hdrop h.1.2, if_neg fun h => hdrop h.1]
  · refine iff_of_true ?_ fun _ h => absurd h hn
    rw [if_neg fun h => hn h.2, if_neg fun h => hn h.2]

lemma zset_kept {adds : List (Bytes × Score)} (hne : adds ≠ []) {h : Held (Bytes × Score)} (hb : ZsetBuilt S adds h)
    {es : List (Bytes × Score)} (hes : es.Perm h.items) : zsetEncoding S.E es = h.enc := by
  obtain ⟨hmem, -, henc, hpacked⟩ := hb
  have hmembers : ∀ m, m ∈ es.map Prod.fst ↔ m ∈ adds.map Prod.fst :=
    fun m => ((hes.map Prod.fst).mem_iff).trans (hmem m)
  have hne' : es.map Prod.fst ≠ [] := by
    obtain ⟨e, he⟩ := exists_mem_of_ne_nil adds hne
    exact ne_nil_of_mem ((hmembers e.1).2 (mem_map_of_mem he))
  have hcases : zsetEncoding S.E es = .listpack ∨ zsetEncoding S.E es = .skiplist := by
    unfold zsetEncoding
    split_ifs
    · exact .inl rfl
    · exact .inr rfl
  rw [enc_eq_iff hcases henc (by decide), hpacked, or_iff_right hne, ← hes.length_eq, zsetEncoding]
  simp only [maxLen_le_iff hne', hmembers]
  split_ifs with h
  · exact iff_of_true rfl h.symm
  · exact iff_of_false (by decide) fun h' => h h'.symm

lemma Build.loadedObject_enc_iff {b : Build} (hb : b.Some) {v : Value} (hv : v.Same (b.object S).val) :
    (loadedObject S.E S.server.listMaxListpackSize v).enc = (b.object S).enc ↔ b.Kept S := by
  cases b with
  | str b =>
    have hval : (tryEncodeString b).val = .str b := by
      unfold tryEncodeString embString rawString
      split_ifs <;> rfl
    simp only [Build.object, hval] at hv
    cases v with
    | str b' => simp only [Build.object, Build.Kept, loadedObject, tryEncodeString, embString, rawString]; grind
    | _ => cases hv
  | list pushes =>
    cases v with
    | list items =>
      obtain rfl : items = _ := Value.list.inj hv
      exact list_kept_iff hb (listBuilt_built pushes)
    | _ => cases hv
  | hash sets =>
    cases v with
    | hash es => exact hash_kept_iff hb (hashBuilt_built sets) hv
    | _ => cases hv
  | set members =>
    cases v with
    | set ms => exact set_kept_iff hb (setBuilt_built members) hv
    | _ => cases hv
  | zset adds =>
    cases v with
    | zset es => exact iff_of_true (zset_kept hb (zsetBuilt_built adds) hv) trivial
    | _ => cases hv

end Gopherdis.Encoded

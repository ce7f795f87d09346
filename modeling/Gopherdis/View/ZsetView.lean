/-
A sorted set that is a listpack of members and scores while it is short, and a map with a skip list from then on. In
both it is the same sorted list of elements: whatever is added and removed, under any limits and with any levels for
the nodes, the results are those of the list. Scores come from any linear order; the listpack has them as text.
-/
import Gopherdis.Datastruct.Listpack
import Gopherdis.Datastruct.ZSet
import Gopherdis.Lib.Calls
import Gopherdis.Lib.Search

namespace Gopherdis.View

open Lib Datastruct List Function Listpack

structure ZsetLimits where
  maxListpackEntries : Int
  maxListpackValue : Int

/-- `formatFloat` and `ParseFloat`: a score can be read back from its text. -/
structure ScoreText (S : Type) where
  format : S → Bytes
  parse : Bytes → Option S
  zero : S
  parse_format : ∀ s, parse (format s) = some s

/-- One of the two pointers of a view is set. -/
inductive ZsetView (S : Type)
  | lp (l : Listpack)
  | zs (z : ZSet S)

namespace ZsetView

variable {S : Type} (txt : ScoreText S)

def len : ZsetView S → Int
  | .zs z => z.len
  | .lp l => ((l.n / 2 : Nat) : Int)

def score (member : Bytes) : ZsetView S → Option (Option S)
  | .zs z => some (z.score member)
  | .lp l => do
    match ← l.find member 0 2 with
    | none => some none
    | some i =>
      let text ← l.get ((i : Int) + 1)
      some (txt.parse text)

/-- One string of the walk: a member is kept until its score comes. -/
def elementStep (s : Bytes × List (ZSetElement S)) (i : Nat) (v : Bytes) : (Bytes × List (ZSetElement S)) × Bool :=
  if i % 2 = 0 then ((v, s.2), true) else ((s.1, s.2 ++ [⟨s.1, (txt.parse v).getD txt.zero⟩]), true)

def elementsPacked (l : Listpack) : Option (List (ZSetElement S)) := (l.forEach (elementStep txt) ([], [])).map Prod.snd

def elements : ZsetView S → Option (List (ZSetElement S))
  | .zs z => some (z.range 0 (-1) false)
  | .lp l => elementsPacked txt l

def range (start stop : Int) (reverse : Bool) : ZsetView S → Option (List (ZSetElement S))
  | .zs z => some (z.range start stop reverse)
  | .lp l => do
    let all ← elementsPacked txt l
    some (cut (if reverse then all.reverse else all) start stop)

def shouldPromote (lim : ZsetLimits) (l : Listpack) (member : Bytes) : Option Bool :=
  if lim.maxListpackValue < member.length then some true
  else do
    match ← l.find member 0 2 with
    | some _ => some false
    | none => some (lim.maxListpackEntries ≤ ((l.n / 2 : Nat) : Int))

variable [LinearOrder S]

/-- The condition of the search: the element with this index comes behind. -/
def isBehind (all : List (ZSetElement S)) (member : Bytes) (score : S) (i : Nat) : Bool :=
  match all[i]? with
  | some e => if e.score ≠ score then score < e.score else member < e.member
  | none => false

/-- The place is found by binary search, and both strings go there. -/
def insertOrdered (l : Listpack) (member scoreStr : Bytes) (score : S) : Option Listpack := do
  let all ← elementsPacked txt l
  let idx := search all.length (isBehind all member score)
  let r ← l.insertAt ((2 * idx : Nat) : Int) member
  let r' ← r.1.insertAt (((2 * idx : Nat) : Int) + 1) scoreStr
  some r'.1

def addPacked (l : Listpack) (member : Bytes) (score : S) : Option (ZsetView S × (Bool × Bool)) := do
  let scoreStr := txt.format score
  match ← l.find member 0 2 with
  | some i =>
    let old ← l.get ((i : Int) + 1)
    if old = scoreStr then some (.lp l, (false, false))
    else
      let r ← l.deleteRange i 2
      let l' ← insertOrdered txt r.1 member scoreStr score
      some (.lp l', (false, true))
  | none =>
    let l' ← insertOrdered txt l member scoreStr score
    some (.lp l', (true, false))

/-- The elements one after the other into a new set; the node of the `i`-th has `levels i`. -/
def promote (levels : Nat → Level) (l : Listpack) : Option (ZSet S) := do
  let all ← elementsPacked txt l
  some (all.zipIdx.foldl (fun z p => (z.add p.1.member p.1.score (levels p.2)).1) (.new txt.zero))

/-- `Add`, with the level of the node if there is a new one and of the nodes of a promotion. -/
def add (lim : ZsetLimits) (level : Level) (levels : Nat → Level) (member : Bytes) (score : S) :
    ZsetView S → Option (ZsetView S × (Bool × Bool))
  | .zs z => some (.zs (z.add member score level).1, (z.add member score level).2)
  | .lp l => do
    if ← shouldPromote lim l member then
      let z ← promote txt levels l
      some (.zs (z.add member score level).1, (z.add member score level).2)
    else addPacked txt l member score

def remove (member : Bytes) : ZsetView S → Option (ZsetView S × Bool)
  | .zs z => some (.zs (z.remove member).1, (z.remove member).2)
  | .lp l => do
    match ← l.find member 0 2 with
    | none => some (.lp l, false)
    | some i =>
      let r ← l.deleteRange i 2
      some (.lp r.1, true)

/-! ## Sorted lists -/

section
variable {m : Bytes → Option S} {es : List (ZSetElement S)}

omit [LinearOrder S] in
def lookup (es : List (ZSetElement S)) (member : Bytes) : Option S :=
  (es.find? fun e => e.member = member).map ZSetElement.score

/-- The list with an element, in its place, instead of any other with the member. -/
def put (es : List (ZSetElement S)) (t : ZSetElement S) : List (ZSetElement S) :=
  es.filter (fun e => e.member ≠ t.member ∧ e < t) ++ t :: es.filter fun e => e.member ≠ t.member ∧ t < e

omit [LinearOrder S] in
def without (es : List (ZSetElement S)) (member : Bytes) : List (ZSetElement S) := es.filter fun e => e.member ≠ member

lemma lookup_eq (h : ZSet.Lists m es) (member : Bytes) : lookup es member = m member := by
  unfold lookup
  cases hfind : es.find? fun e => e.member = member with
  | none =>
    cases hm : m member with
    | none => rfl
    | some score =>
      have hmem := (h.2 ⟨member, score⟩).2 hm
      simpa using find?_eq_none.1 hfind _ hmem
  | some e =>
    have hmember : e.member = member := by simpa using find?_some hfind
    rw [← hmember]
    exact ((h.2 e).1 (mem_of_find?_eq_some hfind)).symm

lemma lists_without (h : ZSet.Lists m es) (member : Bytes) : ZSet.Lists (update m member none) (without es member) := by
  refine ⟨h.1.filter _, fun e => ?_⟩
  rw [without, mem_filter, h.2, update_apply]
  split_ifs with hmember <;> simp [hmember]

lemma eq_of_member (h : ZSet.Lists m es) {a b : ZSetElement S} (ha : a ∈ es) (hb : b ∈ es)
    (hmember : a.member = b.member) : a = b := by
  have hscore := (h.2 a).1 ha
  rw [hmember, (h.2 b).1 hb, Option.some_inj] at hscore
  cases a
  cases b
  simp_all

lemma nodup_members (h : ZSet.Lists m es) : (es.map ZSetElement.member).Nodup :=
  pairwise_map.2 (h.1.imp_of_mem fun ha hb hlt hmember => hlt.ne (eq_of_member h ha hb hmember))

variable {t : ZSetElement S}

lemma member_ne {A B : List (ZSetElement S)} (h : ZSet.Lists m (A ++ t :: B)) : ∀ e ∈ A ++ B, e.member ≠ t.member := by
  intro e he hmember
  have hmem : e ∈ A ++ t :: B := perm_middle.mem_iff.2 (mem_cons_of_mem t he)
  obtain rfl := eq_of_member h hmem (by simp) hmember
  have hnodup : (A ++ e :: B).Nodup := h.1.imp fun hab => hab.ne
  exact (nodup_cons.1 (nodup_middle.1 hnodup)).1 he

lemma lists_delete {A B : List (ZSetElement S)} (h : ZSet.Lists m (A ++ t :: B)) :
    ZSet.Lists (update m t.member none) (A ++ B) := by
  have hwithout : without (A ++ t :: B) t.member = A ++ B := by
    have hne := member_ne h
    rw [without, filter_append, filter_cons_of_neg (by simp), ← filter_append]
    exact filter_eq_self.2 fun e he => decide_eq_true (hne e he)
  rw [← hwithout]
  exact lists_without h t.member

lemma mem_put {e : ZSetElement S} : e ∈ put es t ↔ e = t ∨ e ∈ es ∧ e.member ≠ t.member := by
  simp only [put, mem_append, mem_cons, mem_filter, decide_eq_true_eq]
  constructor
  · rintro (⟨he, hne, -⟩ | rfl | ⟨he, hne, -⟩)
    · exact .inr ⟨he, hne⟩
    · exact .inl rfl
    · exact .inr ⟨he, hne⟩
  · rintro (rfl | ⟨he, hne⟩)
    · exact .inr (.inl rfl)
    · rcases lt_trichotomy e t with hlt | rfl | hlt
      · exact .inl ⟨he, hne, hlt⟩
      · exact absurd rfl hne
      · exact .inr (.inr ⟨he, hne, hlt⟩)

lemma lists_put (h : ZSet.Lists m es) (t : ZSetElement S) :
    ZSet.Lists (update m t.member (some t.score)) (put es t) := by
  have hbefore : ∀ e ∈ es.filter fun e => e.member ≠ t.member ∧ e < t, e < t := by
    intro e he
    simpa using (of_decide_eq_true (mem_filter.1 he).2).2
  have hafter : ∀ e ∈ es.filter fun e => e.member ≠ t.member ∧ t < e, t < e := by
    intro e he
    simpa using (of_decide_eq_true (mem_filter.1 he).2).2
  refine ⟨pairwise_append.2 ⟨h.1.filter _, pairwise_cons.2 ⟨hafter, h.1.filter _⟩, ?_⟩, fun e => ?_⟩
  · intro a ha b hb
    rcases mem_cons.1 hb with rfl | hb
    · exact hbefore a ha
    · exact (hbefore a ha).trans (hafter b hb)
  · rw [mem_put, h.2, update_apply]
    split_ifs with hmember
    · rcases e with ⟨emember, escore⟩
      rcases t with ⟨tmember, tscore⟩
      simp only at hmember ⊢
      simp [hmember, eq_comm]
    refine ⟨?_, fun hm => .inr ⟨hm, hmember⟩⟩
    rintro (rfl | ⟨hm, -⟩)
    · exact absurd rfl hmember
    · exact hm

lemma lists_insert {A B : List (ZSetElement S)} (h : ZSet.Lists m (A ++ B))
    (hm : m t.member = none) (hA : ∀ e ∈ A, ¬t < e) (hB : ∀ e ∈ B, t < e) :
    ZSet.Lists (update m t.member (some t.score)) (A ++ t :: B) := by
  have hnew : ∀ e ∈ A ++ B, e.member ≠ t.member := by
    intro e he hmember
    have hsome := (h.2 e).1 he
    rw [hmember, hm] at hsome
    cases hsome
  obtain ⟨hsortedA, hsortedB, hcross⟩ := pairwise_append.1 h.1
  have hA' : ∀ e ∈ A, e < t := fun e he =>
    lt_of_le_of_ne (not_lt.1 (hA e he)) fun heq => hnew e (mem_append_left B he) (by rw [heq])
  refine ⟨pairwise_append.2 ⟨hsortedA, pairwise_cons.2 ⟨hB, hsortedB⟩, ?_⟩, fun e => ?_⟩
  · intro a ha b hb
    rcases mem_cons.1 hb with rfl | hb
    · exact hA' a ha
    · exact hcross a ha b hb
  · rw [← (lists_put h t).2 e, mem_put, perm_middle.mem_iff, mem_cons]
    exact or_congr_right ⟨fun he => ⟨he, hnew e he⟩, fun he => he.1⟩

end

/-! ## The elements of a view -/

omit [LinearOrder S] in
def pair (e : ZSetElement S) : Bytes × Bytes := (e.member, txt.format e.score)

/-- The view has the entries of the map; a listpack has the elements in order. -/
def Holds (m : Bytes → Option S) : ZsetView S → Prop
  | .lp l => ∃ es, ZSet.Lists m es ∧ l.Packs (flat (es.map (pair txt)))
  | .zs z => z.Holds m

variable {txt} {m : Bytes → Option S} {es : List (ZSetElement S)} {l : Listpack}

omit [LinearOrder S] in
lemma elementsPacked_eq (hp : l.Packs (flat (es.map (pair txt)))) : elementsPacked txt l = some es := by
  have hvisit : ∀ (es : List (ZSetElement S)) (idx : Nat) (member : Bytes) (out : List (ZSetElement S)),
      (visit (elementStep txt) (flat (es.map (pair txt))) (2 * idx) (member, out)).2 = out ++ es := by
    intro es
    induction es with
    | nil => intro idx member out; simp [visit, flat]
    | cons e es ih =>
    intro idx member out
    have hnext : 2 * idx + 1 + 1 = 2 * (idx + 1) := by omega
    have hodd : (2 * idx + 1) % 2 ≠ 0 := by omega
    simp only [map_cons, flat_cons, visit, elementStep, Nat.mul_mod_right, if_true, if_neg hodd,
      hnext]
    rw [ih]
    simp [pair, txt.parse_format]
  rw [elementsPacked, forEach_eq _ hp]
  simpa using hvisit es 0 [] []

omit [LinearOrder S] in
lemma map_fst_pair (es : List (ZSetElement S)) : (es.map (pair txt)).map Prod.fst = es.map ZSetElement.member := by
  rw [map_map]
  rfl

lemma find_spec (h : ZSet.Lists m es) (hp : l.Packs (flat (es.map (pair txt)))) (member : Bytes) :
    (m member = none ∧ l.find member 0 2 = some none) ∨
      ∃ A B score, es = A ++ ⟨member, score⟩ :: B ∧ m member = some score ∧
        l.find member 0 2 = some (some (2 * A.length)) := by
  rw [find_two hp, map_fst_pair]
  cases hm : m member with
  | none =>
    refine .inl ⟨rfl, congrArg some (if_neg ?_)⟩
    rw [mem_map]
    rintro ⟨e, he, rfl⟩
    rw [(h.2 e).1 he] at hm
    cases hm
  | some score =>
    obtain ⟨A, B, rfl⟩ := append_of_mem ((h.2 ⟨member, score⟩).2 hm)
    have hA : ∀ e ∈ A, e.member ≠ member := fun e he => member_ne h e (mem_append_left B he)
    refine .inr ⟨A, B, score, rfl, rfl, ?_⟩
    rw [if_pos (by simp), idxOf_map_middle hA rfl]

lemma isBehind_eq (es : List (ZSetElement S)) (member : Bytes) (score : S) {i : Nat} (hi : i < es.length) :
    isBehind es member score i = decide ((⟨member, score⟩ : ZSetElement S) < es[i]) := by
  rw [isBehind, getElem?_eq_getElem hi, Bool.eq_iff_iff, decide_eq_true_iff, element_lt_iff]
  simp only
  split_ifs with hscore
  · simp [Ne.symm hscore]
  · simp [not_not.1 hscore]

lemma insertOrdered_spec (h : ZSet.Lists m es) (hp : l.Packs (flat (es.map (pair txt)))) {member : Bytes}
    (hm : m member = none) (score : S) : ∃ l' es', insertOrdered txt l member (txt.format score) score = some l' ∧
      ZSet.Lists (update m member (some score)) es' ∧ l'.Packs (flat (es'.map (pair txt))) := by
  have hmono : es.Pairwise fun a b => decide ((⟨member, score⟩ : ZSetElement S) < a) = true →
      decide ((⟨member, score⟩ : ZSetElement S) < b) = true := by
    refine h.1.imp fun hab ha => ?_
    exact decide_eq_true ((of_decide_eq_true ha).trans hab)
  obtain ⟨A, B, hes, hidx, hA, hB⟩ := search_split hmono fun i hi => isBehind_eq es member score hi
  have hp' : l.Packs (flat (A.map (pair txt) ++ B.map (pair txt))) := by rwa [← map_append, ← hes]
  obtain ⟨l1, l2, hfirst, hsecond, hp2⟩ := insertAt_flat hp' (pair txt ⟨member, score⟩)
  rw [length_map] at hfirst hsecond
  refine ⟨l2, A ++ ⟨member, score⟩ :: B, ?_, ?_, by simpa using hp2⟩
  · simp only [pair] at hfirst hsecond
    simp only [insertOrdered, elementsPacked_eq hp, Option.bind_eq_bind, Option.bind_some, hidx, hfirst, hsecond]
  · subst hes
    exact lists_insert h hm (fun e he => of_decide_eq_false (hA e he)) fun e he => of_decide_eq_true (hB e he)

omit [LinearOrder S] in
lemma format_inj {a b : S} : txt.format a = txt.format b ↔ a = b := by
  refine ⟨fun h => ?_, fun h => by rw [h]⟩
  have hparse := txt.parse_format a
  rw [h, txt.parse_format, Option.some_inj] at hparse
  exact hparse.symm

lemma addPacked_spec (h : ZSet.Lists m es) (hp : l.Packs (flat (es.map (pair txt)))) (member : Bytes)
    (score : S) : ∃ v', addPacked txt l member score =
        some (v', (decide (m member = none), decide (m member ≠ none ∧ m member ≠ some score))) ∧
      v'.Holds txt (update m member (some score)) := by
  rcases find_spec h hp member with ⟨hm, hfind⟩ | ⟨A, B, cur, rfl, hm, hfind⟩
  · obtain ⟨l', es', hinsert, h', hp'⟩ := insertOrdered_spec h hp hm score
    refine ⟨.lp l', ?_, es', h', hp'⟩
    simp [addPacked, hfind, hinsert, hm]
  have hpairs : l.Packs (flat (A.map (pair txt) ++ pair txt ⟨member, cur⟩ :: B.map (pair txt))) := by
    rwa [map_append, map_cons] at hp
  have hget := get_flat hpairs
  rw [length_map] at hget
  simp only [addPacked, hfind, Option.bind_eq_bind, Option.bind_some, hget, pair, format_inj]
  by_cases hsame : cur = score
  · subst hsame
    refine ⟨.lp l, by simp [hm], A ++ ⟨member, cur⟩ :: B, ?_, hp⟩
    rwa [← hm, update_eq_self]
  obtain ⟨l1, hdelete, hp1⟩ := deleteRange_flat hpairs
  rw [length_map] at hdelete
  rw [← map_append] at hp1
  obtain ⟨l2, es', hinsert, h', hp'⟩ := insertOrdered_spec (lists_delete h) hp1 (update_self ..) score
  rw [update_idem] at h'
  refine ⟨.lp l2, ?_, es', h', hp'⟩
  simp only [if_neg hsame, hdelete, Option.bind_some, hinsert, hm]
  simp [hsame]

/-! ## Promotion -/

omit [LinearOrder S] in
/-- The map with the entry of an element. -/
def enter (m : Bytes → Option S) (e : ZSetElement S) : Bytes → Option S := update m e.member (some e.score)

omit [LinearOrder S] in
lemma foldl_update (hnodup : (es.map ZSetElement.member).Nodup) (m : Bytes → Option S) (member : Bytes) :
    es.foldl enter m member = (lookup es member).or (m member) := by
  induction es generalizing m with
  | nil => rfl
  | cons e es ih =>
  rw [map_cons, nodup_cons] at hnodup
  rw [foldl_cons, ih hnodup.2, lookup, lookup, find?_cons, enter, update_apply]
  by_cases hmember : member = e.member
  · have hnone : es.find? (fun e => e.member = member) = none := by
      refine find?_eq_none.2 fun e' he' => ?_
      rw [decide_eq_true_iff, hmember]
      exact fun heq => hnodup.1 (heq ▸ mem_map_of_mem he')
    rw [hnone, if_pos hmember, hmember]
    simp
  · rw [if_neg hmember, decide_eq_false (Ne.symm hmember)]

lemma holds_foldl_add {z : ZSet S} (h : z.Holds m) (levels : Nat → Level) (es : List (ZSetElement S)) (k : Nat) :
    ((es.zipIdx k).foldl (fun z p => (z.add p.1.member p.1.score (levels p.2)).1) z).Holds (es.foldl enter m) := by
  induction es generalizing z m k with
  | nil => exact h
  | cons e es ih => exact ih (ZSet.add_spec h e.member e.score (levels k)).1 (k + 1)

lemma promote_spec (h : ZSet.Lists m es) (hp : l.Packs (flat (es.map (pair txt)))) (levels : Nat → Level) :
    ∃ z, promote txt levels l = some z ∧ z.Holds m := by
  have hmap : es.foldl enter (fun _ => none) = m := by
    funext member
    rw [foldl_update (nodup_members h), Option.or_none, lookup_eq h]
  have hholds := holds_foldl_add (ZSet.holds_new txt.zero) levels es 0
  rw [hmap] at hholds
  simp only [promote, elementsPacked_eq hp, Option.bind_eq_bind, Option.bind_some]
  exact ⟨_, rfl, hholds⟩

/-! ## Operations -/

section
variable {v : ZsetView S} (h : v.Holds txt m)
include h

lemma add_spec (lim : ZsetLimits) (level : Level) (levels : Nat → Level) (member : Bytes) (score : S) :
    ∃ v', v.add txt lim level levels member score =
        some (v', (decide (m member = none), decide (m member ≠ none ∧ m member ≠ some score))) ∧
      v'.Holds txt (update m member (some score)) := by
  rcases v with l | z
  · obtain ⟨es, hlists, hp⟩ := h
    have hpromote : ∃ b, shouldPromote lim l member = some b := by
      unfold shouldPromote
      split_ifs
      · exact ⟨_, rfl⟩
      · rcases find_spec hlists hp member with ⟨-, hfind⟩ | ⟨A, B, cur, -, -, hfind⟩
        all_goals exact ⟨_, by rw [hfind]; rfl⟩
    obtain ⟨b, hb⟩ := hpromote
    simp only [add, hb, Option.bind_eq_bind, Option.bind_some]
    cases b with
    | false => exact addPacked_spec hlists hp member score
    | true =>
      obtain ⟨z, hz, hholds⟩ := promote_spec hlists hp levels
      obtain ⟨hholds', hresult⟩ := ZSet.add_spec hholds member score level
      simp only [if_true, hz, Option.bind_some]
      exact ⟨.zs _, by rw [hresult], hholds'⟩
  · obtain ⟨hholds', hresult⟩ := ZSet.add_spec h member score level
    exact ⟨.zs _, by rw [add, hresult], hholds'⟩

lemma remove_spec (member : Bytes) :
    ∃ v', v.remove member = some (v', (m member).isSome) ∧ v'.Holds txt (update m member none) := by
  rcases v with l | z
  · obtain ⟨es, hlists, hp⟩ := h
    rcases find_spec hlists hp member with ⟨hm, hfind⟩ | ⟨A, B, cur, rfl, hm, hfind⟩
    · refine ⟨.lp l, by simp [remove, hfind, hm], es, ?_, hp⟩
      rwa [← hm, update_eq_self]
    rw [map_append, map_cons] at hp
    obtain ⟨l', hdelete, hp'⟩ := deleteRange_flat hp
    rw [length_map] at hdelete
    rw [← map_append] at hp'
    refine ⟨.lp l', ?_, A ++ B, lists_delete hlists, hp'⟩
    simp only [remove, hfind, Option.bind_eq_bind, Option.bind_some, hdelete, hm]
    rfl
  · obtain ⟨hholds', hresult⟩ := ZSet.remove_spec h member
    exact ⟨.zs _, by rw [remove, hresult], hholds'⟩

lemma score_spec (member : Bytes) : v.score txt member = some (m member) := by
  rcases v with l | z
  · obtain ⟨es, hlists, hp⟩ := h
    rcases find_spec hlists hp member with ⟨hm, hfind⟩ | ⟨A, B, cur, rfl, hm, hfind⟩
    · simp [score, hfind, hm]
    rw [map_append, map_cons] at hp
    have hget := get_flat hp
    rw [length_map] at hget
    simp only [score, hfind, Option.bind_eq_bind, Option.bind_some, hget, pair, txt.parse_format, hm]
  · exact congrArg some (congrFun h.1 member)

variable (hes : ZSet.Lists m es)
include hes

lemma len_spec : v.len = es.length := by
  rcases v with l | z
  · obtain ⟨es', hlists, hp⟩ := h
    obtain rfl := hlists.unique hes
    rw [len, hp.n, length_flat, length_map, Nat.mul_div_cancel_left _ Nat.two_pos]
  obtain ⟨es', hlists, hlen, -⟩ := ZSet.answers_of_holds h
  obtain rfl := hlists.unique hes
  exact hlen

lemma range_spec (start stop : Int) (reverse : Bool) :
    v.range txt start stop reverse = some (listRange (if reverse then es.reverse else es) start stop) := by
  rcases v with l | z
  · obtain ⟨es', hlists, hp⟩ := h
    obtain rfl := hlists.unique hes
    simp [range, elementsPacked_eq hp, Option.bind_eq_bind, Option.bind_some, cut_eq]
  obtain ⟨es', hlists, -, -, -, hrange⟩ := ZSet.answers_of_holds h
  obtain rfl := hlists.unique hes
  exact congrArg some (hrange start stop reverse)

lemma elements_spec : v.elements txt = some es := by
  rcases v with l | z
  · obtain ⟨es', hlists, hp⟩ := h
    obtain rfl := hlists.unique hes
    exact elementsPacked_eq hp
  obtain ⟨es', hlists, -, -, -, hrange⟩ := ZSet.answers_of_holds h
  obtain rfl := hlists.unique hes
  rw [elements, hrange]
  exact congrArg some (listRange_all es')

end

end ZsetView

/-! ## Runs -/

inductive ZsetOp (S : Type)
  | add (member : Bytes) (score : S)
  | remove (member : Bytes)
  | score (member : Bytes)
  | len
  | elements
  | range (start stop : Int) (reverse : Bool)

/-- An operation, with the limits at the time and the levels that are drawn if it is an addition. -/
structure ZsetCall (S : Type) where
  op : ZsetOp S
  lim : ZsetLimits
  level : Level
  levels : Nat → Level

inductive ZsetReply (S : Type)
  | changed (added updated : Bool)
  | flag (b : Bool)
  | score (s : Option S)
  | num (n : Int)
  | list (es : List (ZSetElement S))

section
variable {S : Type} [LinearOrder S] (txt : ScoreText S)

def ZsetView.call (v : ZsetView S) (c : ZsetCall S) : Option (ZsetView S × ZsetReply S) :=
  match c.op with
  | .add member score => (v.add txt c.lim c.level c.levels member score).map fun r => (r.1, .changed r.2.1 r.2.2)
  | .remove member => (v.remove member).map fun r => (r.1, .flag r.2)
  | .score member => (v.score txt member).map fun s => (v, .score s)
  | .len => some (v, .num v.len)
  | .elements => (v.elements txt).map fun es => (v, .list es)
  | .range start stop reverse => (v.range txt start stop reverse).map fun es => (v, .list es)

/-- The operation on a sorted list, with its result. -/
def ZsetOp.on (es : List (ZSetElement S)) : ZsetOp S → List (ZSetElement S) × ZsetReply S
  | .add member s =>
    (ZsetView.put es ⟨member, s⟩, .changed (ZsetView.lookup es member = none)
      (ZsetView.lookup es member ≠ none ∧ ZsetView.lookup es member ≠ some s))
  | .remove member => (ZsetView.without es member, .flag (ZsetView.lookup es member).isSome)
  | .score member => (es, .score (ZsetView.lookup es member))
  | .len => (es, .num es.length)
  | .elements => (es, .list es)
  | .range start stop reverse => (es, .list (listRange (if reverse then es.reverse else es) start stop))

variable {txt}

/-- The view holds a map, and these are its elements in order. -/
def ZsetView.HoldsList (txt : ScoreText S) (es : List (ZSetElement S)) (v : ZsetView S) : Prop :=
  ∃ m, ZSet.Lists m es ∧ v.Holds txt m

lemma ZsetView.call_spec {v : ZsetView S} {es : List (ZSetElement S)} (h : v.HoldsList txt es) (c : ZsetCall S) :
    ∃ v', v.call txt c = some (v', (c.op.on es).2) ∧ v'.HoldsList txt (c.op.on es).1 := by
  obtain ⟨m, hes, hv⟩ := h
  unfold ZsetView.call
  cases c.op with
  | add member score =>
    obtain ⟨v', hadd, hv'⟩ := add_spec hv c.lim c.level c.levels member score
    simp only [hadd, ZsetOp.on, lookup_eq hes]
    exact ⟨v', rfl, _, lists_put hes ⟨member, score⟩, hv'⟩
  | remove member =>
    obtain ⟨v', hremove, hv'⟩ := remove_spec hv member
    simp only [hremove, ZsetOp.on, lookup_eq hes]
    exact ⟨v', rfl, _, lists_without hes member, hv'⟩
  | score member =>
    simp only [score_spec hv, ZsetOp.on, lookup_eq hes]
    exact ⟨v, rfl, m, hes, hv⟩
  | len => exact ⟨v, by rw [len_spec hv hes]; rfl, m, hes, hv⟩
  | elements =>
    simp only [elements_spec hv hes]
    exact ⟨v, rfl, m, hes, hv⟩
  | range start stop reverse =>
    simp only [range_spec hv hes]
    exact ⟨v, rfl, m, hes, hv⟩

/-- Whatever is called on a view that begins as an empty listpack, under any limits and with any levels, the results
are those of a list of elements; the list is strictly sorted and has no member twice, and the view holds it. -/
theorem zset_view_refines (txt : ScoreText S) (cs : List (ZsetCall S)) :
    ∃ v, calls (ZsetView.call txt) (.lp .new) cs = some (v, (answers ZsetOp.on [] (cs.map ZsetCall.op)).2) ∧
      v.elements txt = some (answers ZsetOp.on [] (cs.map ZsetCall.op)).1 ∧
      (answers ZsetOp.on [] (cs.map ZsetCall.op)).1.Pairwise (· < ·) ∧
      ((answers ZsetOp.on [] (cs.map ZsetCall.op)).1.map ZSetElement.member).Nodup := by
  have hempty : ZsetView.HoldsList txt [] (.lp .new) :=
    ⟨fun _ => none, ⟨List.Pairwise.nil, by simp⟩, [], ⟨List.Pairwise.nil, by simp⟩, packs_new⟩
  obtain ⟨v, hcalls, m, hes, hv⟩ :=
    calls_answers (H := ZsetView.HoldsList txt) (fun c h => ZsetView.call_spec h c) hempty cs
  exact ⟨v, hcalls, ZsetView.elements_spec hv hes, hes.1, ZsetView.nodup_members hes⟩

end

/-- Scores that are whole numbers of 64 bits. -/
def wholeScores : ScoreText {n : Int // InInt64 n} where
  format s := formatInt s.1
  parse b := (parseInt b).pmap Subtype.mk fun _ h => parseInt_inInt64 h
  zero := ⟨0, by decide⟩
  parse_format s := by
    simp only [parseInt_formatInt s.2]
    rfl

def ZsetView.promoted {S : Type} : ZsetView S → Bool
  | .lp _ => false
  | .zs _ => true

/-- Three members are added where two fit in a listpack, and one is removed. -/
def promotingRun : List (ZsetCall {n : Int // InInt64 n}) :=
  [.add (ascii "b") ⟨1, by decide⟩, .add (ascii "a") ⟨1, by decide⟩, .add (ascii "c") ⟨-5, by decide⟩,
    .remove (ascii "b"), .elements].map fun op =>
      ⟨op, ⟨2, 64⟩, ⟨1, le_rfl, by decide⟩, fun _ => ⟨2, by decide, by decide⟩⟩

theorem third_member_promotes : ∃ v, calls (ZsetView.call wholeScores) (.lp .new) promotingRun =
      some (v, [.changed true false, .changed true false, .changed true false, .flag true,
        .list [⟨ascii "c", ⟨-5, by decide⟩⟩, ⟨ascii "a", ⟨1, by decide⟩⟩]]) ∧ v.promoted = true := by
  obtain ⟨v, hcalls, -⟩ := zset_view_refines wholeScores promotingRun
  refine ⟨v, hcalls, ?_⟩
  have hpromoted : (calls (ZsetView.call wholeScores) (.lp .new) promotingRun).any (fun r => r.1.promoted) = true := by
    decide +kernel
  rwa [hcalls] at hpromoted

end Gopherdis.View

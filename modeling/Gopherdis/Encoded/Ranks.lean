/-
What is taken from a sorted set by rank. `ZPOPMIN` and `ZPOPMAX` turn their count into the last rank of a range, so a
count of zero stands for all elements. `ZREMRANGEBYRANK` removes what `ZRANGE` lists.
-/
import Gopherdis.Encoded.Moves

namespace Gopherdis.Encoded

open Lib Codec Object Store Command List

variable {β : Type} {K : Kind β} {S : Settings} {c : Call} {db d : MemDB} {key : Bytes} {argv : Argv} {held : Held β}
variable {exp : Option Int} {enc : Encoding} {items taken : List (Bytes × Score)}

/-! ## What is left of a collection -/

/-- What is left of a live collection; the key goes with the last element. -/
def remainder (K : Kind β) (held : Held β) (exp : Option Int) : Option Slot :=
  if held.items.isEmpty then none else some ⟨held.obj K, exp⟩

lemma looked_of_live {s : Slot} (h : db.live key c.now.ms = some s) : Looked c.now db key db := by
  rw [Looked, h, ← (MemDB.live_eq_some.1 h).1]
  exact .refl db key

lemma leaves_takeFrom {α : Type} (hs : db.live key c.now.ms = some ⟨held.obj K, exp⟩) (es : List (Edit β))
    (answer : View β → α) : ((⟨key, held, true⟩ : View β).performAll K S es >>= fun w => w.drop S c >>= fun _ =>
      (pure (answer w) : MemM S.E α)).Ends db fun a d =>
        a = answer ⟨key, held.edited es, true⟩ ∧ Leaves db key d (remainder K (held.edited es) exp) := by
  refine (ends_performAll es (sees_live hs (looked_of_live hs))).bind fun w d1 h1 => ?_
  obtain ⟨hkey, hheld, hatt, hsees, hframe⟩ := h1
  refine (ends_drop hsees c).bind fun _ d2 h2 => ?_
  obtain ⟨-, hframe2, hhere⟩ := h2
  obtain ⟨_, _, _⟩ := w
  cases hkey
  cases hheld
  cases hatt rfl
  refine ⟨rfl, hhere.trans ?_, fun k hk => (hframe2 k hk).trans (hframe k hk)⟩
  rw [hsees.here, liveExp, hs]
  rfl

/-! ## Removing members -/

lemma filter_zRemoveEdits (h : Held (Bytes × Score)) (hnodup : (h.items.map Prod.fst).Nodup) (m : Bytes) :
    h.edited (zRemoveEdits h m) = ⟨h.items.filter fun e => e.1 ≠ m, h.enc⟩ := by
  obtain ⟨items, enc⟩ := h
  have hfilter : zRemoveItem items m = items.filter fun e => e.1 ≠ m := by
    rw [zRemoveItem]
    induction items with
    | nil => rfl
    | cons e items ih =>
    obtain ⟨hnot, hnodup⟩ := nodup_cons.1 hnodup
    by_cases he : e.1 = m
    · rw [eraseP_cons_of_pos (by simpa using he), filter_cons_of_neg (by simpa using he), eq_comm, filter_eq_self]
      rintro x hx
      have hne : x.1 ≠ m := fun h => hnot (he ▸ h ▸ mem_map_of_mem hx)
      simpa using hne
    · rw [eraseP_cons_of_neg (by simpa using he), filter_cons_of_pos (by simpa using he), ih hnodup]
  unfold zRemoveEdits
  split_ifs with hscore
  · exact congrArg (Held.mk · enc) hfilter
  -- nobody has that name
  have hnone : ∀ e ∈ items, e.1 ≠ m := by
    rintro ⟨_, x⟩ he rfl
    simp [zScore] at hscore
    exact hscore x he
  rw [edited_nil, filter_eq_self.2 fun e he => decide_eq_true (hnone e he)]

lemma edited_zRemoveEdits : ∀ (ms : List Bytes) {h : Held (Bytes × Score)}, (h.items.map Prod.fst).Nodup →
    h.edited (editAll zRemoveEdits h ms) = ⟨h.items.filter fun e => e.1 ∉ ms, h.enc⟩
  | [], h, _ => by simp [editAll]
  | m :: ms, h, hnodup => by
    rw [editAll, edited_append, filter_zRemoveEdits h hnodup,
      edited_zRemoveEdits ms (hnodup.sublist (filter_sublist.map _)), filter_filter]
    congr
    funext e
    simp [Bool.and_comm]

/-- The lowest elements of a sorted set, or the highest. -/
def extreme (reverse : Bool) (n : Int) (items : List (Bytes × Score)) : List (Bytes × Score) :=
  (if reverse then items.reverse else items).take n.toNat

lemma extreme_beyond {R : Bytes × Score → Bytes × Score → Prop} (hsorted : items.Pairwise R) (reverse : Bool) (n : Int)
    {a b : Bytes × Score} (ha : a ∈ extreme reverse n items) (hb : b ∈ items) (hnot : b ∉ extreme reverse n items) :
    if reverse then R b a else R a b := by
  have htaken : ∀ {l : List (Bytes × Score)} {Q : Bytes × Score → Bytes × Score → Prop}, l.Pairwise Q →
      a ∈ l.take n.toNat → b ∈ l → b ∉ l.take n.toNat → Q a b := by
    intro l Q hl ha hb hnot
    rw [← take_append_drop n.toNat l, pairwise_append] at hl
    rw [← take_append_drop n.toNat l, mem_append, or_iff_right hnot] at hb
    exact hl.2.2 a ha b hb
  cases reverse with
  | false => exact htaken hsorted ha hb hnot
  | true => exact htaken (Q := fun x y => R y x) (pairwise_reverse.2 hsorted) ha (mem_reverse.2 hb) hnot

/-- The elements `taken` go, the others stay as they are, and so does the rest of the keyspace. -/
def Took (db : MemDB) (key : Bytes) (items taken : List (Bytes × Score)) (enc : Encoding) (exp : Option Int)
    (d : MemDB) : Prop :=
  Leaves db key d (remainder zsetKind ⟨items.filter (· ∉ taken), enc⟩ exp)

section
variable (hs : db.live key c.now.ms = some ⟨⟨.zset items, enc⟩, exp⟩) (hnodup : (items.map Prod.fst).Nodup)

omit hnodup in
include hs in
lemma zset_live : db.live key c.now.ms = some ⟨Held.obj ⟨items, enc⟩ zsetKind, exp⟩ := hs

include hs hnodup

lemma took_zremoveAll (hsub : taken ⊆ items) (reply : Bytes) :
    (zremoveAll S c key (some ⟨key, ⟨items, enc⟩, true⟩) (taken.map Prod.fst) >>= fun _ =>
      (pure reply : MemM S.E Bytes)).Ends db fun r d => r = reply ∧ Took db key items taken enc exp d := by
  rw [zremoveAll, bind_assoc]
  refine (leaves_takeFrom (zset_live hs) _ fun _ => reply).mono fun r d h => ?_
  rw [edited_zRemoveEdits _ hnodup] at h
  have hsame : ∀ e ∈ items, decide (e.1 ∉ taken.map Prod.fst) = decide (e ∉ taken) := by
    intro e he
    refine decide_eq_decide.2 (not_congr ⟨fun h => ?_, mem_map_of_mem⟩)
    obtain ⟨e', he', hfst⟩ := mem_map.1 h
    exact inj_on_of_nodup_map hnodup (hsub he') he hfst ▸ he'
  rwa [filter_congr hsame] at h

/-! ## The commands -/

lemma zpop_took {n : Int} (reverse : Bool) (hkey : argv.getD 1 [] = key) (hn : zpopCount argv = some n) :
    (zpopGeneric S c reverse argv).Ends db fun r d =>
      r = zsetReply S c (cut (if reverse then items.reverse else items) 0 (n - 1)) ∧
        Took db key items (cut (if reverse then items.reverse else items) 0 (n - 1)) enc exp d := by
  unfold zpopGeneric
  simp only [hn, hkey]
  refine ends_getView_live (zset_live hs) (took_zremoveAll hs hnodup (fun e he => ?_) _)
  have hmem := (cut_sublist _ _ _).subset he
  split_ifs at hmem
  · exact mem_reverse.1 hmem
  · exact hmem

lemma zpop_took_iff {n : Int} {reverse : Bool} (hkey : argv.getD 1 [] = key) (hn : zpopCount argv = some n) :
    ((zpopGeneric S c reverse argv).Ends db fun r d =>
      r = zsetReply S c (extreme reverse n items) ∧ Took db key items (extreme reverse n items) enc exp d) ↔
      n ≠ 0 ∨ items = [] := by
  have htook := zpop_took (S := S) hs hnodup reverse hkey hn
  have hnonneg : 0 ≤ n := by
    unfold zpopCount at hn
    split_ifs at hn
    · cases hn
      decide
    · simpa using (Option.filter_eq_some_iff.1 hn).2
  rcases hnonneg.eq_or_lt with rfl | hpos
  · have hall : ∀ xs : List (Bytes × Score), cut xs 0 (0 - 1) = xs := fun xs => by simp [cut_zero]
    rw [hall] at htook
    refine ⟨fun h => .inr ?_, ?_⟩
    · -- all elements have gone, and none should have
      have hhere := htook.2.here.symm.trans h.2.here
      by_contra hne
      cases reverse <;> simp [remainder, extreme, hne] at hhere
    · rintro (h | rfl)
      · exact absurd rfl h
      · cases reverse <;> exact htook
  · rw [cut_zero, if_neg (by omega), Int.sub_add_cancel] at htook
    exact iff_of_true htook (.inl hpos.ne')

lemma zremrangebyrank_took {start stop : Int} (hkey : argv.getD 1 [] = key) (hstart : parseInt (argv.getD 2 []) = some start)
    (hstop : parseInt (argv.getD 3 []) = some stop) :
    (zrangeSelect S c [key, argv.getD 2 [], argv.getD 3 []]).result db = .ok (cut items start stop) ∧
      (zremrangebyrankCommand S c argv).Ends db fun r d =>
        r = integer (cut items start stop).length ∧ Took db key items (cut items start stop) enc exp d := by
  constructor
  · have hselect : (zrangeSelect S c [key, argv.getD 2 [], argv.getD 3 []]).Ends db fun r _ =>
        r = .ok (cut items start stop) := by
      refine ends_getView_live (zset_live hs) ?_
      simp only [zrangePick, getD_cons_zero, getD_cons_succ, hstart, hstop]
      rfl
    exact hselect
  · unfold zremrangebyrankCommand
    simp only [hstart, hstop, hkey]
    exact ends_getView_live (zset_live hs)
      (took_zremoveAll hs hnodup (cut_sublist _ _ _).subset _)

end

/-- `ZPOPMIN` and `ZPOPMAX` take the lowest or the highest elements unless the count is zero and there are some, and
`ZREMRANGEBYRANK` takes what `ZRANGE` lists. -/
theorem taken_by_rank_iff (R : Bytes × Score → Bytes × Score → Prop)
    (hs : db.live key c.now.ms = some ⟨⟨.zset items, enc⟩, exp⟩) (hnodup : (items.map Prod.fst).Nodup)
    (hsorted : items.Pairwise R) : (∀ reverse n argv, argv.getD 1 [] = key → zpopCount argv = some n →
      (((zpopGeneric S c reverse argv).Ends db fun r d =>
        r = zsetReply S c (extreme reverse n items) ∧ Took db key items (extreme reverse n items) enc exp d) ↔
          n ≠ 0 ∨ items = []) ∧
      ∀ a ∈ extreme reverse n items, ∀ b ∈ items, b ∉ extreme reverse n items → if reverse then R b a else R a b) ∧
    ∀ (argv : Argv) start stop, argv.getD 1 [] = key → parseInt (argv.getD 2 []) = some start →
      parseInt (argv.getD 3 []) = some stop →
      ∃ taken, (zrangeSelect S c [key, argv.getD 2 [], argv.getD 3 []]).result db = .ok taken ∧
        (zremrangebyrankCommand S c argv).Ends db fun r d => r = integer taken.length ∧ Took db key items taken enc exp d :=
  ⟨fun reverse n _ hkey hn => ⟨zpop_took_iff hs hnodup hkey hn, fun _ ha _ => extreme_beyond hsorted reverse n ha⟩,
    fun _ _ _ hkey hstart hstop => ⟨_, zremrangebyrank_took hs hnodup hkey hstart hstop⟩⟩

def twoScores : MemDB :=
  (MemOp.put (ascii "z") ⟨⟨.zset [(ascii "a", 1), (ascii "b", 2)], .listpack⟩, none⟩).apply Env.bits .empty

/-- The lowest member is popped. -/
theorem lowest_popped : (zpopGeneric .bits .zero false [ascii "ZPOPMIN", ascii "z"]).Ends twoScores fun r d =>
    r = zsetReply .bits .zero [(ascii "a", 1)] ∧
      Took twoScores (ascii "z") [(ascii "a", 1), (ascii "b", 2)] [(ascii "a", 1)] .listpack none d := by
  have hs : twoScores.live (ascii "z") Call.zero.now.ms =
    some ⟨⟨.zset [(ascii "a", 1), (ascii "b", 2)], .listpack⟩, none⟩ := by decide
  have htaken := taken_by_rank_iff (S := .bits) (fun a b => a.2 < b.2) hs (by decide) (by decide)
  exact (htaken.1 false 1 _ rfl rfl).1.2 (.inl (by decide))

/-- A count of zero takes all. -/
theorem zero_pops_all :
    ((zpopGeneric .bits .zero false [ascii "ZPOPMIN", ascii "z", ascii "0"]).after twoScores).lookup (ascii "z") = none := by
  decide +kernel

end Gopherdis.Encoded

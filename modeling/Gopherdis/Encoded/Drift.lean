/-
What `usedMemory` is worth. Storing, publishing, removing and flushing count by the sizes at hand, a
change made through the pointer does not count at all; so the count is right as long as the changes a
step makes in place come to nothing, and it is off by exactly their sum from there on.
-/
import Gopherdis.Encoded.Table

namespace Gopherdis.Encoded

open Lib Codec Object Store Command Finset MemDB

variable (E : Env)

/-! ## The sum of all sizes -/

def totalSize (db : MemDB) : Int := ∑ k ∈ db.entries.keys, db.sizeAt E k

/-- `usedMemory` is that sum, and so never negative. -/
def Accounted (db : MemDB) : Prop := db.used = totalSize E db ∧ 0 ≤ db.used

/-- What is stored and not counted. -/
def uncounted (db : MemDB) : Int := totalSize E db - db.used

section
variable {E} {db db' : MemDB} {key : Bytes}

lemma sizeAt_nonneg (db : MemDB) (key : Bytes) : 0 ≤ db.sizeAt E key := by
  unfold sizeAt
  cases db.lookup key with
  | none => exact le_rfl
  | some s => exact (estimateObjectSize_pos E key s.obj).le

lemma totalSize_nonneg (db : MemDB) : 0 ≤ totalSize E db := sum_nonneg fun k _ => sizeAt_nonneg db k

lemma accounted_iff : Accounted E db ↔ uncounted E db = 0 := by
  have h := totalSize_nonneg (E := E) db
  unfold Accounted uncounted
  omega

lemma sizeAt_of_notMem (h : key ∉ db.entries.keys) : db.sizeAt E key = 0 := by
  have hn : db.lookup key = none := Finmap.lookup_eq_none.2 fun hm => h (Finmap.mem_keys.2 hm)
  rw [sizeAt, hn]
  rfl

lemma totalSize_eq_sum {s : Finset Bytes} (h : db.entries.keys ⊆ s) : totalSize E db = ∑ k ∈ s, db.sizeAt E k :=
  sum_subset h fun _ _ hk => sizeAt_of_notMem hk

lemma totalSize_of_frame (h : ∀ k, k ≠ key → db'.lookup k = db.lookup k) :
    totalSize E db' = totalSize E db - db.sizeAt E key + db'.sizeAt E key := by
  set s := insert key (db.entries.keys ∪ db'.entries.keys) with hs
  have hk : key ∈ s := mem_insert_self ..
  have hsub : db.entries.keys ⊆ s := fun k hk => mem_insert_of_mem (mem_union_left _ hk)
  have hsub' : db'.entries.keys ⊆ s := fun k hk => mem_insert_of_mem (mem_union_right _ hk)
  have hrest : ∑ k ∈ s.erase key, db'.sizeAt E k = ∑ k ∈ s.erase key, db.sizeAt E k :=
    sum_congr rfl fun k hk => by rw [sizeAt, sizeAt, h k (ne_of_mem_erase hk)]
  rw [totalSize_eq_sum hsub, totalSize_eq_sum hsub', ← add_sum_erase _ _ hk, ← add_sum_erase _ _ hk, hrest]
  omega

end

/-! ## What an operation leaves uncounted -/

/-- How much larger a change in place makes the object it changes. -/
def growth (db : MemDB) (key : Bytes) (obj : Robj) : Int :=
  (db.lookup key).elim 0 fun s => estimateObjectSize E key obj - estimateObjectSize E key s.obj

/-- Changes in place add up until everything is flushed. -/
def outgrown (n : Int) (db : MemDB) : MemOp → Int
  | .edit key obj => n + growth E db key obj
  | .flushAll => 0
  | _ => n

section
variable {E}

variable (db : MemDB) (key : Bytes)

lemma uncounted_replace (slot : Slot) : uncounted E (db.replace E key slot) = uncounted E db := by
  have htotal := totalSize_of_frame (E := E) (leaves_replace (E := E) db key slot).frame
  have hsize : (db.replace E key slot).sizeAt E key = estimateObjectSize E key slot.obj := by
    rw [sizeAt, replace_lookup_self]
    rfl
  have hused : (db.replace E key slot).used = db.used - db.sizeAt E key + estimateObjectSize E key slot.obj := rfl
  rw [uncounted, uncounted, htotal, hused, hsize]
  omega

lemma uncounted_remove : uncounted E ((MemOp.remove key).apply E db) = uncounted E db := by
  have htotal := totalSize_of_frame (E := E) (leaves_remove (E := E) db key).frame
  have hsize : ((MemOp.remove key).apply E db).sizeAt E key = 0 := by
    rw [sizeAt, remove_lookup_self]
    rfl
  have hused : ((MemOp.remove key).apply E db).used = db.used - db.sizeAt E key := rfl
  rw [uncounted, uncounted, htotal, hused, hsize]
  omega

lemma uncounted_edit (obj : Robj) :
    uncounted E ((MemOp.edit key obj).apply E db) = uncounted E db + growth E db key obj := by
  have htotal := totalSize_of_frame (E := E) (leaves_edit (E := E) db key obj).frame
  have hhere := (leaves_edit (E := E) db key obj).here
  have hused : ((MemOp.edit key obj).apply E db).used = db.used := by
    rw [MemOp.apply]
    cases db.lookup key <;> rfl
  rw [uncounted, uncounted, htotal, hused, sizeAt, sizeAt, hhere, growth]
  cases db.lookup key with
  | none => simp
  | some s =>
    simp only [Option.map_some, Option.elim_some]
    omega

lemma uncounted_expire (exp : Option Int) :
    uncounted E ((MemOp.expire key exp).apply E db) = uncounted E db := by
  have htotal := totalSize_of_frame (E := E) (leaves_expire (E := E) db key exp).frame
  have hhere := (leaves_expire (E := E) db key exp).here
  have hused : ((MemOp.expire key exp).apply E db).used = db.used := by
    rw [MemOp.apply]
    cases db.lookup key <;> rfl
  rw [uncounted, uncounted, htotal, hused, sizeAt, sizeAt, hhere]
  cases db.lookup key with
  | none | some => simp

lemma uncounted_apply (o : MemOp) : uncounted E (o.apply E db) = outgrown E (uncounted E db) db o := by
  cases o with
  | put key slot => exact uncounted_replace db key slot
  | publish key obj => exact uncounted_replace db key _
  | expire key exp => exact uncounted_expire db key exp
  | remove key => exact uncounted_remove db key
  | edit key obj => exact uncounted_edit db key obj
  | draw | flushAll => rfl

end

/-! ## Steps and runs -/

/-- What a computation adds in place to the objects it leaves. -/
def inPlaceGrowth {α : Type} (m : MemM E α) (db : MemDB) : Int :=
  Traced.follow (outgrown E) (MemOp.apply E) 0 db (m.ops db)

lemma uncounted_after {α : Type} {db : MemDB} (m : MemM E α) (h : uncounted E db = 0) :
    uncounted E (m.after db) = inPlaceGrowth E m db := by
  rw [Traced.after, Traced.follow_eq uncounted_apply, h]
  rfl

variable (S : Settings)

/-- One action, under the memory settings of the moment. -/
def serve (db : MemDB) (a : Store.Server × MemAct) : MemDB := (a.2.run commandTable (S.under a.1)).after db

def serveAll (db : MemDB) (acts : List (Store.Server × MemAct)) : MemDB := acts.foldl (serve S) db

/-- The action changes nothing in place, or as much up as down. -/
def Balanced (db : MemDB) (a : Store.Server × MemAct) : Prop :=
  inPlaceGrowth S.E (a.2.run commandTable (S.under a.1)) db = 0

lemma accounted_serve_iff {db : MemDB} (h : Accounted S.E db) (a : Store.Server × MemAct) :
    Accounted S.E (serve S db a) ↔ Balanced S db a := by
  have hgrowth : uncounted S.E (serve S db a) = inPlaceGrowth S.E (a.2.run commandTable (S.under a.1)) db :=
    uncounted_after S.E (a.2.run commandTable (S.under a.1)) (accounted_iff.1 h)
  rw [accounted_iff, hgrowth]
  rfl

/-- The memory is accounted for in every state of a run if and only if the steps of the run change nothing
in place on balance. -/
theorem used_accounted_iff_balanced (acts : List (Store.Server × MemAct)) :
    (∀ before, before <+: acts → Accounted S.E (serveAll S .empty before)) ↔
      ∀ before a, before ++ [a] <+: acts → Balanced S (serveAll S .empty before) a := by
  have hserve : ∀ before a, serveAll S .empty (before ++ [a]) = serve S (serveAll S .empty before) a :=
    fun before a => List.foldl_append ..
  constructor
  · intro h before a ha
    have hbefore := h before ((List.prefix_append before [a]).trans ha)
    rw [← accounted_serve_iff S hbefore, ← hserve]
    exact h _ ha
  · intro h before
    induction before using List.reverseRecOn with
    | nil => exact fun _ => accounted_iff.2 rfl
    | append_singleton before a ih =>
      intro ha
      have hbefore := ih ((List.prefix_append before [a]).trans ha)
      rw [hserve, accounted_serve_iff S hbefore]
      exact h before a ha

/-- A hash is stored when it is empty and deleted when it has grown. -/
def grownAndDeleted : List (Store.Server × MemAct) :=
  [({}, .command .zero [ascii "HSET", ascii "k", ascii "f", ascii "v"]), ({}, .command .zero [ascii "DEL", ascii "k"])]

theorem used_below_zero :
    (serveAll .bits .empty grownAndDeleted).used = -4 ∧ totalSize Env.bits (serveAll .bits .empty grownAndDeleted) = 0 := by
  decide +kernel

end Gopherdis.Encoded

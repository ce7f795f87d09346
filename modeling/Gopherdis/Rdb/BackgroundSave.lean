/-
`BGSAVE` against transactions. The shards are copied one after the other, each under its own lock, and their
entries are written after the lock is released, through the pointers copied. The transaction lock is not taken,
so a transaction may be executed between any two of these steps: its changes to copied shards are missing from
the file, those to later shards are in it, and so is a change made in place to an object copied and not yet
written.
-/
import Gopherdis.Lib.Runs
import Gopherdis.Rdb.RoundTrip
import Gopherdis.Store.Memory

namespace Gopherdis.Rdb

open Lib Object Store List Memory

/-! ## The steps -/

/-- What the keys hold. -/
abbrev Content := Bytes → Option Entry

/-- The memory, the time `ForEachShardSnapshot` has read, the next shard, the entries that are copied and
not yet written, and those written. `log` is what the keys held before and after every transaction. -/
structure SaveState where
  mem : Memory
  now : Clock
  shard : Nat
  pending : List (Bytes × Binding)
  file : Keyspace
  log : List Content

def SaveState.start (mem : Memory) (now : Clock) : SaveState := ⟨mem, now, 0, [], ∅, [mem.content]⟩

/-- The copy of a shard: its entries that are not past their deadline, in the order the map is walked. -/
def Copies (m : Memory) (now : Clock) (i : Nat) (es : List (Bytes × Binding)) : Prop :=
  (es.map Prod.fst).Nodup ∧
    (∀ p ∈ es, m.entries.lookup p.1 = some p.2 ∧ shardIdx p.1 = i ∧ (m.entry p.2).expired now.ms = false) ∧
    ∀ k ∈ m.entries.keys, shardIdx k = i → (m.content k).all (fun e => e.expired now.ms) = true ∨ k ∈ es.map Prod.fst

instance (m : Memory) (now : Clock) (i : Nat) (es : List (Bytes × Binding)) : Decidable (Copies m now i es) :=
  inferInstanceAs (Decidable (_ ∧ _ ∧ _))

inductive SaveAct
  | visit (entries : List (Bytes × Binding))
  | write
  | exec (ops : List HeapOp)

variable (s : SaveState)

def saveStep : SaveAct → Option SaveState
  | .visit es =>
    if s.pending = [] ∧ s.shard < numShards ∧ Copies s.mem s.now s.shard es then
      some { s with shard := s.shard + 1, pending := es }
    else none
  | .write =>
    match s.pending with
    | [] => none
    | (k, b) :: rest =>
      -- `WriteEntry` has no record for a stream
      let file := if isStream (s.mem.heap b.ref) then s.file else s.file.insert k (s.mem.entry b)
      some { s with pending := rest, file }
  | .exec ops => some { s with mem := s.mem.applyAll ops, log := s.log ++ [(s.mem.applyAll ops).content] }

def SaveState.Done : Prop := s.shard = numShards ∧ s.pending = []

/-! ## Whole transactions -/

variable (log : List Content)

/-- What a key held after `i` transactions. -/
def heldAt (i : Nat) (k : Bytes) : Option Entry := log.getD i (fun _ => none) k

/-- The transaction after the first `j` has changed the key. -/
def Changes (j : Nat) (k : Bytes) : Prop := heldAt log j k ≠ heldAt log (j + 1) k

/-- The file shows every key some transaction has changed as it was at some time; the keys a transaction
has changed are all shown from after it, or all from before it. -/
def AllOrNothing (now : Clock) (log : List Content) (file : Keyspace) : Prop :=
  ∃ τ : Bytes → Nat, ∀ j, j + 1 < log.length →
    (∀ k, Changes log j k → τ k < log.length ∧ file.lookup k = liveEntry now.ms (heldAt log (τ k) k)) ∧
      ((∀ k, Changes log j k → j < τ k) ∨ ∀ k, Changes log j k → τ k ≤ j)

/-- The format has a record for what is there. -/
def Recordable (e : Option Entry) : Prop := ∀ x, e = some x → isStream x.val = false

/-- A transaction changes keys of shards that are still to be copied, or of shards that have been; it
changes in place no object that is copied and not yet written; and it changes no streams. -/
def Uncut : SaveAct → Prop
  | .exec ops =>
    ((∀ k, s.mem.content k ≠ (s.mem.applyAll ops).content k → s.shard ≤ shardIdx k) ∨
        ∀ k, s.mem.content k ≠ (s.mem.applyAll ops).content k → shardIdx k < s.shard) ∧
      (∀ p ∈ s.pending, Spares p.2.ref s.mem ops) ∧
      ∀ k, s.mem.content k ≠ (s.mem.applyAll ops).content k →
        Recordable (s.mem.content k) ∧ Recordable ((s.mem.applyAll ops).content k)
  | _ => True

/-! ## The invariant -/

/-- What comes to stand in the file for what a key holds. -/
def saved (now : Clock) (e : Option Entry) : Option Entry := (liveEntry now.ms e).filter fun e => !isStream e.val

lemma saved_of_recordable {now : Clock} {e : Option Entry} (h : Recordable e) : saved now e = liveEntry now.ms e := by
  unfold saved
  cases hl : liveEntry now.ms e with
  | none => rfl
  | some x =>
    have he : e = some x := (Option.filter_eq_some_iff.1 hl).1
    simp [h x he]

section
variable {log : List Content} {i : Nat} {k : Bytes}

lemma heldAt_append (h : i < log.length) (c : Content) (k : Bytes) : heldAt (log ++ [c]) i k = heldAt log i k := by
  simp [heldAt, getD_eq_getElem?_getD, getElem?_append_left h]

lemma heldAt_last (log : List Content) (c : Content) (k : Bytes) : heldAt (log ++ [c]) log.length k = c k := by
  simp [heldAt, getD_eq_getElem?_getD]

lemma forall_heldAt_append (P : Option Entry → Prop) {c : Content} (h : ∀ i < log.length, P (heldAt log i k))
    (hc : P (c k)) : ∀ i < (log ++ [c]).length, P (heldAt (log ++ [c]) i k) := by
  intro i hi
  rw [length_append, length_singleton] at hi
  obtain hi | rfl := Nat.lt_succ_iff_lt_or_eq.1 hi
  · rw [heldAt_append hi]
    exact h i hi
  · rw [heldAt_last]
    exact hc

end

/-- `τ` says which version of a key the file shows, as far as its shard has been copied. -/
structure SaveInv (s : SaveState) (τ : Bytes → Nat) : Prop where
  started : 0 < s.log.length
  current : ∀ k, heldAt s.log (s.log.length - 1) k = s.mem.content k
  bound : ∀ k, τ k < s.log.length
  made : ∀ p ∈ s.pending, p.2.ref < s.mem.next
  nodup : (s.pending.map Prod.fst).Nodup
  visited : ∀ p ∈ s.pending, shardIdx p.1 < s.shard
  unwritten : ∀ p ∈ s.pending, s.file.lookup p.1 = none
  untouched : ∀ k, s.shard ≤ shardIdx k → s.file.lookup k = none
  pending : ∀ p ∈ s.pending, saved s.now (heldAt s.log (τ p.1) p.1) =
    (some (s.mem.entry p.2)).filter fun e => !isStream e.val
  written : ∀ k, shardIdx k < s.shard → k ∉ s.pending.map Prod.fst →
    s.file.lookup k = saved s.now (heldAt s.log (τ k) k)
  whole : ∀ j, j + 1 < s.log.length →
    (∀ k, Changes s.log j k → shardIdx k < s.shard → j < τ k) ∨
      ∀ k, Changes s.log j k → shardIdx k < s.shard ∧ τ k ≤ j
  recordable : ∀ k, (∀ i < s.log.length, Recordable (heldAt s.log i k)) ∨
    ∀ i < s.log.length, heldAt s.log i k = heldAt s.log 0 k

lemma saveInv_start (mem : Memory) (now : Clock) : SaveInv (.start mem now) fun _ => 0 where
  started := Nat.one_pos
  current _ := rfl
  bound _ := Nat.one_pos
  made := nofun
  nodup := nodup_nil
  visited := nofun
  unwritten := nofun
  untouched _ _ := rfl
  pending := nofun
  written _ h := absurd h (Nat.not_lt_zero _)
  whole j hj := absurd hj (by simp [SaveState.start])
  recordable k := .inr fun i hi => by
    obtain rfl : i = 0 := Nat.lt_one_iff.1 hi
    rfl

section
variable {s s' : SaveState} {τ : Bytes → Nat}

section
variable (h : SaveInv s τ)
include h

lemma SaveInv.visit {es : List (Bytes × Binding)} (hp : s.pending = [])
    (hc : Copies s.mem s.now s.shard es) : SaveInv { s with shard := s.shard + 1, pending := es }
      fun k => if shardIdx k = s.shard then s.log.length - 1 else τ k := by
  obtain ⟨hnodup, hes, hall⟩ := hc
  have hnow : ∀ p ∈ es, s.mem.content p.1 = some (s.mem.entry p.2) := fun p hp => by
    rw [content, (hes p hp).1]
    rfl
  refine ⟨h.started, h.current, ?_, fun p hp => s.mem.made (hes p hp).1, hnodup,
    fun p hp => Nat.lt_succ_of_le (hes p hp).2.1.le, ?_, ?_, ?_, ?_, ?_, h.recordable⟩
  · intro k
    split_ifs
    · exact Nat.sub_lt h.started Nat.one_pos
    · exact h.bound k
  · exact fun p hp => h.untouched p.1 (hes p hp).2.1.ge
  · exact fun k hk => h.untouched k (Nat.le_of_succ_le hk)
  · intro p hp
    rw [if_pos (hes p hp).2.1, h.current, hnow p hp, saved, liveEntry_some, (hes p hp).2.2]
    rfl
  · intro k hk hnot
    by_cases hks : shardIdx k = s.shard
    · -- a key that was not copied is absent or past its deadline
      rw [if_pos hks, h.current, h.untouched k hks.ge]
      cases hl : s.mem.entries.lookup k with
      | none => simp [content, hl, saved]
      | some b =>
      have hmem : k ∈ s.mem.entries.keys := by
        rw [Finmap.mem_keys, ← Finmap.lookup_isSome, hl]
        rfl
      have hold := (hall k hmem hks).resolve_right hnot
      simp only [content, hl, Option.map_some, Option.all_some] at hold ⊢
      rw [saved, liveEntry_some, hold]
      rfl
    · rw [if_neg hks]
      refine h.written k ?_ (by simp [hp])
      have hk : shardIdx k < s.shard + 1 := hk
      omega
  · intro j hj
    obtain hj' | hj' := h.whole j hj
    · refine .inl fun k hk hks => ?_
      split_ifs with he
      · have hj : j + 1 < s.log.length := hj
        omega
      · have hks : shardIdx k < s.shard + 1 := hks
        exact hj' k hk (by omega)
    · refine .inr fun k hk => ?_
      obtain ⟨hks, hle⟩ := hj' k hk
      exact ⟨hks.trans (Nat.lt_succ_self _), by rwa [if_neg hks.ne]⟩

lemma SaveInv.write {k : Bytes} {b : Binding} {rest : List (Bytes × Binding)}
    (hp : s.pending = (k, b) :: rest) : SaveInv { s with
      pending := rest
      file := if isStream (s.mem.heap b.ref) then s.file else s.file.insert k (s.mem.entry b) } τ := by
  have hrest : ∀ p ∈ rest, p ∈ s.pending := fun p hr => hp ▸ mem_cons_of_mem _ hr
  have hnodup : k ∉ rest.map Prod.fst ∧ (rest.map Prod.fst).Nodup := by
    have := h.nodup
    rw [hp, map_cons] at this
    exact nodup_cons.1 this
  have hother : ∀ k', k' ≠ k →
      (if isStream (s.mem.heap b.ref) then s.file else s.file.insert k (s.mem.entry b)).lookup k' =
        s.file.lookup k' := by
    intro k' hne
    split_ifs
    · rfl
    · exact Finmap.lookup_insert_of_ne _ hne
  have hk : (k, b) ∈ s.pending := hp ▸ mem_cons_self
  refine ⟨h.started, h.current, h.bound, fun p hr => h.made p (hrest p hr), hnodup.2,
    fun p hr => h.visited p (hrest p hr), ?_, ?_, fun p hr => h.pending p (hrest p hr), ?_, h.whole, h.recordable⟩
  · intro p hr
    have hne : p.1 ≠ k := fun he => hnodup.1 (he ▸ mem_map_of_mem hr)
    exact (hother p.1 hne).trans (h.unwritten p (hrest p hr))
  · intro k' hk'
    have hne : k' ≠ k := fun he => absurd (h.visited _ hk) (by rw [← he]; exact not_lt.2 hk')
    exact (hother k' hne).trans (h.untouched k' hk')
  · intro k' hk' hnot
    by_cases hne : k' = k
    · subst hne
      rw [h.pending _ hk]
      cases hs : isStream (s.mem.heap b.ref) with
      | true => simp [entry, Option.filter_some, hs, h.unwritten _ hk]
      | false => simp [entry, Option.filter_some, hs]
    · rw [hother k' hne]
      exact h.written k' hk' (by rw [hp, map_cons, mem_cons]; exact not_or.2 ⟨hne, hnot⟩)

lemma SaveInv.exec {ops : List HeapOp} (hg : Uncut s (.exec ops)) :
    SaveInv { s with mem := s.mem.applyAll ops, log := s.log ++ [(s.mem.applyAll ops).content] } τ := by
  obtain ⟨hside, hspare, hrec⟩ := hg
  have hlen : (s.log ++ [(s.mem.applyAll ops).content]).length = s.log.length + 1 := by simp
  have hold : ∀ {i}, i < s.log.length → ∀ k, heldAt (s.log ++ [(s.mem.applyAll ops).content]) i k = heldAt s.log i k :=
    fun hi k => heldAt_append hi _ k
  have hnew : ∀ k, heldAt (s.log ++ [(s.mem.applyAll ops).content]) s.log.length k = (s.mem.applyAll ops).content k :=
    heldAt_last _ _
  have hchanges : ∀ j k, j + 1 < s.log.length →
      (Changes (s.log ++ [(s.mem.applyAll ops).content]) j k ↔ Changes s.log j k) := by
    intro j k hj
    rw [Changes, Changes, hold (by omega), hold hj]
  have hlast : ∀ k, Changes (s.log ++ [(s.mem.applyAll ops).content]) (s.log.length - 1) k ↔
      s.mem.content k ≠ (s.mem.applyAll ops).content k := by
    intro k
    have := h.started
    rw [Changes, hold (by omega), h.current, Nat.sub_add_cancel h.started, hnew]
  have hentry : ∀ p ∈ s.pending, (s.mem.applyAll ops).entry p.2 = s.mem.entry p.2 := fun p hp => by
    rw [entry, heap_applyAll ops (h.made p hp) (hspare p hp)]
    rfl
  refine ⟨by simp, ?_, ?_, ?_, h.nodup, h.visited, h.unwritten, h.untouched, ?_, ?_, ?_, ?_⟩
  · intro k
    rw [hlen, Nat.add_sub_cancel, hnew]
  · intro k
    rw [hlen]
    exact (h.bound k).trans (Nat.lt_succ_self _)
  · exact fun p hp => (h.made p hp).trans_le (next_le_applyAll ops s.mem)
  · intro p hp
    simp only [hold (h.bound p.1), hentry p hp]
    exact h.pending p hp
  · intro k hk hnot
    simp only [hold (h.bound k)]
    exact h.written k hk hnot
  · intro j hj
    rw [hlen] at hj
    by_cases hj' : j + 1 < s.log.length
    · simp only [hchanges j _ hj']
      exact h.whole j hj'
    obtain rfl : j = s.log.length - 1 := by omega
    simp only [hlast]
    obtain hlater | hearlier := hside
    · exact .inl fun k hk hks => absurd hks (not_lt.2 (hlater k hk))
    · exact .inr fun k hk => ⟨hearlier k hk, Nat.le_sub_one_of_lt (h.bound k)⟩
  · intro k
    have hpos := h.started
    -- a key that has never changed may hold a stream; once it changes it never has
    have hbefore : s.mem.content k = (s.mem.applyAll ops).content k ∨ ∀ i < s.log.length, Recordable (heldAt s.log i k) := by
      by_cases hk : s.mem.content k = (s.mem.applyAll ops).content k
      · exact .inl hk
      refine .inr fun i hi => (h.recordable k).elim (fun hr => hr i hi) fun hc => ?_
      rw [hc i hi, ← hc (s.log.length - 1) (by omega), h.current]
      exact (hrec k hk).1
    by_cases hk : s.mem.content k = (s.mem.applyAll ops).content k
    · have hcur : (s.mem.applyAll ops).content k = heldAt s.log (s.log.length - 1) k := by rw [h.current, hk]
      obtain hr | hc := h.recordable k
      · exact .inl (forall_heldAt_append Recordable hr (by rw [hcur]; exact hr _ (by omega)))
      refine .inr ?_
      rw [hold hpos]
      exact forall_heldAt_append (· = heldAt s.log 0 k) hc (by rw [hcur, hc _ (by omega)])
    · exact .inl (forall_heldAt_append Recordable (hbefore.resolve_left hk) (hrec k hk).2)

lemma saveStep_inv {a : SaveAct} (hg : Uncut s a) (hs : saveStep s a = some s') : ∃ τ', SaveInv s' τ' := by
  cases a with
  | visit es =>
    simp only [saveStep] at hs
    split_ifs at hs with hv
    cases hs
    exact ⟨_, h.visit hv.1 hv.2.2⟩
  | write =>
    cases hp : s.pending with
    | nil => simp [saveStep, hp] at hs
    | cons p rest =>
      simp only [saveStep, hp] at hs
      cases hs
      exact ⟨τ, h.write hp⟩
  | exec ops =>
    cases hs
    exact ⟨τ, h.exec hg⟩

lemma SaveInv.allOrNothing (hd : s.Done) : AllOrNothing s.now s.log s.file := by
  have hvisited : ∀ k, shardIdx k < s.shard := fun k => hd.1 ▸ shardIdx_lt k
  refine ⟨τ, fun j hj => ⟨fun k hk => ⟨h.bound k, ?_⟩, ?_⟩⟩
  · rw [h.written k (hvisited k) (by simp [hd.2])]
    refine saved_of_recordable ((h.recordable k).elim (fun hr => hr _ (h.bound k)) fun hc => ?_)
    exact absurd ((hc j (by omega)).trans (hc (j + 1) hj).symm) hk
  · obtain hall | hnone := h.whole j hj
    · exact .inl fun k hk => hall k hk (hvisited k)
    · exact .inr fun k hk => (hnone k hk).2

end

end

/-- In every run in which no transaction is cut, the finished file shows all of each transaction or nothing
of it. -/
theorem bgsave_all_or_nothing {mem : Memory} {now : Clock} {as : List SaveAct} {s : SaveState}
    (hrun : Run saveStep Uncut (.start mem now) as s) (hd : s.Done) : AllOrNothing s.now s.log s.file := by
  obtain ⟨τ, h⟩ := hrun.inv (I := fun s => ∃ τ, SaveInv s τ)
    (fun ⟨_, h⟩ hg hs => saveStep_inv h hg hs) ⟨_, saveInv_start mem now⟩
  exact h.allOrNothing hd

/-! ## Cut and whole -/

/-- A transaction that sets `al`, of the first shard, and `cw`, of the last one. -/
def setBoth : SaveAct := .exec [.store (ascii "al") (.str (ascii "1")) 0, .store (ascii "cw") (.str (ascii "2")) 0]

/-- It is executed when the first shard has been copied. -/
def cutSave : List SaveAct :=
  .visit [] :: setBoth :: (List.replicate 62 (.visit []) ++ [.visit [(ascii "cw", ⟨1, 0⟩)], .write])

/-- The file has `cw` and not `al`. -/
theorem exec_cut_by_bgsave :
    ∃ s, Run saveStep Free (.start .empty ⟨0, by decide⟩) cutSave s ∧ s.Done ∧ ¬ AllOrNothing s.now s.log s.file := by
  have hrun : ∃ s, runAll saveStep (.start .empty ⟨0, by decide⟩) cutSave = some s ∧ s.Done ∧
      s.log.length = 2 ∧ s.now.ms = 0 ∧
      (heldAt s.log 0 (ascii "al") = none ∧ heldAt s.log 1 (ascii "al") = some ⟨.str (ascii "1"), 0⟩ ∧
        s.file.lookup (ascii "al") = none) ∧
      heldAt s.log 0 (ascii "cw") = none ∧ heldAt s.log 1 (ascii "cw") = some ⟨.str (ascii "2"), 0⟩ ∧
        s.file.lookup (ascii "cw") = some ⟨.str (ascii "2"), 0⟩ :=
    ⟨_, rfl, ⟨rfl, rfl⟩, rfl, rfl, ⟨rfl, rfl, rfl⟩, rfl, rfl, rfl⟩
  obtain ⟨s, hs, hdone, hlen, hms, ⟨hal0, hal1, hal⟩, hcw0, hcw1, hcw⟩ := hrun
  refine ⟨s, .of_runAll hs, hdone, ?_⟩
  rintro ⟨τ, h⟩
  obtain ⟨hshown, hside⟩ := h 0 (by omega)
  have halChanges : Changes s.log 0 (ascii "al") := by
    rw [Changes, hal0, hal1]
    nofun
  have hcwChanges : Changes s.log 0 (ascii "cw") := by
    rw [Changes, hcw0, hcw1]
    nofun
  obtain ⟨halBound, halShown⟩ := hshown _ halChanges
  obtain ⟨hcwBound, hcwShown⟩ := hshown _ hcwChanges
  have hτal : τ (ascii "al") = 0 := by
    by_contra hne
    obtain he : τ (ascii "al") = 1 := by omega
    rw [he, hal1, hal, hms] at halShown
    cases halShown
  have hτcw : τ (ascii "cw") = 1 := by
    by_contra hne
    obtain he : τ (ascii "cw") = 0 := by omega
    rw [he, hcw0, hcw] at hcwShown
    cases hcwShown
  obtain hafter | hbefore := hside
  · exact absurd (hafter _ halChanges) (by omega)
  · exact absurd (hbefore _ hcwChanges) (by omega)

/-- The steps of the save after that transaction. -/
def laterSave : List SaveAct :=
  .visit [(ascii "al", ⟨0, 0⟩)] :: .write :: (List.replicate 62 (.visit []) ++ [.visit [(ascii "cw", ⟨1, 0⟩)], .write])

/-- Executed before the first shard is copied, the transaction is in the file as a whole. -/
theorem exec_before_bgsave : ∃ s, Run saveStep Uncut (.start .empty ⟨0, by decide⟩) (setBoth :: laterSave) s ∧ s.Done ∧
      AllOrNothing s.now s.log s.file := by
  have hsteps : ∀ s : SaveState, ∀ a ∈ laterSave, Uncut s a := by
    intro s a ha
    cases a with
    | exec ops => exact absurd ha (by simp [laterSave])
    | visit | write => trivial
  have hfirst : Uncut (.start .empty ⟨0, by decide⟩) setBoth := by
    refine ⟨.inl fun _ _ => Nat.zero_le _, nofun, fun k _ => ⟨nofun, ?_⟩⟩
    intro x hx
    change ((empty.store (ascii "al") (.str (ascii "1")) 0).store (ascii "cw") (.str (ascii "2")) 0).content k =
      some x at hx
    rw [content_store, content_store] at hx
    split_ifs at hx
    · cases hx; rfl
    · cases hx; rfl
    · cases hx
  have hrun : ∃ s, Run saveStep Uncut (.start .empty ⟨0, by decide⟩) (setBoth :: laterSave) s ∧ s.Done :=
    ⟨_, .cons hfirst rfl (.guarded hsteps rfl), rfl, rfl⟩
  obtain ⟨s, hs, hd⟩ := hrun
  exact ⟨s, hs, hd, bgsave_all_or_nothing hs hd⟩

end Gopherdis.Rdb

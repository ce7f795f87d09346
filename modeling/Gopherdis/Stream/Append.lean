/-
What a stream holds: its live records in the order of their IDs, each with as many values as field
names and within one arena. Adding, deleting and trimming keep that. An entry whose values fit an
arena is appended to the entries; interned names are read back as long as there are no more of them
than a `uint16` can number.
-/
import Gopherdis.Stream.Stream
import Mathlib.Data.List.GetD

namespace Gopherdis.Stream

open Lib List StreamID StreamChunk

/-! ## The live records -/

variable (c : StreamChunk)

def StreamChunk.active : List EntryRecord := c.entries.filter fun r => !r.deleted

variable (cs : List StreamChunk)

def activeIn : List EntryRecord := cs.flatMap active

variable (s : Stream)

def Stream.records : List EntryRecord := activeIn s.chunks

@[simp] lemma activeIn_nil : activeIn [] = [] := rfl

@[simp] lemma activeIn_cons : activeIn (c :: cs) = c.active ++ activeIn cs := rfl

variable (id : StreamID)

@[simp] lemma not_lt_zeroID : id.lt zeroID = false := by
  simp [lt, zeroID]

@[simp] lemma not_maxID_lt : maxID.lt id = false := by
  have h1 := id.ms.toNat_lt
  have h2 := id.seq.toNat_lt
  have hmax : (UInt64.ofNat (2 ^ 64 - 1)).toNat = 2 ^ 64 - 1 := by decide
  simp only [lt, maxID, Bool.or_eq_false_iff, Bool.and_eq_false_iff, decide_eq_false_iff_not,
    UInt64.lt_iff_toNat_lt, hmax]
  omega

lemma rangeRecords_from (start : StreamID) (rs : List EntryRecord) :
    rangeRecords start maxID rs = ((rs.filter fun r => !r.deleted).filter fun r => !r.id.lt start, false) := by
  induction rs with
  | nil => rfl
  | cons r rs ih =>
    rw [rangeRecords, ih, filter_cons]
    cases r.deleted <;> cases hlt : r.id.lt start <;> simp [hlt]

lemma rangeChunks_all : rangeChunks zeroID maxID cs = activeIn cs := by
  induction cs with
  | nil => rfl
  | cons c cs ih =>
  have hlast : (c.entries.getLast?).any (fun r => r.id.lt zeroID) = false := by
    simp only [not_lt_zeroID]
    cases c.entries.getLast? <;> rfl
  rw [rangeChunks, hlast, rangeRecords_from, ih]
  simp [active]

variable (s : Stream)

lemma Stream.entries_eq : s.entries = s.records.map s.unpackEntry := by
  rw [Stream.entries, Stream.range, rangeChunks_all]
  rfl

/-! ## Appending -/

def totalBytes (values : List Bytes) : Nat := (values.map List.length).sum

lemma allocValues_spec (used : Nat) (vs : List Bytes) :
    (allocValues used vs).2 = true ↔ totalBytes vs = 0 ∨ used + totalBytes vs ≤ chunkArenaSize := by
  induction vs generalizing used with
  | nil => simp [allocValues, totalBytes]
  | cons v vs ih =>
  have hsum : totalBytes (v :: vs) = v.length + totalBytes vs := rfl
  rw [allocValues, hsum]
  by_cases hv : v = []
  · rw [if_pos hv, ih, hv]
    simp
  have hpos := length_pos_iff.2 hv
  rw [if_neg hv, arenaAlloc]
  by_cases ha : used + v.length ≤ chunkArenaSize
  · rw [if_pos ha]
    simp only [ih]
    omega
  rw [if_neg ha]
  simp only [Bool.false_eq_true, false_iff]
  omega

variable (fieldIDs : List UInt16) (values : List Bytes)

lemma StreamChunk.append_entries : (c.append id fieldIDs values).1.entries =
      c.entries ++ if (c.append id fieldIDs values).2 then [⟨id, fieldIDs, values, false⟩] else [] := by
  unfold append
  by_cases hfull : maxChunkEntries ≤ c.entries.length
  · simp [if_pos hfull]
  · rw [if_neg hfull]
    rcases allocValues c.arena values with ⟨arena, _ | _⟩ <;> simp

lemma StreamChunk.append_active : (c.append id fieldIDs values).1.active =
      c.active ++ if (c.append id fieldIDs values).2 then [⟨id, fieldIDs, values, false⟩] else [] := by
  rw [active, append_entries, filter_append]
  split_ifs <;> rfl

lemma StreamChunk.append_deletedCount (h : c.deletedCount = c.entries.countP (·.deleted)) :
    (c.append id fieldIDs values).1.deletedCount = (c.append id fieldIDs values).1.entries.countP (·.deleted) := by
  unfold append
  split_ifs with hfull
  · exact h
  · rcases allocValues c.arena values with ⟨arena, _ | _⟩ <;> simp [h]

variable {c : StreamChunk}

lemma StreamChunk.append_fits {id : StreamID} {fieldIDs : List UInt16} {values : List Bytes}
    (h : (c.append id fieldIDs values).2 = true) : totalBytes values ≤ chunkArenaSize := by
  have hspec := allocValues_spec c.arena values
  unfold append at h
  split_ifs at h with hfull
  rcases ha : allocValues c.arena values with ⟨arena, _ | _⟩
  · rw [ha] at h; cases h
  rw [ha] at hspec
  simp only [true_iff] at hspec
  omega

lemma newChunk_append {values : List Bytes} (h : totalBytes values ≤ chunkArenaSize) (id : StreamID)
    (fieldIDs : List UInt16) : (newChunk.append id fieldIDs values).2 = true := by
  have hspec := (allocValues_spec 0 values).2 (.inr (by omega))
  unfold append
  rcases ha : allocValues newChunk.arena values with ⟨arena, _ | _⟩
  · rw [show allocValues 0 values = (arena, false) from ha] at hspec; cases hspec
  · rfl

variable {cs : List StreamChunk}

lemma appendLast_active (hne : cs ≠ []) (id : StreamID) (fieldIDs : List UInt16)
    (values : List Bytes) : activeIn (appendLast id fieldIDs values cs) =
      activeIn cs ++ if totalBytes values ≤ chunkArenaSize then [⟨id, fieldIDs, values, false⟩] else [] := by
  fun_induction appendLast id fieldIDs values cs
  case case1 => exact absurd rfl hne
  case case2 tail tail' htail =>
    have h1 := tail.append_active id fieldIDs values
    have h2 := @append_fits tail id fieldIDs values
    rw [htail] at h1 h2
    rw [if_pos (h2 rfl)]
    simpa using h1
  case case3 tail tail' htail =>
    have h1 := tail.append_active id fieldIDs values
    have h2 := newChunk.append_active id fieldIDs values
    rw [htail] at h1
    have h1' : tail'.active = tail.active := by simpa using h1
    rw [activeIn_cons, activeIn_cons, h2, h1']
    by_cases hfit : totalBytes values ≤ chunkArenaSize
    · rw [newChunk_append hfit, if_pos hfit]; simp [StreamChunk.active, newChunk]
    · rw [if_neg fun h => hfit (append_fits h), if_neg hfit]; simp [active, newChunk]
  case case4 c cs hcs ih =>
    have hne' : cs ≠ [] := by rintro rfl; exact hcs rfl
    rw [activeIn_cons, activeIn_cons, ih hne', append_assoc]

lemma appendLast_deletedCount (h : ∀ c ∈ cs, c.deletedCount = c.entries.countP (·.deleted))
    (id : StreamID) (fieldIDs : List UInt16) (values : List Bytes) :
    ∀ c ∈ appendLast id fieldIDs values cs, c.deletedCount = c.entries.countP (·.deleted) := by
  fun_induction appendLast id fieldIDs values cs
  case case1 => exact h
  case case2 tail tail' htail =>
    have h1 := tail.append_deletedCount id fieldIDs values (h _ (mem_cons_self ..))
    rw [htail] at h1
    simpa using h1
  case case3 tail tail' htail =>
    have h1 := tail.append_deletedCount id fieldIDs values (h _ (mem_cons_self ..))
    rw [htail] at h1
    simpa using ⟨h1, newChunk.append_deletedCount id fieldIDs values rfl⟩
  case case4 c cs hcs ih =>
    rw [forall_mem_cons] at h ⊢
    exact ⟨h.1, ih h.2⟩

/-! ## Trimming -/

lemma active_length (h : c.deletedCount = c.entries.countP (·.deleted)) : (c.active.length : Int) = c.numActive := by
  have hsplit := length_eq_countP_add_countP (fun r : EntryRecord => r.deleted) (l := c.entries)
  have hfilter : c.active.length = c.entries.countP fun r => !r.deleted := (countP_eq_length_filter ..).symm
  have hnot : (c.entries.countP fun r => ¬ r.deleted) = c.entries.countP fun r => !r.deleted :=
    countP_congr fun r _ => by simp
  rw [numActive, h, hfilter]
  omega

variable {maxLen : Int}

lemma markOldest_spec {length : Int} (h : maxLen < length) (rs : List EntryRecord) :
    ((markOldest maxLen length rs).1.filter fun r => !r.deleted) =
        (rs.filter fun r => !r.deleted).drop (length - maxLen).toNat ∧ length - (markOldest maxLen length rs).2 =
        (rs.filter fun r => !r.deleted).length - ((markOldest maxLen length rs).1.filter fun r => !r.deleted).length ∧
      (markOldest maxLen length rs).1.countP (·.deleted) =
        rs.countP (·.deleted) + (length - (markOldest maxLen length rs).2).toNat := by
  fun_induction markOldest maxLen length rs
  case case1 => simp
  case case2 length r rs hdel rs' length' hmark ih =>
    rw [hmark] at ih
    obtain ⟨hdrop, hlen, hcount⟩ := ih h
    simp only at hdrop hlen hcount
    simp only [filter_cons, hdel, Bool.not_true, Bool.false_eq_true, if_false, countP_cons, if_true]
    exact ⟨hdrop, hlen, by omega⟩
  case case3 length r rs hdel hle =>
    have hone : (length - maxLen).toNat = 1 := by omega
    simp [hdel, hone]
  case case4 length r rs hdel hle rs' length' hmark ih =>
    rw [hmark] at ih
    obtain ⟨hdrop, hlen, hcount⟩ := ih (by omega)
    have hsucc : (length - maxLen).toNat = (length - 1 - maxLen).toNat + 1 := by omega
    have hle := congrArg List.length hdrop
    simp only [length_drop] at hlen hcount hle
    simp only [filter_cons, hdel, Bool.not_true, Bool.not_false, Bool.false_eq_true, if_false, if_true,
      countP_cons, length_cons, hsucc, drop_succ_cons]
    exact ⟨hdrop, by omega, by omega⟩

lemma marked_spec {length length' : Int} {entries : List EntryRecord}
    (h : c.deletedCount = c.entries.countP (·.deleted)) (hlt : maxLen < length)
    (hmark : markOldest maxLen length c.entries = (entries, length')) :
    let c' : StreamChunk := { c with entries, deletedCount := c.deletedCount + (length - length').toNat }
    c'.deletedCount = c'.entries.countP (·.deleted) ∧ (c'.active.length : Int) = c'.numActive ∧
      length - length' = c.active.length - c'.active.length ∧ c'.active = c.active.drop (length - maxLen).toNat := by
  obtain ⟨hdrop, hlen, hcount⟩ := markOldest_spec hlt c.entries
  rw [hmark] at hdrop hlen hcount
  intro c'
  have hc' : c'.deletedCount = c'.entries.countP (·.deleted) := by
    show c.deletedCount + _ = _
    rw [h, hcount]
  exact ⟨hc', active_length hc', hlen, hdrop⟩

lemma trimChunks_spec (maxLen : Int) (approx : Bool) (length : Int)
    (h : ∀ c ∈ cs, c.deletedCount = c.entries.countP (·.deleted)) :
    activeIn (trimChunks maxLen approx length cs).1 = (activeIn cs).drop (length - maxLen).toNat ∧
      length - (trimChunks maxLen approx length cs).2 =
        (activeIn cs).length - (activeIn (trimChunks maxLen approx length cs).1).length ∧
      ∀ c ∈ (trimChunks maxLen approx length cs).1, c.deletedCount = c.entries.countP (·.deleted) := by
  fun_induction trimChunks maxLen approx length cs
  case case1 => simp
  case case2 length c cs hle =>
    rw [show (length - maxLen).toNat = 0 by omega, drop_zero]
    exact ⟨rfl, by simp, h⟩
  case case3 length c cs hlt happ ih =>
    rw [forall_mem_cons] at h
    obtain ⟨hdrop, hlen, hcount⟩ := ih h.2
    have hactive := active_length h.1
    have hall : c.active.length ≤ (length - maxLen).toNat := by omega
    refine ⟨?_, ?_, hcount⟩
    · rw [hdrop, activeIn_cons, drop_append, drop_eq_nil_of_le hall, nil_append]
      congr 1
      omega
    · rw [activeIn_cons, length_append, Nat.cast_add, hactive]
      omega
  case case4 length c cs hlt happ entries length' hmark c' hnone ih =>
    rw [forall_mem_cons] at h
    obtain ⟨hdrop, hlen, hcount⟩ := ih h.2
    obtain ⟨-, hactive, hmlen, hmdrop⟩ := marked_spec h.1 (not_le.1 hlt) hmark
    rw [← hactive, hmdrop, length_drop] at hnone
    rw [hmdrop, length_drop] at hmlen
    have hall : c.active.length ≤ (length - maxLen).toNat := by omega
    refine ⟨?_, ?_, hcount⟩
    · rw [hdrop, activeIn_cons, drop_append, drop_eq_nil_of_le hall, nil_append]
      congr 1
      omega
    · rw [activeIn_cons, length_append, Nat.cast_add]
      omega
  case case5 length c cs hlt happ entries length' hmark c' hsome =>
    rw [forall_mem_cons] at h
    obtain ⟨hc', hactive, hmlen, hmdrop⟩ := marked_spec h.1 (not_le.1 hlt) hmark
    rw [← hactive, hmdrop, length_drop] at hsome
    rw [hmdrop, length_drop] at hmlen
    refine ⟨?_, ?_, forall_mem_cons.2 ⟨hc', h.2⟩⟩
    · rw [activeIn_cons, activeIn_cons, hmdrop, drop_append_of_le_length (by omega)]
    · rw [activeIn_cons, activeIn_cons, length_append, length_append, hmdrop, length_drop]
      omega

/-! ## Well-formed streams -/

structure Stream.WF (s : Stream) : Prop where
  ordered : s.records.Pairwise fun a b => a.id.lt b.id = true
  shape : ∀ r ∈ s.records, r.fieldIDs.length = r.values.length ∧ r.values ≠ [] ∧ totalBytes r.values ≤ chunkArenaSize
  below : ∀ r ∈ s.records, s.lastID.lt r.id = false
  counted : (s.records.length : Int) ≤ s.length
  deleted : ∀ c ∈ s.chunks, c.deletedCount = c.entries.countP (·.deleted)

lemma StreamID.lt_of_lt_of_not_lt {a b c : StreamID} (h : b.lt c = true) (h' : b.lt a = false) : a.lt c = true := by
  simp only [lt, Bool.or_eq_true, Bool.and_eq_true, decide_eq_true_eq, Bool.or_eq_false_iff,
    Bool.and_eq_false_iff, decide_eq_false_iff_not, UInt64.lt_iff_toNat_lt, ← UInt64.toNat_inj] at h h' ⊢
  omega

lemma StreamID.lt_asymm {a b : StreamID} (h : a.lt b = true) : b.lt a = false := by
  simp only [lt, Bool.or_eq_true, Bool.and_eq_true, decide_eq_true_eq, Bool.or_eq_false_iff,
    Bool.and_eq_false_iff, decide_eq_false_iff_not, UInt64.lt_iff_toNat_lt, ← UInt64.toNat_inj] at h ⊢
  omega

@[simp] lemma StreamID.lt_irrefl (a : StreamID) : a.lt a = false := by simp [lt]

/-- The part of well-formedness that does not look into the records. -/
structure Stream.Tracked (s : Stream) : Prop where
  ordered : s.records.Pairwise fun a b => a.id.lt b.id = true
  below : ∀ r ∈ s.records, s.lastID.lt r.id = false
  counted : (s.records.length : Int) ≤ s.length
  deleted : ∀ c ∈ s.chunks, c.deletedCount = c.entries.countP (·.deleted)

variable {s : Stream}

lemma Stream.WF.tracked (h : s.WF) : s.Tracked := ⟨h.ordered, h.below, h.counted, h.deleted⟩

lemma Stream.Tracked.wf (h : s.Tracked) (hshape : ∀ r ∈ s.records, r.fieldIDs.length = r.values.length ∧ r.values ≠ [] ∧
      totalBytes r.values ≤ chunkArenaSize) : s.WF :=
  ⟨h.ordered, hshape, h.below, h.counted, h.deleted⟩

lemma newStream_tracked : newStream.Tracked where
  ordered := List.Pairwise.nil
  below := by simp [Stream.records, newStream]
  counted := by simp [Stream.records, newStream]
  deleted := by simp [newStream]

lemma newStream_wf : newStream.WF := newStream_tracked.wf (by simp [Stream.records, newStream])

variable {s' : Stream}

lemma Stream.Tracked.of_sublist (h : s.Tracked) (hsub : s'.records.Sublist s.records)
    (hlast : s'.lastID = s.lastID) (hlen : s.length - s'.length = s.records.length - s'.records.length)
    (hdel : ∀ c ∈ s'.chunks, c.deletedCount = c.entries.countP (·.deleted)) : s'.Tracked where
  ordered := h.ordered.sublist hsub
  below r hr := hlast ▸ h.below r (hsub.subset hr)
  counted := by have := h.counted; omega
  deleted := hdel

lemma Stream.Tracked.trimInternal_spec (h : s.Tracked) (maxLen : Int) (approx : Bool) :
    (s.trimInternal maxLen approx).records = s.records.drop (s.length - maxLen).toNat ∧
      (s.trimInternal maxLen approx).Tracked := by
  obtain ⟨hdrop, hlen, hdel⟩ := trimChunks_spec maxLen approx s.length h.deleted
  have hsub : (activeIn (trimChunks maxLen approx s.length s.chunks).1).Sublist s.records := hdrop ▸ drop_sublist ..
  exact ⟨hdrop, h.of_sublist hsub rfl hlen hdel⟩

lemma internFields_length (fields names : List Bytes) : (internFields fields names).2.length = names.length := by
  induction names generalizing fields with
  | nil => rfl
  | cons name names ih => simp [internFields, ih]

variable (id : StreamID)

/-- The stream before a possible trimming. -/
def Stream.appended (pairs : List Bytes) : Stream :=
  ⟨appendLast id (internFields s.fields ((pairUp pairs).map Prod.fst)).2 ((pairUp pairs).map Prod.snd)
      (if s.chunks = [] then [newChunk] else s.chunks),
    s.length + 1, if s.chunks = [] then id else s.firstID, id,
    (internFields s.fields ((pairUp pairs).map Prod.fst)).1⟩

lemma Stream.addRaw_eq (pairs : List Bytes) (maxLen : Int) (approx : Bool) :
    s.addRaw id pairs maxLen approx = if 0 < s.length ∧ ¬ s.lastID.lt id then none
      else some (if 0 < maxLen ∧ maxLen < s.length + 1 then (s.appended id pairs).trimInternal maxLen approx
        else s.appended id pairs) := rfl

lemma Stream.appended_records (pairs : List Bytes) :
    (s.appended id pairs).records = s.records ++ if totalBytes ((pairUp pairs).map Prod.snd) ≤ chunkArenaSize then
        [⟨id, (internFields s.fields ((pairUp pairs).map Prod.fst)).2, (pairUp pairs).map Prod.snd, false⟩]
      else [] := by
  have hne : (if s.chunks = [] then [newChunk] else s.chunks) ≠ [] := by
    split_ifs with h
    · exact cons_ne_nil _ _
    · exact h
  have hsame : activeIn (if s.chunks = [] then [newChunk] else s.chunks) = s.records := by
    rw [Stream.records]
    split_ifs with h
    · rw [h]; rfl
    · rfl
  rw [← hsame]
  exact appendLast_active hne _ _ _

variable {approx : Bool}

lemma Stream.addRaw_cases {id : StreamID} {pairs : List Bytes} (hadd : s.addRaw id pairs maxLen approx = some s') :
    s' = s.appended id pairs ∨ s' = (s.appended id pairs).trimInternal maxLen approx := by
  rw [Stream.addRaw_eq] at hadd
  split_ifs at hadd
  · exact .inr (Option.some.inj hadd).symm
  · exact .inl (Option.some.inj hadd).symm

lemma Stream.Tracked.lt_added (h : s.Tracked) {id : StreamID} {pairs : List Bytes}
    (hadd : s.addRaw id pairs maxLen approx = some s') : ∀ r ∈ s.records, r.id.lt id = true := by
  intro r hr
  have hid : ¬ (0 < s.length ∧ ¬ s.lastID.lt id) := by
    intro hid
    rw [Stream.addRaw_eq, if_pos hid] at hadd
    cases hadd
  have hpos : 0 < s.length := by
    have := h.counted
    have := length_pos_of_mem hr
    omega
  exact lt_of_lt_of_not_lt (by simpa [hpos] using hid) (h.below r hr)

lemma Stream.Tracked.appended_deletedCount (h : s.Tracked) (id : StreamID) (pairs : List Bytes) :
    ∀ c ∈ (s.appended id pairs).chunks, c.deletedCount = c.entries.countP (·.deleted) := by
  refine appendLast_deletedCount ?_ _ _ _
  split_ifs
  · simp [newChunk]
  · exact h.deleted

lemma Stream.Tracked.appended (h : s.Tracked) {id : StreamID} (pairs : List Bytes)
    (hgreater : ∀ r ∈ s.records, r.id.lt id = true) : (s.appended id pairs).Tracked := by
  refine ⟨?_, ?_, ?_, h.appended_deletedCount id pairs⟩
  · rw [Stream.appended_records, pairwise_append]
    refine ⟨h.ordered, by split_ifs <;> simp, fun a ha b hb => ?_⟩
    split_ifs at hb
    · rw [mem_singleton.1 hb]; exact hgreater a ha
    · cases hb
  · intro r hr
    show id.lt r.id = false
    rw [Stream.appended_records, mem_append] at hr
    obtain hr | hr := hr
    · exact lt_asymm (hgreater r hr)
    split_ifs at hr
    · rw [mem_singleton.1 hr]; exact lt_irrefl id
    · cases hr
  · have hcounted := h.counted
    have hlen : (s.appended id pairs).length = s.length + 1 := rfl
    rw [Stream.appended_records, length_append, hlen]
    split_ifs <;> simp <;> omega

lemma Stream.Tracked.addRaw (h : s.Tracked) {id : StreamID} {pairs : List Bytes}
    (hadd : s.addRaw id pairs maxLen approx = some s') :
    s'.records.Sublist (s.appended id pairs).records ∧ s'.Tracked := by
  have happended := h.appended pairs (h.lt_added hadd)
  obtain rfl | rfl := Stream.addRaw_cases hadd
  · exact ⟨List.Sublist.refl _, happended⟩
  · obtain ⟨hdrop, htracked⟩ := happended.trimInternal_spec maxLen approx
    exact ⟨hdrop ▸ drop_sublist .., htracked⟩

lemma Stream.WF.addRaw (h : s.WF) {id : StreamID} {pairs : List Bytes}
    (hpairs : pairUp pairs ≠ []) (hadd : s.addRaw id pairs maxLen approx = some s') : s'.WF := by
  obtain ⟨hsub, htracked⟩ := h.tracked.addRaw hadd
  refine htracked.wf fun r hr => ?_
  have hr := hsub.subset hr
  rw [Stream.appended_records, mem_append] at hr
  obtain hr | hr := hr
  · exact h.shape r hr
  split_ifs at hr with hfit
  · rw [mem_singleton.1 hr]
    refine ⟨?_, by simpa using hpairs, hfit⟩
    rw [internFields_length, length_map, length_map]
  · cases hr

variable (ids : List StreamID)

lemma hits_cons (r : EntryRecord) (rs : List EntryRecord) :
    hits ids (r :: rs) = hits ids rs + if ¬ r.deleted ∧ r.id ∈ ids then 1 else 0 := by
  simp [hits, countP_cons]

lemma deleteRecords_spec (rs : List EntryRecord) : ((deleteRecords ids rs).filter fun r => !r.deleted) =
        (rs.filter fun r => !r.deleted).filter (fun r => r.id ∉ ids) ∧
      (rs.filter fun r => !r.deleted).length = ((deleteRecords ids rs).filter fun r => !r.deleted).length + hits ids rs ∧
      (deleteRecords ids rs).countP (·.deleted) = rs.countP (·.deleted) + hits ids rs := by
  induction rs with
  | nil => simp [deleteRecords, hits]
  | cons r rs ih =>
  obtain ⟨hfilter, hlen, hcount⟩ := ih
  rw [deleteRecords, map_cons, ← deleteRecords, hits_cons]
  cases hdel : r.deleted with
  | true =>
    simp [hdel, hfilter, hlen, hcount]
    omega
  | false =>
    by_cases hid : r.id ∈ ids
    all_goals
      simp [hdel, hid, hfilter, hlen, hcount]
      omega

lemma activeIn_delete (cs : List StreamChunk) :
    activeIn (cs.map fun c => c.delete ids) = (activeIn cs).filter (fun r => r.id ∉ ids) ∧
      (activeIn cs).length = (activeIn (cs.map fun c => c.delete ids)).length +
        (cs.map fun c => hits ids c.entries).sum := by
  induction cs with
  | nil => simp
  | cons c cs ih =>
  obtain ⟨hfilter, hlen, -⟩ := deleteRecords_spec ids c.entries
  have hfilter' : (c.delete ids).active = c.active.filter (fun r => r.id ∉ ids) := hfilter
  have hlen' : c.active.length = (c.delete ids).active.length + hits ids c.entries := hlen
  simp only [map_cons, activeIn_cons, sum_cons, length_append, filter_append, hfilter', ih.1]
  rw [hfilter'] at hlen'
  rw [ih.1] at ih
  exact ⟨trivial, by omega⟩

lemma Stream.Tracked.delete_spec (h : s.Tracked) (ids : List StreamID) :
    (s.delete ids).records = s.records.filter (fun r => r.id ∉ ids) ∧ (s.delete ids).Tracked := by
  obtain ⟨hfilter, hlen⟩ := activeIn_delete ids s.chunks
  have hsub : (activeIn (s.chunks.map fun c => c.delete ids)).Sublist s.records := hfilter ▸ filter_sublist
  refine ⟨hfilter, h.of_sublist hsub rfl ?_ ?_⟩
  · show s.length - (s.length - ((s.chunks.map fun c => hits ids c.entries).sum : Nat)) =
      ((activeIn s.chunks).length : Int) - (activeIn (s.chunks.map fun c => c.delete ids)).length
    omega
  · intro c' hc'
    obtain ⟨c, hc, rfl⟩ := mem_map.1 hc'
    show c.deletedCount + hits ids c.entries = _
    rw [h.deleted c hc]
    exact (deleteRecords_spec ids c.entries).2.2.symm

lemma Stream.WF.delete (h : s.WF) (ids : List StreamID) : (s.delete ids).WF := by
  obtain ⟨hfilter, htracked⟩ := h.tracked.delete_spec ids
  exact htracked.wf fun r hr => h.shape r (mem_of_mem_filter (hfilter ▸ hr))

/-! ## Interned names -/

/-- The names a `uint16` can number. -/
def maxFields : Nat := 65536

def fieldName (fields : List Bytes) (i : UInt16) : Bytes := fields.getD i.toNat []

variable {fields : List Bytes}

lemma fieldName_mono {fields' : List Bytes} (h : fields <+: fields') {i : UInt16}
    (hi : i.toNat < fields.length) : fieldName fields' i = fieldName fields i := by
  obtain ⟨more, rfl⟩ := h
  exact getD_append _ _ _ _ hi

lemma internField_eq (fields : List Bytes) (name : Bytes) :
    (internField fields name).1 = (if name ∈ fields then fields else fields ++ [name]) ∧
      (internField fields name).2 = UInt16.ofNat ((internField fields name).1.idxOf name) := by
  unfold internField
  cases hidx : fields.idxOf? name with
  | some i =>
    have hmem : name ∈ fields := by
      by_contra hn
      rw [idxOf?_eq_none_iff.2 hn] at hidx
      cases hidx
    refine ⟨(if_pos hmem).symm, ?_⟩
    rw [idxOf_eq_getD_idxOf?, hidx]
    rfl
  | none =>
    have hmem : name ∉ fields := idxOf?_eq_none_iff.1 hidx
    refine ⟨(if_neg hmem).symm, ?_⟩
    rw [idxOf_append_of_notMem hmem, idxOf_cons_self, Nat.add_zero]

lemma internField_grows (fields : List Bytes) (name : Bytes) : fields <+: (internField fields name).1 := by
  rw [(internField_eq fields name).1]
  split_ifs
  · exact prefix_refl _
  · exact prefix_append _ _

lemma mem_internField (fields : List Bytes) (name : Bytes) : name ∈ (internField fields name).1 := by
  rw [(internField_eq fields name).1]
  split_ifs with h
  · exact h
  · exact mem_append_right _ (mem_singleton_self _)

lemma internFields_grow (fields names : List Bytes) : fields <+: (internFields fields names).1 := by
  induction names generalizing fields with
  | nil => exact prefix_refl _
  | cons name names ih => exact (internField_grows fields name).trans (ih _)

lemma nodup_internFields (h : fields.Nodup) (names : List Bytes) : (internFields fields names).1.Nodup := by
  induction names generalizing fields with
  | nil => exact h
  | cons name names ih =>
  have hname : (internField fields name).1.Nodup := by
    rw [(internField_eq fields name).1]
    split_ifs with hmem
    · exact h
    rw [nodup_append]
    refine ⟨h, nodup_singleton _, fun a ha b hb => ?_⟩
    rw [mem_singleton.1 hb]
    rintro rfl
    exact hmem ha
  exact ih hname

lemma idxOf_of_begins {l l' : List Bytes} (h : l <+: l') {a : Bytes} (ha : a ∈ l) : l'.idxOf a = l.idxOf a := by
  obtain ⟨more, rfl⟩ := h
  exact idxOf_append_of_mem ha

lemma internFields_ids (fields names : List Bytes) :
    (internFields fields names).2 = names.map fun name => UInt16.ofNat ((internFields fields names).1.idxOf name) := by
  induction names generalizing fields with
  | nil => rfl
  | cons name names ih =>
    have hidx := idxOf_of_begins (internFields_grow _ names) (mem_internField fields name)
    exact congrArg₂ List.cons ((internField_eq fields name).2.trans (congrArg UInt16.ofNat hidx.symm)) (ih _)

lemma mem_internFields {names : List Bytes} {name : Bytes} (h : name ∈ names) :
    name ∈ (internFields fields names).1 := by
  induction names generalizing fields with
  | nil => cases h
  | cons n names ih =>
    rcases mem_cons.1 h with rfl | h
    · exact (internFields_grow _ names).subset (mem_internField fields name)
    · exact ih h

lemma fieldName_idxOf (h : fields.Nodup) {name : Bytes} (hmem : name ∈ fields) :
    fieldName fields (UInt16.ofNat (fields.idxOf name)) = name ↔ fields.idxOf name < maxFields := by
  have hlt := idxOf_lt_length_of_mem hmem
  have hnum : (UInt16.ofNat (fields.idxOf name)).toNat = fields.idxOf name % 65536 := rfl
  have hmod : fields.idxOf name % 65536 < fields.length := lt_of_le_of_lt (Nat.mod_le _ _) hlt
  rw [fieldName, hnum, getD_eq_getElem _ _ hmod, maxFields]
  constructor
  · intro hget
    have hidx := h.idxOf_getElem _ hmod
    rw [hget] at hidx
    omega
  · intro hsmall
    have hself : fields.idxOf name % 65536 = fields.idxOf name := Nat.mod_eq_of_lt hsmall
    simp [hself, getElem_idxOf]

/-- Each of the names has a number once they are interned. -/
def Numbered (fields names : List Bytes) : Prop :=
  ∀ name ∈ names, (internFields fields names).1.idxOf name < maxFields

lemma internFields_names_iff (h : fields.Nodup) (names : List Bytes) :
    (internFields fields names).2.map (fieldName (internFields fields names).1) = names ↔ Numbered fields names := by
  have hnodup := nodup_internFields h names
  rw [internFields_ids, map_map]
  conv_lhs => rhs; rw [← map_id names]
  rw [map_inj_left]
  exact forall₂_congr fun name hname => fieldName_idxOf hnodup (mem_internFields hname)

/-- The interned names are distinct and among `names`, of which there are not too many. -/
structure Interned (names : Finset Bytes) (fields : List Bytes) : Prop where
  nodup : fields.Nodup
  mem : ∀ f ∈ fields, f ∈ names
  few : names.card ≤ maxFields

lemma Interned.length_le {names : Finset Bytes} (h : Interned names fields) : fields.length ≤ maxFields := by
  rw [← toFinset_card_of_nodup h.nodup]
  exact (Finset.card_le_card fun f hf => h.mem f (mem_toFinset.1 hf)).trans h.few

lemma mem_of_mem_internFields {names : List Bytes} {f : Bytes} (h : f ∈ (internFields fields names).1) :
    f ∈ fields ∨ f ∈ names := by
  induction names generalizing fields with
  | nil => exact .inl h
  | cons name names ih =>
  rcases @ih (internField fields name).1 h with h | h
  · rw [(internField_eq fields name).1] at h
    split_ifs at h
    · exact .inl h
    · exact (mem_append.1 h).imp_right fun h => mem_cons.2 (.inl (mem_singleton.1 h))
  · exact .inr (mem_cons_of_mem _ h)

lemma internFields_spec {names : Finset Bytes} {ns : List Bytes} (h : Interned names fields)
    (hns : ∀ n ∈ ns, n ∈ names) : Interned names (internFields fields ns).1 ∧ fields <+: (internFields fields ns).1 ∧
      (∀ i ∈ (internFields fields ns).2, i.toNat < (internFields fields ns).1.length) ∧
      (internFields fields ns).2.map (fieldName (internFields fields ns).1) = ns := by
  have hint : Interned names (internFields fields ns).1 :=
    ⟨nodup_internFields h.nodup ns, fun f hf => (mem_of_mem_internFields hf).elim (h.mem f) (hns f), h.few⟩
  have hlt : ∀ n ∈ ns, (internFields fields ns).1.idxOf n < (internFields fields ns).1.length :=
    fun n hn => idxOf_lt_length_of_mem (mem_internFields hn)
  refine ⟨hint, internFields_grow fields ns, ?_, ?_⟩
  · rw [internFields_ids]
    intro i hi
    obtain ⟨n, hn, rfl⟩ := mem_map.1 hi
    exact (Nat.mod_le _ _).trans_lt (hlt n hn)
  · exact (internFields_names_iff h.nodup ns).2 fun n hn => (hlt n hn).trans_le hint.length_le

/-! ## Adding entries -/

/-- The indices of every record stand for names among `names`. -/
structure Stream.Named (names : Finset Bytes) (s : Stream) : Prop where
  interned : Interned names s.fields
  known : ∀ r ∈ s.records, ∀ i ∈ r.fieldIDs, i.toNat < s.fields.length

/-- An entry that can be added: a value for every field, its names among `names`, its values within an
arena. -/
structure StreamEntry.Addable (names : Finset Bytes) (e : StreamEntry) : Prop where
  shape : e.fields.length = e.values.length
  fits : totalBytes e.values ≤ chunkArenaSize
  named : ∀ f ∈ e.fields, f ∈ names

/-- The fields and values of an entry, as `XADD` takes them. -/
def StreamEntry.pairs (e : StreamEntry) : List Bytes := unpair (e.fields.zip e.values)

lemma Stream.appended_entries {names : Finset Bytes} {e : StreamEntry} (hs : s.Named names) (he : e.Addable names) :
    (s.appended e.id e.pairs).entries = s.entries ++ [e] ∧ (s.appended e.id e.pairs).Named names := by
  have hfst : (e.fields.zip e.values).map Prod.fst = e.fields := map_fst_zip he.shape.le
  have hsnd : (e.fields.zip e.values).map Prod.snd = e.values := map_snd_zip he.shape.ge
  have hrecords := s.appended_records e.id e.pairs
  rw [StreamEntry.pairs, pairUp_unpair, hfst, hsnd, if_pos he.fits] at hrecords
  have hfields : (s.appended e.id e.pairs).fields = (internFields s.fields e.fields).1 := by
    simp [Stream.appended, StreamEntry.pairs, pairUp_unpair, hfst]
  obtain ⟨hint, hpre, hlt, hnames⟩ := internFields_spec hs.interned he.named
  constructor
  · rw [Stream.entries_eq, StreamEntry.pairs, hrecords, map_append, Stream.entries_eq]
    refine congrArg₂ (· ++ ·) (map_congr_left fun r hr => ?_) ?_
    · -- names interned before keep their index
      simp only [Stream.unpackEntry, StreamEntry.mk.injEq, true_and, and_true]
      refine map_congr_left fun i hi => ?_
      rw [← StreamEntry.pairs, hfields]
      exact fieldName_mono hpre (hs.known r hr i hi)
    · simp only [Stream.unpackEntry, map_cons, map_nil, List.cons.injEq, and_true]
      rw [← StreamEntry.pairs, hfields]
      exact congrArg (StreamEntry.mk e.id · e.values) hnames
  · refine ⟨hfields ▸ hint, fun r hr i hi => ?_⟩
    rw [hfields]
    rw [StreamEntry.pairs, hrecords, mem_append, mem_singleton] at hr
    obtain hr | rfl := hr
    · exact (hs.known r hr i hi).trans_le hpre.length_le
    · exact hlt i hi

lemma newStream_named {names : Finset Bytes} (h : names.card ≤ maxFields) : newStream.Named names :=
  ⟨⟨nodup_nil, by simp [newStream], h⟩, by simp [newStream, Stream.records]⟩

variable (es : List StreamEntry)

/-- The entries added one after the other, without trimming. -/
def Stream.addAll : Stream :=
  es.foldl (fun s e => s.appended e.id e.pairs) s

lemma Stream.addAll_entries {names : Finset Bytes} (hs : s.Named names) {es : List StreamEntry}
    (hes : ∀ e ∈ es, e.Addable names) : (s.addAll es).entries = s.entries ++ es := by
  induction es generalizing s with
  | nil => exact (append_nil _).symm
  | cons e es ih =>
    rw [forall_mem_cons] at hes
    obtain ⟨hentries, hnamed⟩ := Stream.appended_entries hs hes.1
    show ((s.appended e.id e.pairs).addAll es).entries = _
    rw [ih hnamed hes.2, hentries, append_assoc, singleton_append]

lemma Stream.addAll_lastID :
    (s.addAll es).lastID = (es.getLast?.map StreamEntry.id).getD s.lastID := by
  induction es generalizing s with
  | nil => rfl
  | cons e es ih =>
    show ((s.appended e.id e.pairs).addAll es).lastID = _
    rw [ih, getLast?_cons]
    cases es.getLast? <;> rfl

/-- The names of the entries of a stream are no more than a `uint16` can number. -/
def Stream.names : Finset Bytes := (Finset.range maxFields).image fun n => s.fields.getD n []

lemma Stream.names_card : s.names.card ≤ maxFields :=
  Finset.card_image_le.trans (Finset.card_range _).le

lemma Stream.WF.addable (h : s.WF) : ∀ e ∈ s.entries, e.Addable s.names := by
  rw [Stream.entries_eq]
  intro e he
  obtain ⟨r, hr, rfl⟩ := mem_map.1 he
  obtain ⟨hshape, -, hfits⟩ := h.shape r hr
  refine ⟨by simpa [Stream.unpackEntry] using hshape, hfits, fun f hf => ?_⟩
  obtain ⟨i, -, rfl⟩ := mem_map.1 hf
  exact Finset.mem_image.2 ⟨i.toNat, Finset.mem_range.2 i.toNat_lt, rfl⟩

lemma Stream.WF.pairs_ne_nil (h : s.WF) : ∀ e ∈ s.entries, e.pairs ≠ [] := by
  intro e he
  have hadd := h.addable e he
  rw [Stream.entries_eq] at he
  obtain ⟨r, hr, rfl⟩ := mem_map.1 he
  have hpos := length_pos_iff.2 (h.shape r hr).2.1
  intro hnil
  have hlen := congrArg List.length hnil
  have hshape := hadd.shape
  simp only [StreamEntry.pairs, unpair_length, length_zip, length_nil, Stream.unpackEntry] at hlen hshape
  omega

lemma Stream.WF.entries_ordered (h : s.WF) : s.entries.Pairwise fun a b => a.id.lt b.id = true := by
  rw [Stream.entries_eq, pairwise_map]
  exact h.ordered

end Gopherdis.Stream

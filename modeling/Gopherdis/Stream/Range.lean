/-
What `Range` finds, from either end. A chunk is skipped whole if the last of its records on the way, deleted or not, is
still outside; nothing is missed, as every record came in above all records that were live then. That order is
carried along with well-formedness.
-/
import Gopherdis.Stream.Append

namespace Gopherdis.Stream

open Lib List StreamChunk

/-! ## Records in the order they came in -/

variable (cs : List StreamChunk)

def allIn : List EntryRecord := cs.flatMap entries

@[simp] lemma allIn_cons (c : StreamChunk) (cs : List StreamChunk) : allIn (c :: cs) = c.entries ++ allIn cs := rfl

variable (rs : List EntryRecord)

/-- A live record is below all records after it. -/
def Rising : Prop := rs.Pairwise fun a b => a.deleted = false → a.id.lt b.id = true

/-- Records that may have been marked deleted since. -/
def Marked (rs rs' : List EntryRecord) : Prop :=
  List.Forall₂ (fun r r' => r'.id = r.id ∧ (r'.deleted = false → r.deleted = false)) rs rs'

lemma Marked.refl : Marked rs rs :=
  forall₂_same.2 fun _ _ => ⟨rfl, id⟩

lemma Marked.map_id {rs rs' : List EntryRecord} (h : Marked rs rs') :
    rs'.map EntryRecord.id = rs.map EntryRecord.id := by
  induction h with
  | nil => rfl
  | cons h _ ih => rw [map_cons, map_cons, h.1, ih]

lemma Marked.rising {rs rs' : List EntryRecord} (h : Marked rs rs') (hrise : Rising rs) : Rising rs' := by
  induction h with
  | nil => exact hrise
  | cons h htail ih =>
  obtain ⟨hhead, hrest⟩ := pairwise_cons.1 hrise
  refine pairwise_cons.2 ⟨fun b hb hlive => ?_, ih hrest⟩
  obtain ⟨b', hb', he⟩ := mem_map.1 (Marked.map_id htail ▸ mem_map_of_mem hb)
  rw [h.1, ← he]
  exact hhead b' hb' (h.2 hlive)

variable (maxLen : Int)

lemma markOldest_marked (length : Int) (rs : List EntryRecord) : Marked rs (markOldest maxLen length rs).1 := by
  fun_induction markOldest maxLen length rs
  case case1 => exact .nil
  case case2 length r rs hdel rs' length' hmark ih =>
    rw [hmark] at ih
    exact .cons ⟨rfl, id⟩ ih
  case case3 length r rs hdel hle => exact .cons ⟨rfl, fun h => Bool.noConfusion h⟩ (Marked.refl rs)
  case case4 length r rs hdel hle rs' length' hmark ih =>
    rw [hmark] at ih
    exact .cons ⟨rfl, fun h => Bool.noConfusion h⟩ ih

lemma trimChunks_marked (approx : Bool) (length : Int) (cs : List StreamChunk) :
    ∃ rs, rs <:+ allIn cs ∧ Marked rs (allIn (trimChunks maxLen approx length cs).1) := by
  fun_induction trimChunks maxLen approx length cs
  case case1 => exact ⟨_, suffix_rfl, Marked.refl _⟩
  case case2 => exact ⟨_, suffix_rfl, Marked.refl _⟩
  case case3 ih | case4 ih =>
    obtain ⟨rs, hsub, hmarked⟩ := ih
    exact ⟨rs, hsub.trans (suffix_append ..), hmarked⟩
  case case5 length c cs hlt happ entries length' hmark c' hsome =>
    have hc := markOldest_marked maxLen length c.entries
    rw [hmark] at hc
    exact ⟨_, suffix_rfl, rel_append hc (Marked.refl _)⟩

variable (id : StreamID)

lemma appendLast_all (fieldIDs : List UInt16) (values : List Bytes) (cs : List StreamChunk) :
    ∃ added, allIn (appendLast id fieldIDs values cs) = allIn cs ++ added ∧ added.length ≤ 1 ∧
      ∀ r ∈ added, r.id = id := by
  fun_induction appendLast id fieldIDs values cs
  case case1 => exact ⟨[], rfl, by simp, by simp⟩
  case case2 tail tail' htail =>
    have h := tail.append_entries id fieldIDs values
    rw [htail] at h
    exact ⟨_, by simpa [allIn] using h, by simp, by simp⟩
  case case3 tail tail' htail =>
    have h := tail.append_entries id fieldIDs values
    have h' := newChunk.append_entries id fieldIDs values
    rw [htail] at h
    refine ⟨(newChunk.append id fieldIDs values).1.entries, by simpa [allIn] using h, ?_, ?_⟩ <;> rw [h'] <;>
      split_ifs <;> simp [newChunk]
  case case4 c cs hcs ih =>
    obtain ⟨added, hall, hle, hid⟩ := ih
    exact ⟨added, by rw [allIn_cons, hall, allIn_cons, append_assoc], hle, hid⟩

/-! ## Sorted streams -/

variable (s : Stream)

def Stream.Sorted : Prop := Rising (allIn s.chunks)

lemma newStream_sorted : newStream.Sorted := List.Pairwise.nil

lemma activeIn_eq : activeIn cs = (allIn cs).filter fun r => !r.deleted := by
  rw [allIn, filter_flatMap]
  rfl

variable {cs : List StreamChunk}

lemma mem_activeIn {r : EntryRecord} : r ∈ activeIn cs ↔ r ∈ allIn cs ∧ r.deleted = false := by
  rw [activeIn_eq, mem_filter, Bool.not_eq_true']

variable (pairs : List Bytes)

lemma Stream.appended_all :
    ∃ added, allIn (s.appended id pairs).chunks = allIn s.chunks ++ added ∧ added.length ≤ 1 ∧ ∀ r ∈ added, r.id = id := by
  obtain ⟨added, hall, hadded⟩ := appendLast_all id (internFields s.fields ((pairUp pairs).map Prod.fst)).2
    ((pairUp pairs).map Prod.snd) (if s.chunks = [] then [newChunk] else s.chunks)
  refine ⟨added, hall.trans ?_, hadded⟩
  split_ifs with hc
  · rw [hc]; rfl
  · rfl

lemma Stream.Sorted.trimInternal {s : Stream} (h : s.Sorted) (maxLen : Int) (approx : Bool) :
    (s.trimInternal maxLen approx).Sorted := by
  obtain ⟨rs, hsub, hmarked⟩ := trimChunks_marked maxLen approx s.length s.chunks
  exact hmarked.rising (h.sublist hsub.sublist)

lemma Stream.Sorted.delete {s : Stream} (h : s.Sorted) (ids : List StreamID) : (s.delete ids).Sorted := by
  have hall : allIn (s.delete ids).chunks = deleteRecords ids (allIn s.chunks) := by
    simp only [allIn, Stream.delete, flatMap_map]
    exact (map_flatMap ..).symm
  rw [Stream.Sorted, hall]
  refine Marked.rising (forall₂_map_right_iff.2 (forall₂_same.2 fun r _ => ?_)) h
  split_ifs with hdel
  · exact ⟨rfl, nofun⟩
  · exact ⟨rfl, id⟩

lemma Stream.Sorted.addRaw {s s' : Stream} (h : s.Sorted) (hs : s.Tracked) {id : StreamID} {pairs : List Bytes}
    {maxLen : Int} {approx : Bool} (hadd : s.addRaw id pairs maxLen approx = some s') : s'.Sorted := by
  have happended : (s.appended id pairs).Sorted := by
    obtain ⟨added, hchunks, hle, hid⟩ := s.appended_all id pairs
    rw [Stream.Sorted, Rising, hchunks, pairwise_append]
    refine ⟨h, ?_, fun a ha b hb hlive => ?_⟩
    · match added, hle with
      | [], _ => exact .nil
      | [_], _ => exact pairwise_singleton _ _
    · rw [hid b hb]
      exact hs.lt_added hadd a (mem_activeIn.2 ⟨ha, hlive⟩)
  obtain rfl | rfl := Stream.addRaw_cases hadd
  · exact happended
  · exact happended.trimInternal maxLen approx

lemma Stream.Tracked.addRaw_records {s s' : Stream} (h : s.Tracked) {id : StreamID} {pairs : List Bytes}
    {maxLen : Int} {approx : Bool} (hadd : s.addRaw id pairs maxLen approx = some s') {r : EntryRecord}
    (hr : r ∈ s'.records) : r ∈ s.records ∨ r.id = id := by
  have hr := (h.addRaw hadd).1.subset hr
  rw [Stream.appended_records, mem_append] at hr
  rcases hr with hr | hr
  · exact .inl hr
  split_ifs at hr
  · exact .inr (by rw [mem_singleton.1 hr])
  · cases hr

/-! ## What a range finds -/

/-- The walk of `Range` over the records of a chunk, in either direction, and whether it went past the end. -/
def walk (skip past : StreamID → Bool) : List EntryRecord → List EntryRecord × Bool
  | [] => ([], false)
  | r :: rs =>
    if r.deleted ∨ skip r.id then walk skip past rs
    else if past r.id then ([], true)
    else
      let (found, gone) := walk skip past rs
      (r :: found, gone)

def walkChunks (skip past : StreamID → Bool) : List (List EntryRecord) → List EntryRecord
  | [] => []
  | rs :: rss =>
    if (rs.getLast?).any (fun r => skip r.id) then walkChunks skip past rss
    else
      match walk skip past rs with
      | (found, true) => found
      | (found, false) => found ++ walkChunks skip past rss

variable (start stop : StreamID)

/-- The reverse `Range`: chunks and records from the last to the first. -/
def Stream.rangeReverse (count : Nat) : List StreamEntry :=
  let records := ((s.chunks.map StreamChunk.entries).map List.reverse).reverse
  let found := (walkChunks (fun id => start.lt id) (fun id => id.lt stop) records).map s.unpackEntry
  if 0 < count then found.take count else found

section
variable {skip past : StreamID → Bool} {rs : List EntryRecord} {rss : List (List EntryRecord)}

/-- Live, and neither skipped nor past the end. -/
def found (skip past : StreamID → Bool) (r : EntryRecord) : Bool := !r.deleted && (!skip r.id && !past r.id)

/-- Behind a live record past the end all live ones are. -/
def Ahead (past : StreamID → Bool) (rs : List EntryRecord) : Prop :=
  rs.Pairwise fun a b => a.deleted = false → b.deleted = false → past a.id = true → past b.id = true

lemma walk_spec (h : Ahead past rs) : (walk skip past rs).1 = rs.filter (found skip past) ∧
    ((walk skip past rs).2 = true → ∃ r ∈ rs, r.deleted = false ∧ past r.id = true) := by
  induction rs with
  | nil => simp [walk]
  | cons r rs ih =>
  obtain ⟨hhead, hrest⟩ := pairwise_cons.1 h
  obtain ⟨hfound, hgone⟩ := ih hrest
  rw [walk]
  split_ifs with hskip hpast
  · refine ⟨?_, fun hp => ?_⟩
    · rw [filter_cons_of_neg (by rcases hskip with hd | hd <;> simp [found, hd]), hfound]
    · obtain ⟨b, hb, hlive⟩ := hgone hp
      exact ⟨b, mem_cons_of_mem _ hb, hlive⟩
  · simp only [not_or, Bool.not_eq_true] at hskip
    refine ⟨?_, fun _ => ⟨r, mem_cons_self, hskip.1, hpast⟩⟩
    symm
    rw [filter_eq_nil_iff]
    intro b hb
    rcases mem_cons.1 hb with rfl | hb
    · simp [found, hpast]
    cases hlive : b.deleted with
    | true => simp [found, hlive]
    | false => simp [found, hhead b hb hskip.1 hlive hpast]
  · simp only [not_or, Bool.not_eq_true] at hskip hpast
    refine ⟨?_, fun hp => ?_⟩
    · rw [filter_cons_of_pos (by simp [found, hskip, hpast]), ← hfound]
    · obtain ⟨b, hb, hlive⟩ := hgone hp
      exact ⟨b, mem_cons_of_mem _ hb, hlive⟩

/-- The chunk is not looked into. -/
def passedOver (skip : StreamID → Bool) (rs : List EntryRecord) : Bool := (rs.getLast?).any fun r => skip r.id

lemma walkChunks_kept (h : Ahead past rss.flatten) : walkChunks skip past rss =
    (rss.filter fun rs => !passedOver skip rs).flatten.filter (found skip past) := by
  induction rss with
  | nil => rfl
  | cons rs rss ih =>
  obtain ⟨hrs, hrss, hcross⟩ := pairwise_append.1 h
  rw [walkChunks]
  split_ifs with hlast
  · rw [filter_cons_of_neg (by simp [passedOver, hlast]), ih hrss]
  rw [filter_cons_of_pos (by simpa [passedOver] using hlast), flatten_cons, filter_append, ← ih hrss]
  obtain ⟨hfound, hgone⟩ := @walk_spec skip past rs hrs
  rcases hw : walk skip past rs with ⟨found', _ | _⟩ <;> rw [hw] at hfound hgone
  · rw [← hfound]
  obtain ⟨r, hr, hlive, hpast⟩ := hgone rfl
  have hnone : (rss.filter fun rs => !passedOver skip rs).flatten.filter (found skip past) = [] := by
    refine filter_eq_nil_iff.2 fun b hb => ?_
    obtain ⟨bs, hbs, hb⟩ := mem_flatten.1 hb
    cases hblive : b.deleted with
    | true => simp [found, hblive]
    | false =>
      have := hcross r hr b (mem_flatten.2 ⟨bs, (mem_filter.1 hbs).1, hb⟩) hlive hblive hpast
      simp [found, this]
  rw [ih hrss, hnone, append_nil, ← hfound]

/-- Nothing is missed if there is nothing to find in the chunks that are passed over. -/
theorem walkChunks_iff (h : Ahead past rss.flatten) : walkChunks skip past rss = rss.flatten.filter (found skip past) ↔
    ∀ rs ∈ rss, passedOver skip rs = true → rs.filter (found skip past) = [] := by
  rw [walkChunks_kept h]
  clear h
  induction rss with
  | nil => simp
  | cons rs rss ih =>
  rw [forall_mem_cons, ← ih, flatten_cons, filter_append]
  cases hp : passedOver skip rs with
  | false => simp [hp]
  | true =>
  rw [filter_cons_of_neg (by simp [hp])]
  have hsub : ((rss.filter fun rs => !passedOver skip rs).flatten.filter (found skip past)).Sublist
      (rss.flatten.filter (found skip past)) := (filter_sublist.flatten).filter _
  refine ⟨fun he => ?_, fun hr => by rw [hr.1 rfl, hr.2, nil_append]⟩
  have hlen := congrArg List.length he
  have hle := hsub.length_le
  rw [length_append] at hlen
  have hnil : rs.filter (found skip past) = [] := length_eq_zero_iff.1 (by omega)
  exact ⟨fun _ => hnil, by rwa [hnil, nil_append] at he⟩

lemma found_comm : found skip past = found past skip := by
  funext r
  simp [found, Bool.and_comm]

end

lemma rangeRecords_eq (rs : List EntryRecord) :
    rangeRecords start stop rs = walk (fun id => id.lt start) (fun id => stop.lt id) rs := by
  induction rs with
  | nil => rfl
  | cons r rs ih => rw [rangeRecords, walk, ih]

lemma rangeChunks_eq (cs : List StreamChunk) : rangeChunks start stop cs =
    walkChunks (fun id => id.lt start) (fun id => stop.lt id) (cs.map entries) := by
  induction cs with
  | nil => rfl
  | cons c cs ih =>
    rw [rangeChunks, ih, rangeRecords_eq]
    rfl

lemma StreamID.lt_trans {a b c : StreamID} (h : a.lt b = true) (h' : b.lt c = true) : a.lt c = true :=
  StreamID.lt_of_lt_of_not_lt h' (StreamID.lt_asymm h)

/-- Live, and within the limits. -/
def within (lo hi : StreamID) : EntryRecord → Bool := found (fun id => id.lt lo) fun id => hi.lt id

lemma rangeChunks_found (h : Rising (allIn cs)) (start stop : StreamID) :
    rangeChunks start stop cs = (allIn cs).filter (within start stop) := by
  rw [rangeChunks_eq]
  refine (walkChunks_iff (h.imp fun hlt hlive _ hp => StreamID.lt_trans hp (hlt hlive))).2 fun rs hrs hlast => ?_
  have hrs : Rising rs := h.sublist (sublist_flatten_of_mem hrs)
  -- what is before the last record is to be skipped with it
  obtain ⟨last, hl, hskip⟩ := (Option.any_eq_true _ _).1 hlast
  obtain ⟨before, rfl⟩ := getLast?_eq_some_iff.1 hl
  refine filter_eq_nil_iff.2 fun r hr => ?_
  cases hlive : r.deleted with
  | true => simp [found, hlive]
  | false =>
    rcases mem_append.1 hr with hr | hr
    · have hlt := (pairwise_append.1 hrs).2.2 r hr last (mem_singleton_self _) hlive
      simp [found, StreamID.lt_trans hlt hskip]
    · simp [found, mem_singleton.1 hr, hskip]

/-- The records of the reverse `Range`. -/
def reverseRecords (start stop : StreamID) (cs : List StreamChunk) : List EntryRecord :=
  walkChunks (fun id => start.lt id) (fun id => id.lt stop) ((cs.map entries).map List.reverse).reverse

/-- The reverse `Range` misses what is in a chunk whose first record is above the start. -/
theorem reverseRecords_found (h : Rising (allIn cs)) (lo hi : StreamID) :
    (reverseRecords hi lo cs).Sublist ((allIn cs).filter (within lo hi)).reverse ∧
      (reverseRecords hi lo cs = ((allIn cs).filter (within lo hi)).reverse ↔ ∀ c ∈ cs,
        (c.entries.head?).any (fun r => hi.lt r.id) = true → c.entries.filter (within lo hi) = []) := by
  have hflat : ((cs.map entries).map List.reverse).reverse.flatten = (allIn cs).reverse :=
    reverse_flatten.symm
  have hahead : Ahead (fun id => id.lt lo) ((cs.map entries).map List.reverse).reverse.flatten := by
    rw [hflat]
    exact pairwise_reverse.2 (h.imp fun hlt _ hlive hp => StreamID.lt_trans (hlt hlive) hp)
  rw [within, found_comm, ← filter_reverse, ← hflat, reverseRecords]
  refine ⟨?_, (walkChunks_iff hahead).trans ?_⟩
  · rw [walkChunks_kept hahead]
    exact filter_sublist.flatten.filter _
  · simp [passedOver, filter_eq_nil_iff]

lemma rangeChunks_from (h : Rising (allIn cs)) (start : StreamID) :
    rangeChunks start maxID cs = (activeIn cs).filter fun r => !r.id.lt start := by
  rw [rangeChunks_found h, activeIn_eq, filter_filter]
  exact filter_congr fun r _ => by simp [within, found, Bool.and_comm]

/-! ## What `MINID` leaves -/

section
variable {s : Stream} (minID : StreamID)

lemma fields_trimBelowMinID (s : Stream) (minID : StreamID) :
    (trimBelowMinID s minID).fields = s.fields ∧ (trimBelowMinID s minID).lastID = s.lastID := by
  simp only [trimBelowMinID]
  split_ifs <;> exact ⟨rfl, rfl⟩

lemma mem_trimmedIDs (hs : s.Sorted) {r : EntryRecord} (hr : r ∈ s.records) :
    r.id ∈ ((s.range zeroID minID 0).map StreamEntry.id).filter (fun id => id.lt minID) ↔ r.id.lt minID = true := by
  rw [mem_filter, and_iff_right_of_imp fun hlt => ?_]
  obtain ⟨hmem, hlive⟩ := mem_activeIn.1 hr
  have hfound : r ∈ rangeChunks zeroID minID s.chunks := by
    rw [rangeChunks_found hs, mem_filter]
    exact ⟨hmem, by simp [within, found, hlive, StreamID.lt_asymm hlt]⟩
  exact mem_map_of_mem (mem_map_of_mem hfound)

lemma trimBelowMinID_records (h : s.Tracked) (hs : s.Sorted) :
    (trimBelowMinID s minID).records = s.records.filter fun r => !r.id.lt minID := by
  have hkept : (trimBelowMinID s minID).records = s.records.filter fun r =>
      r.id ∉ ((s.range zeroID minID 0).map StreamEntry.id).filter fun id => id.lt minID := by
    simp only [trimBelowMinID]
    split_ifs with hnone
    · simp [hnone]
    · exact (h.delete_spec _).1
  rw [hkept]
  refine filter_congr fun r hr => ?_
  rw [Bool.eq_iff_iff, decide_eq_true_iff, mem_trimmedIDs minID hs hr, Bool.not_eq_true', Bool.not_eq_true]

lemma Stream.WF.trimBelowMinID (h : s.WF) : (trimBelowMinID s minID).WF := by
  simp only [Gopherdis.Stream.trimBelowMinID]
  split_ifs
  · exact h
  · exact h.delete _

lemma Stream.Sorted.trimBelowMinID (h : s.Sorted) : (trimBelowMinID s minID).Sorted := by
  simp only [Gopherdis.Stream.trimBelowMinID]
  split_ifs
  · exact h
  · exact h.delete _

end

/-! ## All records -/

/-- The IDs of all records, deleted ones too. -/
def Stream.ids : List StreamID := (allIn s.chunks).map EntryRecord.id

lemma Stream.trimInternal_ids (approx : Bool) : (s.trimInternal maxLen approx).ids.Sublist s.ids := by
  obtain ⟨rs, hsub, hmarked⟩ := trimChunks_marked maxLen approx s.length s.chunks
  exact (hmarked.map_id ▸ (hsub.sublist.map _) :)

lemma Stream.delete_ids (ids : List StreamID) : (s.delete ids).ids = s.ids := by
  have hid : ∀ rs : List EntryRecord, (deleteRecords ids rs).map EntryRecord.id = rs.map EntryRecord.id := by
    intro rs
    rw [deleteRecords, map_map]
    refine map_congr_left fun r _ => ?_
    simp only [Function.comp_apply]
    split_ifs <;> rfl
  simp [Stream.ids, allIn, Stream.delete, map_flatMap, flatMap_map, StreamChunk.delete, hid]

lemma Stream.appended_ids : (s.appended id pairs).ids.Sublist (s.ids ++ [id]) := by
  obtain ⟨new, hall, hle, hid⟩ := s.appended_all id pairs
  have hnew : (new.map EntryRecord.id).Sublist [id] := by
    rcases new with _ | ⟨r, _ | _⟩
    · exact nil_sublist _
    · rw [map_singleton, hid r (mem_singleton_self r)]
    · simp at hle
  rw [Stream.ids, hall, map_append]
  exact (List.Sublist.refl _).append hnew

/-- `Range` in either direction. -/
def Stream.rangeQuery (count : Int) (reverse : Bool) : List StreamEntry :=
  if reverse then s.rangeReverse start stop count.toNat else s.range start stop count.toNat

end Gopherdis.Stream

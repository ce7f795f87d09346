/-
Whether an accepted entry is stored. Values that together exceed an arena do not fit a new chunk either, and
the failure of the second attempt is ignored: the entry is counted and kept nowhere, and the length is off
for good. Field names are numbered by a `uint16`, so a name after the first 65536 is read back as another.
-/
import Gopherdis.Stream.Delivery

namespace Gopherdis.Stream

open Lib List Function

variable {s : GroupedStream}

/-! ## The entry that is added -/

/-- The entry an addition is for. -/
def entryOf (id : StreamID) (pairs : List Bytes) : StreamEntry :=
  ⟨id, (pairUp pairs).map Prod.fst, (pairUp pairs).map Prod.snd⟩

lemma entryOf_mem_appended_iff {s : Stream} (hs : s.fields.Nodup) {id : StreamID}
    (hgreater : ∀ r ∈ s.records, r.id.lt id = true) (pairs : List Bytes) :
    entryOf id pairs ∈ (s.appended id pairs).entries ↔ totalBytes ((pairUp pairs).map Prod.snd) ≤ chunkArenaSize ∧
        Numbered s.fields ((pairUp pairs).map Prod.fst) := by
  have hold : ∀ r ∈ s.records, (s.appended id pairs).unpackEntry r ≠ entryOf id pairs := by
    intro r hr he
    have hlt := hgreater r hr
    rw [show r.id = id from congrArg StreamEntry.id he, StreamID.lt_irrefl] at hlt
    cases hlt
  rw [Stream.entries_eq, Stream.appended_records, map_append, mem_append]
  split_ifs with hfit
  · rw [or_iff_right (by simpa using hold), map_cons, map_nil, mem_singleton,
      ← internFields_names_iff hs, and_iff_right hfit]
    simp only [entryOf, Stream.unpackEntry, StreamEntry.mk.injEq, true_and, and_true]
    exact eq_comm
  · simpa [hfit] using hold

/-! ## Runs -/

namespace GroupedStream

/-- An addition that is accepted has values that fit an arena. -/
def Storable (s : GroupedStream) (a : GroupAct) : Prop :=
  match a with
  | .addRaw id pairs maxLen approx =>
    (s.stream.addRaw id pairs maxLen approx).isSome = true → totalBytes ((pairUp pairs).map Prod.snd) ≤ chunkArenaSize
  | _ => True

/-- By how much the length is off. -/
def drift (s : GroupedStream) : Int := s.stream.length - s.stream.records.length

lemma drift_appended (s : Stream) (id : StreamID) (pairs : List Bytes) :
    (s.appended id pairs).length - ((s.appended id pairs).records.length : Int) = s.length - s.records.length +
        if totalBytes ((pairUp pairs).map Prod.snd) ≤ chunkArenaSize then 0 else 1 := by
  have hlen : (s.appended id pairs).length = s.length + 1 := rfl
  rw [Stream.appended_records, length_append, hlen]
  split_ifs
  · simp
  · simp
    omega

lemma drift_act (h : s.stream.Tracked) (a : GroupAct) :
    s.drift ≤ (s.act a).1.drift ∧ ((s.act a).1.drift = s.drift ↔ s.Storable a) := by
  cases a with
  | addRaw id pairs maxLen approx =>
    cases hadd : s.stream.addRaw id pairs maxLen approx with
    | none =>
      have hsame : (s.act (.addRaw id pairs maxLen approx)).1 = s := by simp [act, hadd]
      rw [hsame]
      exact ⟨le_rfl, iff_of_true rfl (by simp [Storable, hadd])⟩
    | some s' =>
    have hdrift : (s.act (.addRaw id pairs maxLen approx)).1.drift =
        s.drift + if totalBytes ((pairUp pairs).map Prod.snd) ≤ chunkArenaSize then 0 else 1 := by
      simp only [drift, act, hadd, Option.getD_some]
      rw [← drift_appended s.stream id pairs]
      obtain rfl | rfl := Stream.addRaw_cases hadd
      · rfl
      · exact (h.appended pairs (h.lt_added hadd)).trimInternal_length maxLen approx
    rw [hdrift]
    simp only [Storable, hadd, Option.isSome_some, forall_true_left]
    split_ifs with hfit
    all_goals simp [hfit]
  | delete ids =>
    have hdrift : (s.act (.delete ids)).1.drift = s.drift := s.stream.delete_length ids
    exact ⟨hdrift.ge, iff_of_true hdrift trivial⟩
  | trim maxLen approx =>
    have hdrift : (s.act (.trim maxLen approx)).1.drift = s.drift := h.trimInternal_length maxLen approx
    exact ⟨hdrift.ge, iff_of_true hdrift trivial⟩
  | readGroup | ack | claim => exact ⟨le_rfl, iff_of_true rfl trivial⟩

lemma run_drift {s' : GroupedStream} {as : List GroupAct} (hrun : Run step Free s as s') (h : s.stream.Tracked) :
    s.drift ≤ s'.drift ∧ (s'.drift = s.drift ↔ Run step Storable s as s') := by
  induction hrun with
  | nil => exact ⟨le_rfl, iff_of_true rfl (.nil _)⟩
  | @cons s s1 s' a as _ hs _ ih =>
  obtain rfl := Option.some.inj hs
  obtain ⟨hle, hiff⟩ := drift_act h a
  obtain ⟨hle', hiff'⟩ := ih (tracked_act h a)
  refine ⟨hle.trans hle', fun he => ?_, fun hrun => ?_⟩
  · exact .cons (hiff.1 (by omega)) rfl (hiff'.1 (by omega))
  · obtain _ | ⟨hg, hs', hrest⟩ := hrun
    obtain rfl := Option.some.inj hs'
    rw [hiff'.2 hrest, hiff.2 hg]

lemma nodup_fields_act (h : s.stream.fields.Nodup) (a : GroupAct) : (s.act a).1.stream.fields.Nodup := by
  cases a with
  | addRaw id pairs maxLen approx =>
    show ((s.stream.addRaw id pairs maxLen approx).getD s.stream).fields.Nodup
    cases hadd : s.stream.addRaw id pairs maxLen approx with
    | none => exact h
    | some s' =>
      obtain rfl | rfl := Stream.addRaw_cases hadd
      all_goals exact nodup_internFields h _
  | delete | trim | readGroup | ack | claim => exact h

lemma run_tracked {s' : GroupedStream} {as : List GroupAct} (hrun : Run step Free s as s')
    (h : s.stream.Tracked ∧ s.stream.fields.Nodup) : s'.stream.Tracked ∧ s'.stream.fields.Nodup := by
  refine hrun.inv (I := fun t => t.stream.Tracked ∧ t.stream.fields.Nodup) (fun {t t' a} ht _ hs => ?_) h
  obtain rfl := Option.some.inj hs
  exact ⟨tracked_act ht.1 a, nodup_fields_act ht.2 a⟩

/-- After any run, an addition that is accepted and trims nothing is found again, with the length right,
exactly if no entry has been lost so far, its values fit an arena and its names have numbers. -/
theorem added_entry_stored_iff (start : StreamID) (as : List GroupAct) (s : GroupedStream)
    (hrun : Run step Free (withGroup newStream start) as s) (id : StreamID) (pairs : List Bytes) (maxLen : Int)
    (approx : Bool) (s' : Stream) (hadd : s.stream.addRaw id pairs maxLen approx = some s')
    (htrim : ¬ (0 < maxLen ∧ maxLen < s.stream.length + 1)) :
    (entryOf id pairs ∈ s'.range zeroID maxID 0 ∧ s'.length = s'.records.length) ↔
      (Run step Storable (withGroup newStream start) as s ∧ totalBytes ((pairUp pairs).map Prod.snd) ≤ chunkArenaSize ∧
        Numbered s.stream.fields ((pairUp pairs).map Prod.fst)) := by
  obtain ⟨htracked, hnodup⟩ := run_tracked hrun ⟨newStream_tracked, nodup_nil⟩
  obtain ⟨hle, hiff⟩ := run_drift hrun newStream_tracked
  have hzero : (withGroup newStream start).drift = 0 := rfl
  have hs' : s' = s.stream.appended id pairs := by
    rw [Stream.addRaw_eq, if_neg htrim] at hadd
    split_ifs at hadd
    exact (Option.some.inj hadd).symm
  subst hs'
  have hfound := entryOf_mem_appended_iff hnodup (htracked.lt_added hadd) pairs
  have hdrift := drift_appended s.stream id pairs
  rw [hzero] at hle hiff
  rw [← hiff]
  unfold drift at hle ⊢
  constructor
  · rintro ⟨hin, hlen⟩
    obtain ⟨hfit, hnum⟩ := hfound.1 hin
    rw [if_pos hfit] at hdrift
    exact ⟨by omega, hfit, hnum⟩
  · rintro ⟨hnone, hfit, hnum⟩
    rw [if_pos hfit] at hdrift
    exact ⟨hfound.2 ⟨hfit, hnum⟩, by omega⟩

/-- Values that leave little of an arena. -/
def bulky : List Bytes := [ascii "f", List.replicate 8000 0]

/-- The second entry does not fit behind the first: it is stored in a chunk of its own. -/
theorem second_chunk_stores : ∃ s s', Run step Free (withGroup newStream zeroID) [.addRaw ⟨1, 0⟩ bulky 0 false] s ∧
    s.stream.addRaw ⟨2, 0⟩ bulky 0 false = some s' ∧ s'.chunks.length = 2 ∧
    entryOf ⟨2, 0⟩ bulky ∈ s'.range zeroID maxID 0 ∧ s'.length = s'.records.length := by
  have hfits : totalBytes ((pairUp bulky).map Prod.snd) ≤ chunkArenaSize := by decide +kernel
  refine ⟨_, _, .cons trivial rfl (.nil _), rfl, by decide +kernel, ?_⟩
  refine (added_entry_stored_iff zeroID [.addRaw ⟨1, 0⟩ bulky 0 false] _ (.cons trivial rfl (.nil _)) ⟨2, 0⟩ bulky 0
    false _ rfl (by decide)).2 ⟨.cons (fun _ => hfits) rfl (.nil _), hfits, ?_⟩
  intro name hname
  rw [mem_singleton.1 hname]
  decide +kernel

/-- A value one byte longer than an arena: the entry is accepted and counted, and the stream has none. -/
theorem oversized_entry_is_lost : ∃ s', newStream.addRaw ⟨1, 0⟩ [ascii "f", List.replicate 8193 0] 0 false = some s' ∧
      s'.range zeroID maxID 0 = [] ∧ s'.length = 1 ∧ s'.records = [] := by
  have htotal : ∀ v : Bytes, totalBytes ((pairUp [ascii "f", v]).map Prod.snd) = v.length := fun v => by
    simp [pairUp, totalBytes]
  have hrecords : (newStream.appended ⟨1, 0⟩ [ascii "f", List.replicate 8193 0]).records = [] := by
    rw [Stream.appended_records, htotal, length_replicate, if_neg (by decide)]
    rfl
  refine ⟨newStream.appended ⟨1, 0⟩ [ascii "f", List.replicate 8193 0], rfl, ?_, rfl, hrecords⟩
  show Stream.entries _ = []
  rw [Stream.entries_eq, hrecords]
  rfl

end GroupedStream

/-! ## The names of all entries -/

structure AddCall where
  id : StreamID
  pairs : List Bytes
  maxLen : Int
  approx : Bool

/-- A stream, and the names each ID was added with last. -/
structure NamedStream where
  stream : Stream
  names : StreamID → List Bytes

namespace NamedStream

def new : NamedStream := ⟨newStream, fun _ => []⟩

def add (s : NamedStream) (x : AddCall) : NamedStream :=
  match s.stream.addRaw x.id x.pairs x.maxLen x.approx with
  | none => s
  | some s' => ⟨s', update s.names x.id ((pairUp x.pairs).map Prod.fst)⟩

/-- Every live record has the numbers of the names it was added with. -/
structure WellNamed (s : NamedStream) : Prop where
  tracked : s.stream.Tracked
  sorted : s.stream.Sorted
  nodup : s.stream.fields.Nodup
  known : ∀ r ∈ s.stream.records, ∀ name ∈ s.names r.id, name ∈ s.stream.fields
  numbers : ∀ r ∈ s.stream.records, r.fieldIDs = (s.names r.id).map fun name => UInt16.ofNat (s.stream.fields.idxOf name)

variable {s : NamedStream}

lemma WellNamed.add (h : s.WellNamed) (x : AddCall) : (s.add x).WellNamed := by
  unfold NamedStream.add
  cases hadd : s.stream.addRaw x.id x.pairs x.maxLen x.approx with
  | none => exact h
  | some s' =>
  have hfields : s'.fields = (internFields s.stream.fields ((pairUp x.pairs).map Prod.fst)).1 := by
    obtain rfl | rfl := Stream.addRaw_cases hadd <;> rfl
  have hgrow := internFields_grow s.stream.fields ((pairUp x.pairs).map Prod.fst)
  obtain ⟨hsub, htracked⟩ := h.tracked.addRaw hadd
  -- a record is an old one, which has another ID, or the one that was added
  have hcases : ∀ r ∈ s'.records, (r ∈ s.stream.records ∧ r.id ≠ x.id) ∨
      (r.id = x.id ∧ r.fieldIDs = (internFields s.stream.fields ((pairUp x.pairs).map Prod.fst)).2) := by
    intro r hr
    have hr := hsub.subset hr
    rw [Stream.appended_records, mem_append] at hr
    rcases hr with hr | hr
    · refine .inl ⟨hr, fun he => ?_⟩
      have hlt := h.tracked.lt_added hadd r hr
      rw [he, StreamID.lt_irrefl] at hlt
      cases hlt
    split_ifs at hr
    · obtain rfl := mem_singleton.1 hr
      exact .inr ⟨rfl, rfl⟩
    · cases hr
  refine ⟨htracked, h.sorted.addRaw h.tracked hadd, hfields ▸ nodup_internFields h.nodup _, ?_, ?_⟩
  all_goals
    intro r hr
    simp only [hfields]
    rcases hcases r hr with ⟨hold, hne⟩ | ⟨hid, hnew⟩
  · rw [update_of_ne hne]
    exact fun name hname => hgrow.subset (h.known r hold name hname)
  · rw [hid, update_self]
    exact fun name hname => mem_internFields hname
  · rw [update_of_ne hne, h.numbers r hold]
    refine map_congr_left fun name hname => ?_
    rw [idxOf_of_begins hgrow (h.known r hold name hname)]
  · rw [hid, update_self, hnew, internFields_ids]

lemma wellNamed_addAll (xs : List AddCall) : (xs.foldl add new).WellNamed := by
  induction xs using List.reverseRecOn with
  | nil => exact ⟨newStream_tracked, newStream_sorted, nodup_nil, by simp [new, newStream, Stream.records], by
      simp [new, newStream, Stream.records]⟩
  | append_singleton xs x ih =>
    rw [foldl_append]
    exact ih.add x

lemma mem_rangeQuery {s : Stream} (hs : s.Sorted) {lo hi : StreamID} {count : Int} {reverse : Bool} {e : StreamEntry}
    (h : e ∈ s.rangeQuery lo hi count reverse) : ∃ r ∈ s.records, e = s.unpackEntry r := by
  have hwithin : ∀ {r lo hi}, r ∈ (allIn s.chunks).filter (within lo hi) → r ∈ s.records := by
    intro r lo hi hr
    obtain ⟨hmem, hin⟩ := mem_filter.1 hr
    refine mem_activeIn.2 ⟨hmem, ?_⟩
    simp only [within, found, Bool.and_eq_true, Bool.not_eq_true'] at hin
    exact hin.1
  have htake : ∀ {rs : List EntryRecord} {n : Nat}, e ∈ (if 0 < n then (rs.map s.unpackEntry).take n
      else rs.map s.unpackEntry) → ∃ r ∈ rs, s.unpackEntry r = e := by
    intro rs n he
    split_ifs at he
    · exact mem_map.1 (mem_of_mem_take he)
    · exact mem_map.1 he
  cases reverse with
  | false =>
    obtain ⟨r, hr, rfl⟩ := htake h
    rw [rangeChunks_found hs] at hr
    exact ⟨r, hwithin hr, rfl⟩
  | true =>
    obtain ⟨r, hr, rfl⟩ := htake h
    exact ⟨r, hwithin (mem_reverse.1 ((reverseRecords_found hs hi lo).1.subset hr)), rfl⟩

lemma WellNamed.shown_iff (h : s.WellNamed) {r : EntryRecord} (hr : r ∈ s.stream.records) :
    (s.stream.unpackEntry r).fields = s.names r.id ↔ ∀ name ∈ s.names r.id, s.stream.fields.idxOf name < maxFields := by
  show r.fieldIDs.map (fieldName s.stream.fields) = s.names r.id ↔ _
  rw [h.numbers r hr, map_map]
  conv_lhs => rhs; rw [← map_id (s.names r.id)]
  rw [map_inj_left]
  exact forall₂_congr fun name hname => fieldName_idxOf h.nodup (h.known r hr name hname)

/-- After any additions, `Range` shows the live entries with the names they were added with, in order, exactly if all
of these are among the first 65536 names the stream was given. -/
theorem names_shown_iff (xs : List AddCall) (s : NamedStream) (hs : s = xs.foldl add new) :
    ((s.stream.range zeroID maxID 0).map (fun e => (e.id, e.fields)) = s.stream.records.map (fun r => (r.id, s.names r.id)) ∧
        ∀ lo hi count reverse, ∀ e ∈ s.stream.rangeQuery lo hi count reverse, e.fields = s.names e.id) ↔
      ∀ r ∈ s.stream.records, ∀ name ∈ s.names r.id, s.stream.fields.idxOf name < maxFields := by
  have h := hs ▸ wellNamed_addAll xs
  have hall : s.stream.range zeroID maxID 0 = s.stream.records.map s.stream.unpackEntry := s.stream.entries_eq
  rw [hall, map_map, map_inj_left]
  constructor
  · rintro ⟨hshown, -⟩ r hr
    exact (h.shown_iff hr).1 (congrArg Prod.snd (hshown r hr))
  · intro hnum
    refine ⟨fun r hr => congrArg (Prod.mk r.id) ((h.shown_iff hr).2 (hnum r hr)), ?_⟩
    intro lo hi count reverse e he
    obtain ⟨r, hr, rfl⟩ := mem_rangeQuery h.sorted he
    exact (h.shown_iff hr).2 (hnum r hr)

/-- Of three entries two are left, with names that the stream had numbers for. -/
def threeAdds : List AddCall :=
  [⟨⟨1, 0⟩, [ascii "f", ascii "1", ascii "g", ascii "2"], 0, false⟩, ⟨⟨2, 0⟩, [ascii "g", ascii "3"], 2, false⟩,
    ⟨⟨3, 0⟩, [ascii "f", ascii "4", ascii "f", ascii "5"], 2, true⟩]

theorem repeated_names_shown : ((threeAdds.foldl add new).stream.range zeroID maxID 0).map (fun e => (e.id, e.fields)) =
    [(⟨2, 0⟩, [ascii "g"]), (⟨3, 0⟩, [ascii "f", ascii "f"])] :=
  ((names_shown_iff threeAdds _ rfl).2 (by decide +kernel)).1.trans (by decide +kernel)

/-- An entry with one name more than there are numbers. -/
def tooManyNames : List Bytes := (List.range 65537).map fun n => List.replicate n 0

lemma not_numbered_tooManyNames : ¬ Numbered [] tooManyNames := by
  intro hnum
  have hnodup : tooManyNames.Nodup := nodup_range.map fun m n he => by simpa using congrArg List.length he
  have hnums : (tooManyNames.map (internFields [] tooManyNames).1.idxOf).Nodup :=
    hnodup.map_on fun a ha b _ he => (idxOf_inj (mem_internFields ha)).1 he
  have hsub : tooManyNames.map (internFields [] tooManyNames).1.idxOf ⊆ List.range maxFields := by
    intro i hi
    obtain ⟨name, hname, rfl⟩ := mem_map.1 hi
    exact mem_range.2 (hnum name hname)
  simpa [tooManyNames, maxFields] using (subperm_of_subset hnums hsub).length_le

lemma names_not_shown {names : List Bytes} (h : ¬ Numbered [] names) :
    ∃ s', newStream.addRaw ⟨1, 0⟩ (names.flatMap fun n => [n, []]) 0 false = some s' ∧
      ∃ e, s'.range zeroID maxID 0 = [e] ∧ e.fields ≠ names := by
  have hpairs : pairUp (names.flatMap fun n => [n, []]) = names.map fun n => (n, []) := by
    clear h
    induction names with
    | nil => rfl
    | cons n names ih => exact congrArg _ ih
  have hrecords := newStream.appended_records ⟨1, 0⟩ (names.flatMap fun n => [n, []])
  rw [if_pos (by simp [hpairs, totalBytes, comp_def])] at hrecords
  refine ⟨newStream.appended ⟨1, 0⟩ _, rfl, _, (Stream.entries_eq _).trans (congrArg _ hrecords), fun hshown => h ?_⟩
  have hnames : (pairUp (names.flatMap fun n => [n, []])).map Prod.fst = names := by simp [hpairs, comp_def]
  rw [← internFields_names_iff nodup_nil]
  simp only [Stream.unpackEntry, Stream.appended, hnames] at hshown
  exact hshown

theorem last_name_not_shown : ∃ s', newStream.addRaw ⟨1, 0⟩ (tooManyNames.flatMap fun n => [n, []]) 0 false = some s' ∧
    ∃ e, s'.range zeroID maxID 0 = [e] ∧ e.fields ≠ tooManyNames :=
  names_not_shown not_numbered_tooManyNames

end NamedStream

end Gopherdis.Stream

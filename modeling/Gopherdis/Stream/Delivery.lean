/-
What a consumer group delivers. To a group a stream is the list of the IDs of its live entries, in order,
and a cursor: an entry is added at the end, trimming keeps the last so many, and a read takes the first ones
above the cursor and moves it on. The chunks, their arenas and the deletion marks implement that, as long as
IDs rise and the values of an entry fit an arena.
-/
import Gopherdis.Stream.Groups

namespace Gopherdis.Stream

open Lib List

variable {α : Type} {s : Stream}

/-! ## The log -/

def keepLast {α : Type} (n : Nat) (l : List α) : List α := l.drop (l.length - n)

/-- The first `count` of a list, all of it without a positive count. -/
def first {α : Type} (count : Int) (l : List α) : List α := if 0 < count then l.take count.toNat else l

lemma drop_eq_keepLast (maxLen : Int) (l : List α) :
    l.drop ((l.length : Int) - maxLen).toNat = keepLast maxLen.toNat l := by
  unfold keepLast
  by_cases h : 0 ≤ maxLen
  · congr 1
    omega
  · rw [drop_eq_nil_of_le (by omega), drop_eq_nil_of_le (by omega)]

lemma map_first {β : Type} (f : α → β) (count : Int) (l : List α) : (first count l).map f = first count (l.map f) := by
  unfold first
  split_ifs
  · exact map_take
  · rfl

/-- What an operation does to what is known of the live entries. -/
def logAct {β : Type} (entry : StreamID → List Bytes → β) (idOf : β → StreamID) (l : List β) : GroupAct → List β
  | .addRaw id pairs maxLen _ =>
    if 0 < maxLen then keepLast maxLen.toNat (l ++ [entry id pairs]) else l ++ [entry id pairs]
  | .delete ids => l.filter fun e => idOf e ∉ ids
  | .trim maxLen _ => keepLast maxLen.toNat l
  | _ => l

/-- The live IDs, and the ID last delivered. -/
structure DeliveryLog where
  live : List StreamID
  cursor : StreamID
deriving DecidableEq, Repr

variable {d : DeliveryLog}

namespace DeliveryLog

variable (d : DeliveryLog)

/-- The IDs a read for new entries gets. -/
def next (count : Int) : List StreamID := first count (d.live.filter d.cursor.lt)

def act : GroupAct → DeliveryLog
  | .addRaw id _ maxLen _ =>
    { d with live := if 0 < maxLen then keepLast maxLen.toNat (d.live ++ [id]) else d.live ++ [id] }
  | .delete ids => { d with live := d.live.filter (· ∉ ids) }
  | .trim maxLen _ => { d with live := keepLast maxLen.toNat d.live }
  | .readGroup _ _ _ true count _ => { d with cursor := (d.next count).getLastD d.cursor }
  | _ => d

def afterAll (as : List GroupAct) : DeliveryLog := as.foldl act d

end DeliveryLog

/-! ## The length -/

/-- The length counts the live records, not more. -/
def Stream.Counted (s : Stream) : Prop := s.length = s.records.length

lemma Stream.Tracked.trimInternal_length (h : s.Tracked) (maxLen : Int) (approx : Bool) :
    (s.trimInternal maxLen approx).length - ((s.trimInternal maxLen approx).records.length : Int) =
      s.length - s.records.length := by
  obtain ⟨-, hlen, -⟩ := trimChunks_spec maxLen approx s.length h.deleted
  show (trimChunks maxLen approx s.length s.chunks).2 -
    ((activeIn (trimChunks maxLen approx s.length s.chunks).1).length : Int) = s.length - (activeIn s.chunks).length
  omega

lemma Stream.delete_length (s : Stream) (ids : List StreamID) :
    (s.delete ids).length - ((s.delete ids).records.length : Int) = s.length - s.records.length := by
  obtain ⟨-, hlen⟩ := activeIn_delete ids s.chunks
  show s.length - ((s.chunks.map fun c => hits ids c.entries).sum : Nat) -
    ((activeIn (s.chunks.map fun c => c.delete ids)).length : Int) = s.length - (activeIn s.chunks).length
  omega

lemma Stream.Counted.trimInternal (h : s.Counted) (hs : s.Tracked) (maxLen : Int) (approx : Bool) :
    (s.trimInternal maxLen approx).Counted := by
  have hlen := hs.trimInternal_length maxLen approx
  unfold Stream.Counted at h ⊢
  omega

lemma Stream.Counted.delete (h : s.Counted) (ids : List StreamID) : (s.delete ids).Counted := by
  have hlen := s.delete_length ids
  unfold Stream.Counted at h ⊢
  omega

/-! ## Reading -/

section Reading

variable (now : Int) (noAck : Bool) (consumerName : Bytes) (count : Int)

lemma first_cons {n : Int} (h : n ≠ 1) (a : α) (l : List α) : first n (a :: l) = a :: first (n - 1) l := by
  unfold first
  split_ifs with hpos hpos'
  · rw [show n.toNat = (n - 1).toNat + 1 by omega, take_succ_cons]
  · omega
  · omega
  · rfl

variable (g : ConsumerGroup)

lemma readNew_found (found : Nat) {rs : List EntryRecord}
    (hord : (rs.filter fun r => !r.deleted).Pairwise fun a b => a.id.lt b.id = true)
    (hfound : 0 < count → (found : Int) < count) : (readNew now noAck consumerName count g found rs).2 =
      first (count - found) ((rs.filter fun r => !r.deleted).filter fun r => g.lastDeliveredID.lt r.id) := by
  induction rs generalizing g found with
  | nil => simp [readNew, first]
  | cons r rs ih =>
  rw [readNew]
  split_ifs with hdel hlt hfull
  · rw [filter_cons_of_neg (by simpa using hdel)] at hord ⊢
    exact ih g found hord hfound
  · have hone : count - found = 1 := by have := hfound hfull.1; omega
    rw [filter_cons_of_pos (by simpa using hdel), filter_cons, if_pos hlt, hone]
    rfl
  · rw [filter_cons_of_pos (by simpa using hdel)] at hord ⊢
    obtain ⟨habove, hord⟩ := pairwise_cons.1 hord
    rw [filter_cons, if_pos hlt, first_cons (by omega)]
    have hrest := ih (g.deliver now noAck consumerName r.id) (found + 1) hord (by omega)
    -- all that follow are above the entry just delivered, and so above the cursor it was found with
    have hsame : ((rs.filter fun r => !r.deleted).filter fun r' => r.id.lt r'.id) =
        (rs.filter fun r => !r.deleted).filter fun r => g.lastDeliveredID.lt r.id := by
      refine filter_congr fun r' hr' => ?_
      rw [habove r' hr', StreamID.lt_trans hlt (habove r' hr')]
    have hcount : count - (found + 1 : Nat) = count - found - 1 := by omega
    rw [hcount] at hrest
    exact congrArg (r :: ·) (hrest.trans (congrArg (first (count - found - 1)) hsame))
  · rw [filter_cons_of_pos (by simpa using hdel)] at hord ⊢
    rw [filter_cons, if_neg hlt]
    exact ih g found (pairwise_cons.1 hord).2 hfound

lemma readGroup_new (h : s.Tracked) (g : ConsumerGroup) (startID : StreamID) :
    (s.readGroup g now consumerName startID true count noAck).2 =
      first count (s.entries.filter fun e => g.lastDeliveredID.lt e.id) := by
  have hord : ((allIn s.chunks).filter fun r => !r.deleted).Pairwise fun a b => a.id.lt b.id = true := by
    rw [← activeIn_eq]
    exact h.ordered
  have hfound := readNew_found now noAck consumerName count g 0 hord (by simp)
  rw [← activeIn_eq, Nat.cast_zero, Int.sub_zero] at hfound
  simp only [Stream.readGroup, if_true, hfound, Stream.entries_eq, filter_map, map_first]
  rfl

lemma lastDeliveredID_foldl_deliver (ids : List StreamID) :
    (ids.foldl (fun g id => g.deliver now noAck consumerName id) g).lastDeliveredID =
      ids.getLastD g.lastDeliveredID := by
  induction ids generalizing g with
  | nil => rfl
  | cons id ids ih => rw [foldl_cons, ih, getLastD_cons]; rfl

lemma lastDeliveredID_readGroup (s : Stream) (g : ConsumerGroup) (startID : StreamID) :
    (s.readGroup g now consumerName startID true count noAck).1.lastDeliveredID =
      ((s.readGroup g now consumerName startID true count noAck).2.map StreamEntry.id).getLastD g.lastDeliveredID := by
  rw [GroupedStream.readGroup_new_ids]
  show (readNew now noAck consumerName count g 0 (allIn s.chunks)).1.lastDeliveredID = _
  rw [(readNew_deliver now noAck consumerName count g 0 (allIn s.chunks)).1, lastDeliveredID_foldl_deliver]

end Reading

lemma lastDeliveredID_ackAll (g : ConsumerGroup) (ids : List StreamID) :
    (ackAll g ids).1.lastDeliveredID = g.lastDeliveredID := by
  induction ids generalizing g with
  | nil => rfl
  | cons id ids ih => exact (ih _).trans (g.lastDeliveredID_ack id)

/-! ## The stream implements the log -/

def GroupAct.addedID : GroupAct → Option StreamID
  | .addRaw id _ _ _ => some id
  | _ => none

/-- The values of an added entry together fit an arena. -/
def GroupAct.Fits : GroupAct → Prop
  | .addRaw _ pairs _ _ => totalBytes ((pairUp pairs).map Prod.snd) ≤ chunkArenaSize
  | _ => True

instance (a : GroupAct) : Decidable a.Fits := by
  cases a <;> unfold GroupAct.Fits <;> infer_instance

namespace GroupedStream

/-- What a stream and its group are to the clients. -/
structure Shows (s : GroupedStream) (d : DeliveryLog) : Prop where
  tracked : s.stream.Tracked
  counted : s.stream.Counted
  live : s.stream.records.map EntryRecord.id = d.live
  cursor : s.group.lastDeliveredID = d.cursor

/-- An ID that may be added. -/
def Accepts (s : GroupedStream) (id : StreamID) : Prop := 0 < s.stream.length → s.stream.lastID.lt id = true

lemma withGroup_shows (start : StreamID) : (withGroup newStream start).Shows ⟨[], start⟩ :=
  ⟨newStream_tracked, rfl, rfl, rfl⟩

variable {s : GroupedStream}

lemma addRaw_of_accepts {id : StreamID} (h : s.Accepts id) (pairs : List Bytes) (maxLen : Int)
    (approx : Bool) : s.stream.addRaw id pairs maxLen approx =
      some (if 0 < maxLen ∧ maxLen < s.stream.length + 1 then (s.stream.appended id pairs).trimInternal maxLen approx
        else s.stream.appended id pairs) := by
  rw [Stream.addRaw_eq, if_neg]
  rintro ⟨hpos, hlt⟩
  exact hlt (h hpos)

lemma tracked_act (h : s.stream.Tracked) (a : GroupAct) : (s.act a).1.stream.Tracked := by
  cases a with
  | addRaw id pairs maxLen approx =>
    show ((s.stream.addRaw id pairs maxLen approx).getD s.stream).Tracked
    cases hadd : s.stream.addRaw id pairs maxLen approx with
    | none => exact h
    | some s' => exact (h.addRaw hadd).2
  | delete ids => exact (h.delete_spec ids).2
  | trim maxLen approx => exact (h.trimInternal_spec maxLen approx).2
  | readGroup | ack | claim => exact h

variable {a : GroupAct}

lemma records_act {β : Type} (f : EntryRecord → β) (entry : StreamID → List Bytes → β) (idOf : β → StreamID)
    (hid : ∀ r, idOf (f r) = r.id)
    (hentry : ∀ id ns pairs, f ⟨id, ns, (pairUp pairs).map Prod.snd, false⟩ = entry id pairs)
    (hs : s.stream.Tracked) (hcounted : s.stream.Counted)
    (hacc : ∀ id, a.addedID = some id → s.Accepts id) (hfit : a.Fits) : (s.act a).1.stream.Counted ∧
      (s.act a).1.stream.records.map f = logAct entry idOf (s.stream.records.map f) a := by
  -- trimming keeps as many as there may be
  have htrim : ∀ {t : Stream} (maxLen : Int) (approx : Bool), t.Tracked → t.Counted →
      (t.trimInternal maxLen approx).records.map f = keepLast maxLen.toNat (t.records.map f) := by
    intro t maxLen approx ht hc
    rw [(ht.trimInternal_spec maxLen approx).1, map_drop, hc, ← length_map]
    exact drop_eq_keepLast maxLen _
  cases a with
  | addRaw id pairs maxLen approx =>
    have hadd := addRaw_of_accepts (hacc id rfl) pairs maxLen approx
    have hrecords := s.stream.appended_records id pairs
    rw [if_pos (show totalBytes _ ≤ _ from hfit)] at hrecords
    have htracked := hs.appended pairs (hs.lt_added hadd)
    have hlen : (s.stream.appended id pairs).length = s.stream.length + 1 := rfl
    have hcounted' : (s.stream.appended id pairs).Counted := by
      rw [Stream.Counted, hlen, hrecords, length_append, hcounted]
      simp
    have hlive : (s.stream.appended id pairs).records.map f = s.stream.records.map f ++ [entry id pairs] := by
      rw [hrecords, map_append, map_singleton, hentry]
    simp only [act, logAct, hadd, Option.getD_some]
    split_ifs with hreached hpos hpos
    · exact ⟨hcounted'.trimInternal htracked maxLen approx, hlive ▸ htrim maxLen approx htracked hcounted'⟩
    · exact absurd hreached.1 hpos
    · -- a limit that is not reached
      refine ⟨hcounted', hlive.trans ?_⟩
      rw [Stream.Counted] at hcounted
      rw [keepLast, length_append, length_singleton, length_map,
        show s.stream.records.length + 1 - maxLen.toNat = 0 by omega, drop_zero]
    · exact ⟨hcounted', hlive⟩
  | delete ids =>
    refine ⟨hcounted.delete ids, ?_⟩
    show (s.stream.delete ids).records.map f = _
    rw [(hs.delete_spec ids).1, logAct, filter_map]
    simp [Function.comp_def, hid]
  | trim maxLen approx => exact ⟨hcounted.trimInternal hs maxLen approx, htrim maxLen approx hs hcounted⟩
  | readGroup | ack | claim => exact ⟨hcounted, rfl⟩

lemma Shows.next (h : s.Shows d) (now : Int) (consumerName : Bytes) (startID : StreamID) (count : Int) (noAck : Bool) :
    (s.stream.readGroup s.group now consumerName startID true count noAck).2.map StreamEntry.id = d.next count := by
  rw [readGroup_new now noAck consumerName count h.tracked, h.cursor, map_first, Stream.entries_eq, filter_map,
    map_map]
  unfold DeliveryLog.next
  rw [← h.live, filter_map]
  rfl

lemma Shows.act (h : s.Shows d)
    (hid : ∀ id, a.addedID = some id → s.Accepts id) (hfit : a.Fits) : (s.act a).1.Shows (d.act a) := by
  obtain ⟨hcounted, hlive⟩ := records_act EntryRecord.id (fun id _ => id) id (fun _ => rfl) (fun _ _ _ => rfl)
    h.tracked h.counted hid hfit
  have hlog : (d.act a).live = logAct (fun id _ => id) id d.live a := by
    cases a with
    | readGroup now consumerName startID isNew count noAck => cases isNew <;> rfl
    | addRaw | delete | trim | ack | claim => rfl
  refine ⟨tracked_act h.tracked a, hcounted, by rw [hlive, h.live, hlog], ?_⟩
  cases a with
  | readGroup now consumerName startID isNew count noAck =>
    cases isNew with
    | true =>
      show (s.stream.readGroup s.group now consumerName startID true count noAck).1.lastDeliveredID =
        (d.next count).getLastD d.cursor
      rw [lastDeliveredID_readGroup, h.next, h.cursor]
    | false => exact h.cursor
  | ack ids => exact (lastDeliveredID_ackAll s.group ids).trans h.cursor
  | claim now consumerName minIdleMs ids =>
    exact (claimAll_spec now consumerName minIdleMs s.group ids).2.2.2.trans h.cursor
  | addRaw | delete | trim => exact h.cursor

/-! ## Runs -/

lemma Accepts.act (hs : s.stream.Tracked) {id : StreamID} (h : s.Accepts id)
    (ha : ∀ id', a.addedID = some id' → s.Accepts id' ∧ id'.lt id = true) : (s.act a).1.Accepts id := by
  cases a with
  | addRaw id' pairs maxLen approx =>
    obtain ⟨hacc, hlt⟩ := ha id' rfl
    intro _
    have hlast : (s.act (.addRaw id' pairs maxLen approx)).1.stream.lastID = id' := by
      simp only [GroupedStream.act, addRaw_of_accepts hacc, Option.getD_some]
      split_ifs <;> rfl
    rw [hlast]
    exact hlt
  | delete ids =>
    intro hpos
    have hpos : 0 < s.stream.length - ((s.stream.chunks.map fun c => hits ids c.entries).sum : Nat) := hpos
    exact h (by omega)
  | trim maxLen approx =>
    intro hpos
    obtain ⟨hdrop, hlen, -⟩ := trimChunks_spec maxLen approx s.stream.length hs.deleted
    have hle := congrArg List.length hdrop
    rw [length_drop] at hle
    have hpos : 0 < (trimChunks maxLen approx s.stream.length s.stream.chunks).2 := hpos
    exact h (by omega)
  | readGroup | ack | claim => exact h

lemma afterAll_inv {γ : Type} {f : γ → GroupAct → γ} {I : GroupedStream → γ → Prop}
    (htracked : ∀ {s d}, I s d → s.stream.Tracked)
    (hstep : ∀ {s d a}, I s d → (∀ id, a.addedID = some id → s.Accepts id) → a.Fits → I (s.act a).1 (f d a))
    {d : γ} (h : I s d) {as : List GroupAct} (hacc : ∀ id ∈ as.filterMap GroupAct.addedID, s.Accepts id)
    (hinc : (as.filterMap GroupAct.addedID).Pairwise fun a b => a.lt b = true) (hfit : ∀ a ∈ as, a.Fits) :
    I (s.afterAll as) (as.foldl f d) := by
  induction as generalizing s d with
  | nil => exact h
  | cons a as ih =>
  rw [forall_mem_cons] at hfit
  have hhead : ∀ id', a.addedID = some id' → s.Accepts id' := fun id' ha =>
    hacc id' (mem_filterMap.2 ⟨a, mem_cons_self, ha⟩)
  refine ih (hstep h hhead hfit.1) (fun id hid => ?_) ?_ hfit.2
  · refine Accepts.act (htracked h) (hacc id ?_) fun id' ha => ⟨hhead id' ha, ?_⟩
    · obtain ⟨b, hb, hbid⟩ := mem_filterMap.1 hid
      exact mem_filterMap.2 ⟨b, mem_cons_of_mem _ hb, hbid⟩
    · rw [filterMap_cons_some ha] at hinc
      exact (pairwise_cons.1 hinc).1 id hid
  · cases ha : a.addedID with
    | none => rwa [filterMap_cons_none ha] at hinc
    | some id' =>
      rw [filterMap_cons_some ha] at hinc
      exact (pairwise_cons.1 hinc).2

lemma Shows.afterAll (h : s.Shows d) {as : List GroupAct} (hacc : ∀ id ∈ as.filterMap GroupAct.addedID, s.Accepts id)
    (hinc : (as.filterMap GroupAct.addedID).Pairwise fun a b => a.lt b = true) (hfit : ∀ a ∈ as, a.Fits) :
    (s.afterAll as).Shows (d.afterAll as) :=
  afterAll_inv (fun h => h.tracked) (fun h hid hfit => h.act hid hfit) h hacc hinc hfit

/-- All IDs a run delivers, in order. -/
def deliveries : GroupedStream → List GroupAct → List StreamID
  | _, [] => []
  | s, a :: as => s.delivered a ++ deliveries (s.act a).1 as

lemma delivered_rising (s : GroupedStream) (a : GroupAct) :
    (s.group.lastDeliveredID :: s.delivered a).Pairwise (fun a b => a.lt b = true) ∧
      (s.act a).1.group.lastDeliveredID = (s.delivered a).getLastD s.group.lastDeliveredID := by
  cases a with
  | addRaw | delete | trim => exact ⟨pairwise_singleton _ _, rfl⟩
  | readGroup now consumerName startID isNew count noAck =>
    cases isNew with
    | true =>
      refine ⟨?_, lastDeliveredID_readGroup now noAck consumerName count s.stream s.group startID⟩
      show (_ :: (s.stream.readGroup s.group now consumerName startID true count noAck).2.map StreamEntry.id).Pairwise _
      rw [readGroup_new_ids]
      exact (readNew_deliver now noAck consumerName count s.group 0 (allIn s.stream.chunks)).2
    | false => exact ⟨pairwise_singleton _ _, rfl⟩
  | ack ids => exact ⟨pairwise_singleton _ _, lastDeliveredID_ackAll s.group ids⟩
  | claim now consumerName minIdleMs ids =>
    exact ⟨pairwise_singleton _ _, (claimAll_spec now consumerName minIdleMs s.group ids).2.2.2⟩

lemma rising_append {a : StreamID} {xs ys : List StreamID} (hx : (a :: xs).Pairwise fun a b => a.lt b = true)
    (hy : (xs.getLastD a :: ys).Pairwise fun a b => a.lt b = true) :
    (a :: (xs ++ ys)).Pairwise fun a b => a.lt b = true := by
  induction xs generalizing a with
  | nil => exact hy
  | cons x xs ih =>
  obtain ⟨hall, hxs⟩ := pairwise_cons.1 hx
  rw [getLastD_cons] at hy
  have hrest := ih hxs hy
  have hax := hall x mem_cons_self
  refine pairwise_cons.2 ⟨fun y hy' => ?_, hrest⟩
  rcases mem_cons.1 hy' with rfl | hy'
  · exact hax
  · exact StreamID.lt_trans hax ((pairwise_cons.1 hrest).1 y hy')

lemma deliveries_rising (s : GroupedStream) (as : List GroupAct) :
    (s.group.lastDeliveredID :: s.deliveries as).Pairwise fun a b => a.lt b = true := by
  induction as generalizing s with
  | nil => exact pairwise_singleton _ _
  | cons a as ih =>
    obtain ⟨hrise, hlast⟩ := s.delivered_rising a
    have hrest := ih (s.act a).1
    rw [hlast] at hrest
    exact rising_append hrise hrest

/-- In every run with rising IDs and entries that fit an arena, a group is delivered rising IDs, none twice,
and each read gets the first entries above the cursor, of those that were added and neither deleted nor
trimmed. -/
theorem group_delivers_in_order (start : StreamID) (as : List GroupAct)
    (hinc : (as.filterMap GroupAct.addedID).Pairwise fun a b => a.lt b = true) (hfit : ∀ a ∈ as, a.Fits) :
    ((withGroup newStream start).deliveries as).Pairwise (fun a b => a.lt b = true) ∧
    ∀ bs now consumerName startID count noAck cs,
      as = bs ++ GroupAct.readGroup now consumerName startID true count noAck :: cs →
      ∀ s d, s = (withGroup newStream start).afterAll bs → d = DeliveryLog.afterAll ⟨[], start⟩ bs →
        (s.act (.readGroup now consumerName startID true count noAck)).2 =
          first count (s.stream.entries.filter fun e => s.group.lastDeliveredID.lt e.id) ∧
        s.stream.entries.map StreamEntry.id = d.live ∧ s.group.lastDeliveredID = d.cursor := by
  refine ⟨(pairwise_cons.1 (deliveries_rising _ as)).2, ?_⟩
  rintro bs now consumerName startID count noAck cs rfl s d rfl rfl
  rw [filterMap_append, pairwise_append] at hinc
  have h : ((withGroup newStream start).afterAll bs).Shows (DeliveryLog.afterAll ⟨[], start⟩ bs) :=
    (withGroup_shows start).afterAll (fun _ _ hpos => absurd hpos (lt_irrefl _)) hinc.1
      fun a ha => hfit a (mem_append_left _ ha)
  refine ⟨readGroup_new now noAck consumerName count h.tracked _ startID, ?_, h.cursor⟩
  rw [Stream.entries_eq, map_map, ← h.live]
  rfl

/-- Two entries, of which one is read; the other is deleted, a third one added and read. -/
def addedAndRead : List GroupAct :=
  [.addRaw ⟨1, 0⟩ [ascii "f", ascii "v"] 0 false, .addRaw ⟨2, 0⟩ [ascii "f", ascii "v"] 0 false,
    .readGroup 0 (ascii "a") zeroID true 1 false, .delete [⟨2, 0⟩],
    .addRaw ⟨3, 0⟩ [ascii "f", ascii "v"] 0 false, .readGroup 1 (ascii "b") zeroID true 0 false]

theorem deleted_entry_is_passed_over : (withGroup newStream zeroID).deliveries addedAndRead = [⟨1, 0⟩, ⟨3, 0⟩] ∧
      ((withGroup newStream zeroID).deliveries addedAndRead).Pairwise fun a b => a.lt b = true :=
  ⟨by decide, (group_delivers_in_order zeroID addedAndRead (by decide) (by decide)).1⟩

/-! ## Ranges -/

/-- An added entry, as ID and values. -/
def addedEntry (id : StreamID) (pairs : List Bytes) : StreamID × List Bytes := (id, (pairUp pairs).map Prod.snd)

def liveAfter (as : List GroupAct) : List (StreamID × List Bytes) := as.foldl (logAct addedEntry Prod.fst) []

def shownRecord (r : EntryRecord) : StreamID × List Bytes := (r.id, r.values)

/-- A stream holds these live entries, and counts them. -/
def Lists (s : GroupedStream) (l : List (StreamID × List Bytes)) : Prop :=
  s.stream.Tracked ∧ s.stream.Counted ∧ s.stream.records.map shownRecord = l

lemma Lists.act {l : List (StreamID × List Bytes)} (h : s.Lists l)
    (hacc : ∀ id, a.addedID = some id → s.Accepts id) (hfit : a.Fits) :
    (s.act a).1.Lists (logAct addedEntry Prod.fst l a) := by
  obtain ⟨htracked, hcounted, rfl⟩ := h
  exact ⟨tracked_act htracked a, records_act shownRecord addedEntry Prod.fst (fun _ => rfl) (fun _ _ _ => rfl)
    htracked hcounted hacc hfit⟩

lemma ids_act (s : GroupedStream) (a : GroupAct) :
    (s.act a).1.stream.ids.Sublist (s.stream.ids ++ a.addedID.toList) := by
  have hkeep : s.stream.ids.Sublist (s.stream.ids ++ a.addedID.toList) := sublist_append_left ..
  cases a with
  | addRaw id pairs maxLen approx =>
    show ((s.stream.addRaw id pairs maxLen approx).getD s.stream).ids.Sublist _
    cases hadd : s.stream.addRaw id pairs maxLen approx with
    | none => exact hkeep
    | some s' =>
      obtain rfl | rfl := Stream.addRaw_cases hadd
      · exact s.stream.appended_ids id pairs
      · exact ((s.stream.appended id pairs).trimInternal_ids maxLen approx).trans (s.stream.appended_ids id pairs)
  | delete ids => exact (s.stream.delete_ids ids).symm ▸ hkeep
  | trim maxLen approx => exact (s.stream.trimInternal_ids maxLen approx).trans hkeep
  | readGroup | ack | claim => exact hkeep

lemma ids_afterAll (s : GroupedStream) (as : List GroupAct) :
    (s.afterAll as).stream.ids.Sublist (s.stream.ids ++ as.filterMap GroupAct.addedID) := by
  induction as generalizing s with
  | nil => simp [afterAll]
  | cons a as ih =>
    have hsplit : (a :: as).filterMap GroupAct.addedID = a.addedID.toList ++ as.filterMap GroupAct.addedID := by
      cases h : a.addedID <;> simp [h]
    rw [hsplit, ← append_assoc]
    exact (ih (s.act a).1).trans ((s.ids_act a).append_right _)

def shownEntry (e : StreamEntry) : StreamID × List Bytes := (e.id, e.values)

def between (lo hi : StreamID) (e : StreamID × List Bytes) : Bool := !e.1.lt lo && !hi.lt e.1

lemma map_rangeCount (s : Stream) (count : Int) (rs : List EntryRecord) :
    (if 0 < count.toNat then (rs.map s.unpackEntry).take count.toNat else rs.map s.unpackEntry).map shownEntry =
      first count (rs.map shownRecord) := by
  have hpos : 0 < count.toNat ↔ 0 < count := by omega
  simp only [hpos]
  refine (map_first shownEntry count _).trans ?_
  rw [map_map]
  rfl

/-- After any run with rising IDs and entries that fit an arena, `Range` lists the live entries within the limits,
from either end. -/
theorem range_lists_live (start : StreamID) (as : List GroupAct)
    (hinc : (as.filterMap GroupAct.addedID).Pairwise fun a b => a.lt b = true) (hfit : ∀ a ∈ as, a.Fits) :
    ((liveAfter as).map Prod.fst).Pairwise (fun a b => a.lt b = true) ∧
    ∀ s, s = ((withGroup newStream start).afterAll as).stream → ∀ lo hi count,
      (s.rangeQuery lo hi count false).map shownEntry = first count ((liveAfter as).filter (between lo hi)) ∧
      (s.rangeQuery hi lo count true).map shownEntry = first count ((liveAfter as).filter (between lo hi)).reverse := by
  obtain ⟨-, -, hlive⟩ := afterAll_inv (I := Lists) (s := withGroup newStream start) (d := []) (fun h => h.1)
    (fun h hacc hfit => h.act hacc hfit) ⟨newStream_tracked, rfl, rfl⟩ (fun _ _ hpos => absurd hpos (lt_irrefl _)) hinc hfit
  have hsub := ids_afterAll (withGroup newStream start) as
  generalize ((withGroup newStream start).afterAll as).stream = s at hlive hsub
  have hrise : (allIn s.chunks).Pairwise fun a b => a.id.lt b.id = true := pairwise_map.1 (hinc.sublist hsub)
  have hrising : Rising (allIn s.chunks) := hrise.imp fun {a b} (hlt : a.id.lt b.id = true) (_ : a.deleted = false) => hlt
  have hall : liveAfter as = ((allIn s.chunks).filter fun r => !r.deleted).map shownRecord := by
    rw [liveAfter, ← hlive, Stream.records, activeIn_eq]
  have hfound : ∀ lo hi, (liveAfter as).filter (between lo hi) =
      ((allIn s.chunks).filter (within lo hi)).map shownRecord := by
    intro lo hi
    rw [hall, filter_map, filter_filter]
    exact congrArg _ (filter_congr fun r _ => Bool.and_comm ..)
  refine ⟨?_, ?_⟩
  · rw [hall, map_map, pairwise_map]
    exact hrise.filter _
  rintro s rfl lo hi count
  constructor
  · rw [Stream.rangeQuery, if_neg Bool.false_ne_true, Stream.range, map_rangeCount, rangeChunks_found hrising, hfound]
  · have hreverse : reverseRecords hi lo s.chunks = ((allIn s.chunks).filter (within lo hi)).reverse := by
      refine (reverseRecords_found hrising lo hi).2.2 fun c hc hhead => filter_eq_nil_iff.2 fun r hr => ?_
      obtain ⟨first, hf, habove⟩ := (Option.any_eq_true _ _).1 hhead
      obtain ⟨rest, he⟩ := head?_eq_some_iff.1 hf
      have hc : c.entries.Pairwise fun a b => a.id.lt b.id = true :=
        hrise.sublist (sublist_flatten_of_mem (mem_map_of_mem hc))
      rw [he] at hc hr
      rcases mem_cons.1 hr with rfl | hr
      · simp [within, found, habove]
      · simp [within, found, StreamID.lt_trans habove ((pairwise_cons.1 hc).1 r hr)]
    rw [Stream.rangeQuery, if_pos rfl, Stream.rangeReverse, ← reverseRecords, map_rangeCount, hreverse, hfound,
      ← map_reverse]

theorem deleted_entry_is_not_listed :
    (((withGroup newStream zeroID).afterAll addedAndRead).stream.rangeQuery maxID zeroID 1 true).map shownEntry =
        [(⟨3, 0⟩, [ascii "v"])] ∧ ((liveAfter addedAndRead).map Prod.fst).Pairwise fun a b => a.lt b = true :=
  ⟨by decide, (range_lists_live zeroID addedAndRead (by decide) (by decide)).1⟩

end GroupedStream

end Gopherdis.Stream

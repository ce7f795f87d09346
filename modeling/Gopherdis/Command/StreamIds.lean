/-
What the stream commands make of IDs. `XRANGE` reads an ID without a sequence part as the first one of its
millisecond, at either end. `XREAD` asks for one entry more than the count and filters the start out; without a count it
asks for one. The ID `*` stands for runs out of sequence numbers.
-/
import Gopherdis.Command.Xread
import Gopherdis.Stream.Delivery

namespace Gopherdis.Command

open Lib Codec Object Store Gopherdis.Stream List UInt64

variable {s : Stream} {start last : StreamID} {nowMs a b : Nat}

/-! ## Generated IDs -/

variable (nowMs : Nat)

/-- The ID made for `*` is above the last one, and no stream with that last ID refuses it. -/
def GeneratedAdvances (last : StreamID) : Prop :=
  ∀ text, isAuto text = true → ∃ id, parseID nowMs text last = some id ∧ last.lt id = true ∧
    ∀ (s : Stream) pairs maxLen approx, s.lastID = last → (s.addRaw id pairs maxLen approx).isSome = true

lemma lt_autoID_iff (last : StreamID) :
    last.lt (autoID nowMs last) = true ↔ (last.seq.toNat = 2 ^ 64 - 1 → last.ms < UInt64.ofNat nowMs) := by
  have hseq := last.seq.toNat_lt
  unfold autoID nextSeq
  by_cases hlt : last.ms < UInt64.ofNat nowMs
  · have hms : ¬ UInt64.ofNat nowMs < last.ms := UInt64.lt_asymm hlt
    simp [StreamID.lt, hlt, hms]
  have hms : (if UInt64.ofNat nowMs < last.ms then last.ms else UInt64.ofNat nowMs) = last.ms := by
    split_ifs with h
    · rfl
    · exact UInt64.le_antisymm (UInt64.not_lt.1 hlt) (UInt64.not_lt.1 h)
  have hnext : (last.seq + 1).toNat = (last.seq.toNat + 1) % 2 ^ 64 := UInt64.toNat_add ..
  simp only [hms, hlt, if_true, imp_false]
  simp only [StreamID.lt, UInt64.lt_irrefl, decide_true, decide_false, Bool.false_or, Bool.true_and, decide_eq_true_eq,
    UInt64.lt_iff_toNat_lt, hnext]
  omega

/-- An ID is generated above the last one unless the sequence numbers of its millisecond are used up and the clock has not
passed it. -/
theorem generated_id_advances_iff (nowMs : Nat) (last : StreamID) : GeneratedAdvances nowMs last ↔
    (last.seq.toNat = 2 ^ 64 - 1 → last.ms < ofNat nowMs) := by
  rw [← lt_autoID_iff]
  constructor
  · intro h
    obtain ⟨id, hid, hlt, -⟩ := h (ascii "*") (by decide)
    rw [parseID_of_auto (by decide)] at hid
    cases hid
    exact hlt
  · intro h text htext
    refine ⟨_, parseID_of_auto htext nowMs last, h, fun s pairs maxLen approx hlast => ?_⟩
    rw [Stream.addRaw_eq, if_neg (by rw [hlast, h]; simp)]
    rfl

/-- The last sequence number of a millisecond that is still to come. -/
def usedUp : StreamID := ⟨5000000000000, ofNat (2 ^ 64 - 1)⟩

theorem used_up_millisecond_refused : usedUp.lt maxID = true ∧
    parseID 1700000000000 (ascii "*") usedUp = some ⟨5000000000000, 0⟩ ∧
    ∃ s, newStream.addRaw usedUp [ascii "f", ascii "v"] 0 false = some s ∧ s.lastID = usedUp ∧
      s.addRaw ⟨5000000000000, 0⟩ [ascii "f", ascii "v"] 0 false = none :=
  ⟨by decide, by decide, _, rfl, rfl, by decide⟩

/-! ## XREAD -/

lemma range_from (hs : s.Sorted) (n : Nat) : s.range start maxID n =
    if 0 < n then (s.entries.filter fun e => !e.id.lt start).take n else s.entries.filter fun e => !e.id.lt start := by
  rw [Stream.range, rangeChunks_from hs, Stream.entries_eq, filter_map]
  rfl

/-- Of the entries from the start on, only the first one can be the start. -/
theorem after_start (hs : s.Sorted) {e : StreamEntry} {es : List StreamEntry}
    (hes : (s.entries.filter fun e => !e.id.lt start) = e :: es) : es.filter (fun e => start.lt e.id) = es := by
  have hrise : s.entries.Pairwise fun a b => a.id.lt b.id = true := by
    rw [Stream.entries_eq, Stream.records, activeIn_eq, pairwise_map]
    refine (pairwise_filter.2 (hs.imp ?_))
    intro a b hab ha _
    exact hab (by simpa using ha)
  have hfrom := hrise.filter fun e => !e.id.lt start
  have hstart : e.id.lt start = false := by
    have hmem := hes ▸ mem_cons_self
    exact (Bool.not_eq_true' _).mp (mem_filter.1 hmem).2
  rw [hes] at hfrom
  exact filter_eq_self.2 fun e' he' => StreamID.lt_of_lt_of_not_lt ((pairwise_cons.1 hfrom).1 e' he') hstart

/-- The entries `XREAD` returns are the first ones after the start, as many as the count says, and without a count if there
is at most one entry from the start on. -/
theorem xread_selects_iff (s : Stream) (hs : s.Sorted) (start : StreamID) (count : Int) (hcount : 0 ≤ count)
    (hmax : count < 2 ^ 63) : xreadEntries count start s = first count (s.entries.filter fun e => start.lt e.id) ↔
      (count = 0 → (s.entries.filter fun e => !e.id.lt start).length ≤ 1) := by
  have hwanted : (s.entries.filter fun e => start.lt e.id) =
      (s.entries.filter fun e => !e.id.lt start).filter fun e => start.lt e.id := by
    rw [filter_filter]
    refine filter_congr fun e _ => ?_
    cases h : start.lt e.id with
    | false => rfl
    | true => rw [StreamID.lt_asymm h]; rfl
  unfold xreadEntries first
  rw [range_from hs, hwanted]
  cases hes : s.entries.filter fun e => !e.id.lt start with
  | nil => simp
  | cons e es =>
  have hafter := after_start hs hes
  by_cases h0 : count = 0
  · subst h0
    have hone : (wrap64 (0 + 1)).toNat = 1 := rfl
    simp only [hone, Nat.zero_lt_one, if_true, lt_irrefl, if_false, take_succ_cons, take_zero, filter_cons, hafter,
      filter_nil, length_cons, forall_true_left]
    split_ifs <;> simp [eq_comm]
  have hpos : 0 < count := by omega
  refine iff_of_true ?_ fun h => absurd h h0
  simp only [if_pos hpos]
  by_cases hlast : count = 2 ^ 63 - 1
  · rw [hlast]
    rfl
  have hn : (wrap64 (count + 1)).toNat = count.toNat + 1 := by
    rw [wrap64_of_inInt64 (by unfold InInt64; omega)]
    omega
  rw [hn, if_pos (Nat.succ_pos _), take_succ_cons, filter_cons, filter_cons, hafter]
  have htake : (es.take count.toNat).filter (fun e => start.lt e.id) = es.take count.toNat :=
    filter_eq_self.2 fun e he => (filter_eq_self.1 hafter) e (mem_of_mem_take he)
  rw [htake]
  split_ifs
  · obtain ⟨n, hn⟩ : ∃ n, count.toNat = n + 1 := ⟨count.toNat - 1, by omega⟩
    rw [hn, take_succ_cons, take_succ_cons, take_take, Nat.min_eq_left (Nat.le_succ n)]
  · rw [take_take, Nat.min_self]

def twoEntries : Stream :=
  (newStream.appended ⟨1, 0⟩ [ascii "f", ascii "v"]).appended ⟨2, 0⟩ [ascii "f", ascii "v"]

lemma twoEntries_sorted : twoEntries.Sorted := by
  unfold Stream.Sorted Rising
  decide

theorem both_entries_read : xreadEntries 2 zeroID twoEntries = twoEntries.entries :=
  ((xread_selects_iff twoEntries twoEntries_sorted zeroID 2 (by decide) (by decide)).2
    (by decide)).trans (by decide)

/-- Without a count only the first of two entries is read. -/
theorem second_entry_not_read : twoEntries.entries.length = 2 ∧
    xreadEntries 0 zeroID twoEntries = twoEntries.entries.take 1 := by decide

/-! ## XRANGE -/

/-- The entries between two IDs as they are written; `none` if a text is no ID. -/
def rangeEntries (startStr endStr : Bytes) (count : Int) (reverse : Bool) (s : Stream) :
    Option (List StreamEntry) := do
  let startID ← parseID nowMs startStr zeroID
  let endID ← parseID nowMs endStr zeroID
  return s.rangeQuery startID endID count reverse

/-- The first ID of a millisecond. -/
def firstOfMs (ms : Nat) : StreamID := ⟨ofNat ms, 0⟩

/-- Both commands list the entries of the milliseconds from `a` to `b`. -/
def CoversMillis (a b : Nat) (s : Stream) : Prop :=
  let live := s.entries.filter fun e => a ≤ e.id.ms.toNat && e.id.ms.toNat ≤ b
  rangeEntries nowMs (formatNat a) (formatNat b) 0 false s = some live ∧
    rangeEntries nowMs (formatNat b) (formatNat a) 0 true s = some live.reverse

lemma parseID_millis (ha : a < 2 ^ 64) (nowMs : Nat) (last : StreamID) :
    parseID nowMs (formatNat a) last = some (firstOfMs a) := by
  have hne : ∀ b : UInt8, isDigit b = false → formatNat a ≠ [b] := by
    intro b hb he
    have hdigit := formatNat_isDigit a b (he ▸ mem_singleton_self b)
    rw [hb] at hdigit
    cases hdigit
  unfold parseID
  simp only [trimSpace_plain fun c hc => plain_of_isDigit (formatNat_isDigit a c hc)]
  have hdash : formatNat a ≠ ascii "-" := hne 45 rfl
  have hplus : formatNat a ≠ ascii "+" := hne 43 rfl
  have hstar : formatNat a ≠ ascii "*" := hne 42 rfl
  rw [if_neg hdash, if_neg hplus, if_neg hstar, split_none (formatNat_no_dash a)]
  simp [parseUint_formatNat ha, Option.map_some, firstOfMs]

lemma lt_millis_iff (ha : a < 2 ^ 64) (id : StreamID) : id.lt (firstOfMs a) = true ↔ id.ms.toNat < a := by
  have ha' : (ofNat a).toNat = a := toNat_ofNat_of_lt ha
  simp only [firstOfMs, StreamID.lt, Bool.or_eq_true, Bool.and_eq_true, decide_eq_true_eq, lt_iff_toNat_lt, ha']
  exact or_iff_left fun h => absurd h.2 (Nat.not_lt_zero _)

lemma millis_lt_iff (hb : b < 2 ^ 64) (id : StreamID) :
    (firstOfMs b).lt id = true ↔ b < id.ms.toNat ∨ (id.ms.toNat = b ∧ id.seq ≠ 0) := by
  have hb' : (UInt64.ofNat b).toNat = b := UInt64.toNat_ofNat_of_lt hb
  have hseq : id.seq ≠ 0 ↔ 0 < id.seq.toNat := by rw [ne_eq, ← UInt64.toNat_inj]; exact Nat.pos_iff_ne_zero.symm
  simp only [firstOfMs, StreamID.lt, Bool.or_eq_true, Bool.and_eq_true, decide_eq_true_eq, UInt64.lt_iff_toNat_lt,
    ← UInt64.toNat_inj, hb', hseq]
  exact or_congr_right (and_congr_left' eq_comm)

lemma map_eq_map_iff_of_sublist {α β : Type} {l l' : List α} (f : α → β) (h : l.Sublist l') :
    l.map f = l'.map f ↔ l = l' :=
  ⟨fun he => h.eq_of_length (by simpa using congrArg List.length he), congrArg _⟩

/-- A record of the milliseconds from `a` to `b`. -/
def inMillis (a b : Nat) (r : EntryRecord) : Prop := a ≤ r.id.ms.toNat ∧ r.id.ms.toNat ≤ b

instance (a b : Nat) (r : EntryRecord) : Decidable (inMillis a b r) := inferInstanceAs (Decidable (_ ∧ _))

lemma within_millis_iff (ha : a < 2 ^ 64) (hb : b < 2 ^ 64) (r : EntryRecord) :
    within (firstOfMs a) (firstOfMs b) r = true ↔
      r.deleted = false ∧ inMillis a b r ∧ (r.id.ms.toNat = b → r.id.seq = 0) := by
  simp only [within, found, Bool.and_eq_true, Bool.not_eq_true', ← Bool.not_eq_true, lt_millis_iff ha, millis_lt_iff hb,
    inMillis]
  by_cases hseq : r.id.seq = 0
  · simp [hseq]
  · simp [hseq]
    omega

lemma rangeEntries_millis (hs : s.Sorted) (ha : a < 2 ^ 64) (hb : b < 2 ^ 64) (nowMs : Nat) :
    rangeEntries nowMs (formatNat a) (formatNat b) 0 false s =
        some (((allIn s.chunks).filter (within (firstOfMs a) (firstOfMs b))).map s.unpackEntry) ∧
      rangeEntries nowMs (formatNat b) (formatNat a) 0 true s =
        some ((reverseRecords (firstOfMs b) (firstOfMs a) s.chunks).map s.unpackEntry) := by
  rw [rangeEntries, rangeEntries, parseID_millis ha, parseID_millis hb, ← rangeChunks_found hs]
  exact ⟨rfl, rfl⟩

/-- Incomplete IDs cover their milliseconds if no live entry of the last one has a sequence number, and no chunk that begins
after it, with an entry deleted since, holds an entry to list. -/
theorem incomplete_ids_cover_iff (s : Stream) (hs : s.Sorted) (nowMs a b : Nat) (hab : a ≤ b) (hb : b < 2 ^ 64) :
    CoversMillis nowMs a b s ↔ (∀ r ∈ s.records, r.id.ms.toNat = b → r.id.seq = 0) ∧ ∀ c ∈ s.chunks,
      (c.entries.head?).any (fun r => (firstOfMs b).lt r.id) = true → ∀ r ∈ c.active, ¬ inMillis a b r := by
  have ha := hab.trans_lt hb
  have hlive : (s.entries.filter fun e => a ≤ e.id.ms.toNat && e.id.ms.toNat ≤ b) =
      (s.records.filter fun r => inMillis a b r).map s.unpackEntry := by
    rw [Stream.entries_eq, filter_map]
    exact congrArg _ (filter_congr fun r _ => (Bool.decide_and ..).symm)
  have hwithin := within_millis_iff ha hb
  have hlisted : (allIn s.chunks).filter (within (firstOfMs a) (firstOfMs b)) =
      (s.records.filter fun r => inMillis a b r).filter fun r => r.id.ms.toNat = b → r.id.seq = 0 := by
    rw [Stream.records, activeIn_eq, filter_filter, filter_filter]
    refine filter_congr fun r _ => ?_
    rw [Bool.eq_iff_iff, hwithin]
    simp only [Bool.and_eq_true, decide_eq_true_eq, Bool.not_eq_true']
    tauto
  have hsub' : ((allIn s.chunks).filter (within (firstOfMs a) (firstOfMs b))).Sublist
      (s.records.filter fun r => inMillis a b r) := hlisted ▸ filter_sublist
  obtain ⟨hforward, hreverse⟩ := rangeEntries_millis hs ha hb nowMs
  obtain ⟨hsub, hiff⟩ := reverseRecords_found hs (firstOfMs a) (firstOfMs b)
  rw [CoversMillis, hlive, hforward, hreverse, Option.some.injEq, Option.some.injEq, ← map_reverse,
    map_eq_map_iff_of_sublist _ hsub', map_eq_map_iff_of_sublist _ (hsub.trans (reverse_sublist.2 hsub'))]
  have hall : (allIn s.chunks).filter (within (firstOfMs a) (firstOfMs b)) =
      (s.records.filter fun r => inMillis a b r) ↔ ∀ r ∈ s.records, r.id.ms.toNat = b → r.id.seq = 0 := by
    rw [hlisted, filter_eq_self]
    simp only [mem_filter, decide_eq_true_eq, and_imp]
    exact ⟨fun h r hr hms => h r hr ⟨hms ▸ hab, hms.le⟩ hms, fun h r hr _ => h r hr⟩
  constructor
  · rintro ⟨he, hr⟩
    rw [he] at hiff
    refine ⟨hall.1 he, fun c hc hhead r hr' hin => ?_⟩
    obtain ⟨hmem, hdel⟩ := mem_filter.1 hr'
    have hseq := hall.1 he r (mem_activeIn.2 ⟨mem_flatMap.2 ⟨c, hc, hmem⟩, by simpa using hdel⟩)
    exact filter_eq_nil_iff.1 (hiff.1 hr c hc hhead) r hmem ((hwithin r).2 ⟨by simpa using hdel, hin, hseq⟩)
  · rintro ⟨hseq, hchunks⟩
    have he := hall.2 hseq
    rw [he] at hiff
    refine ⟨he, hiff.2 fun c hc hhead => filter_eq_nil_iff.2 fun r hr hin => ?_⟩
    obtain ⟨hdel, hin, -⟩ := (hwithin r).1 hin
    exact hchunks c hc hhead r (mem_filter.2 ⟨hr, by simpa using hdel⟩) hin

/-- The entry with a sequence number is not listed. -/
theorem sequenced_entry_not_listed : ∃ s, newStream.addRaw ⟨5, 1⟩ [ascii "f", ascii "v"] 0 false = some s ∧
    s.entries.map StreamEntry.id = [⟨5, 1⟩] ∧ rangeEntries 0 (ascii "5") (ascii "5") 0 false s = some [] ∧
    rangeEntries 0 (ascii "5") (ascii "5") 0 true s = some [] :=
  ⟨_, rfl, by decide, by decide, by decide⟩

theorem two_milliseconds_covered : CoversMillis 0 1 2 twoEntries :=
  (incomplete_ids_cover_iff twoEntries twoEntries_sorted 0 1 2 (by decide) (by decide)).2 (by decide)

end Gopherdis.Command

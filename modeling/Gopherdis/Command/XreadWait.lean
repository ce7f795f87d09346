/-
`XREAD BLOCK 0` on one stream, against the additions and deletions of other clients. The reader fetches,
registers a waiter with the stream it found, gives up the operation lock, waits and fetches again; without a
stream it polls. So an addition goes unheard between the first fetch and the registration, and when the key has
come to hold another stream since. The invariant is that a reader who goes to sleep has nothing to read or a
wake-up pending; that it returns is shown with the number of steps it still has to take.
-/
import Gopherdis.Command.Xread
import Gopherdis.Lib.Fairness
import Gopherdis.Stream.Range

namespace Gopherdis.Command

open Lib Codec Store Gopherdis.Stream List StreamID

/-! ## The stream at the key -/

/-- A stream as additions leave it. -/
structure OrderedStream where
  stream : Stream
  wf : stream.WF
  sorted : stream.Sorted

def OrderedStream.new : OrderedStream := ⟨newStream, newStream_wf, newStream_sorted⟩

/-- `XADD` with `MINID`, once the entry is there. -/
def OrderedStream.trimBelow (s : OrderedStream) (minID : StreamID) : OrderedStream :=
  ⟨trimBelowMinID s.stream minID, s.wf.trimBelowMinID minID, s.sorted.trimBelowMinID minID⟩

/-- What `XADD` asks for once its arguments are read; it has a field at least. -/
structure Xadd where
  id : StreamID
  pairs : List Bytes
  maxLen : Int
  approx : Bool
  minID : Option StreamID
  nomkstream : Bool
  named : pairUp pairs ≠ []

variable {s s' : OrderedStream} {x : Xadd} {start : StreamID} {e : StreamEntry}

def OrderedStream.add (s : OrderedStream) (x : Xadd) : Option OrderedStream :=
  match h : s.stream.addRaw x.id x.pairs x.maxLen x.approx with
  | none => none
  | some s' =>
    let s' : OrderedStream := ⟨s', s.wf.addRaw x.named h, s.sorted.addRaw s.wf.tracked h⟩
    some (x.minID.elim s' s'.trimBelow)

lemma OrderedStream.add_records (h : s.add x = some s') :
    (∀ r ∈ s.stream.records, r.id.lt x.id = true) ∧ ∀ r ∈ s'.stream.records, r ∈ s.stream.records ∨ r.id = x.id := by
  unfold OrderedStream.add at h
  split at h
  · cases h
  rename_i s1 hraw
  cases h
  refine ⟨s.wf.tracked.lt_added hraw, fun r hr => s.wf.tracked.addRaw_records hraw ?_⟩
  cases hmin : x.minID with
  | none => rwa [hmin] at hr
  | some minID =>
    rw [hmin] at hr
    exact mem_of_mem_filter (trimBelowMinID_records minID (s.wf.addRaw x.named hraw).tracked
      (s.sorted.addRaw s.wf.tracked hraw) ▸ hr)

/-- A stream object, and whether the waiter of the reader is among its waiters. -/
structure StreamObject where
  content : OrderedStream
  waiting : Bool

/-! ## The reader and the other clients -/

/-- Where the reader is. From the registration on, it has a waiter or polls. -/
inductive XreadPhase where
  | start
  | fetched
  | registered (waiter : Bool)
  | parked (waiter : Bool)
  | woken (waiter : Bool)
  | done (entries : List StreamEntry)

/-- The object the key holds, where the reader is, and whether its wake channel is filled. -/
structure XreadState where
  key : Option StreamObject
  phase : XreadPhase
  wake : Bool

def XreadState.begin (s : OrderedStream) : XreadState := ⟨some ⟨s, false⟩, .start, false⟩

namespace XreadState

variable (w : XreadState)

def content : Option OrderedStream := w.key.map StreamObject.content

/-- What a fetch finds now. -/
def fetch (start : StreamID) (w : XreadState) : List StreamEntry :=
  (w.content.map fun s => xreadEntries 0 start s.stream).getD []

/-- A step of the reader; `none` where it has to wait or has returned. -/
def reader (start : StreamID) (w : XreadState) : Option XreadState :=
  match w.phase with
  | .start => some { w with phase := if w.fetch start = [] then .fetched else .done (w.fetch start) }
  | .fetched =>
    some { w with key := w.key.map fun o => { o with waiting := true }, phase := .registered w.key.isSome }
  | .registered waiter => some { w with phase := .parked waiter }
  -- the ticker of a reader without a waiter fires again and again
  | .parked false => some { w with phase := .woken false }
  | .parked true => if w.wake then some { w with phase := .woken true, wake := false } else none
  | .woken waiter =>
    if w.fetch start = [] then some { w with phase := .parked waiter }
    else some { w with key := w.key.map fun o => { o with waiting := false }, phase := .done (w.fetch start) }
  | .done _ => none

/-- The object `XADD` adds to. -/
def object : StreamObject := w.key.getD ⟨.new, false⟩

/-- An addition, with the notification of the waiters; a channel that is filled stays filled. -/
def xadd (x : Xadd) : XreadState :=
  if w.key.isNone ∧ x.nomkstream then w
  else
    match w.object.content.add x with
    | none => { w with key := some w.object }
    | some s => { w with key := some { w.object with content := s }, wake := w.wake || w.object.waiting }

end XreadState

inductive XreadAct where
  | reader
  | xadd (x : Xadd)
  | del
  | idle

variable {w w' : XreadState} {a : XreadAct}

def xreadStep (start : StreamID) (w : XreadState) : XreadAct → Option XreadState
  | .reader => w.reader start
  | .xadd x => some (w.xadd x)
  | .del => some { w with key := none }
  | .idle => some w

/-- The scheduler is fair to the reader. -/
abbrev XreadRun (start : StreamID) : Type := FairRun (xreadStep start) .reader

/-! ## The command behind it -/

lemma xreadQuery_block (now : Clock) (db : Keyspace) (key : Bytes) (start : StreamID) :
    (xreadQuery now [ascii "XREAD", ascii "BLOCK", ascii "0", ascii "STREAMS", key, start.format] db).2 =
      .ok ⟨0, 0, [(key, start)]⟩ := by
  have hopts : xreadOptions [ascii "BLOCK", ascii "0", ascii "STREAMS", key, start.format] 0 (-1) =
      .ok (0, 0, [key, start.format]) := rfl
  have hdollar : start.format ≠ ascii "$" := format_ne (by decide)
  simp [xreadQuery, hopts, xreadStarts, xreadStart, hdollar, parseID_format]

lemma xreadFetch_key (now : Clock) (db : Keyspace) (key : Bytes) (start : StreamID) (w : XreadState)
    (h : (streamAt now db key).2 = w.content.map OrderedStream.stream) : (xreadFetch now 0 [(key, start)] db).2 =
      if w.fetch start = [] then [] else [array [bulkString key, formatStreamEntries (w.fetch start)]] := by
  have hfetch : w.fetch start = ((streamAt now db key).2.map (xreadEntries 0 start)).getD [] := by
    rw [h, XreadState.fetch, Option.map_map]
    rfl
  rw [hfetch, xreadFetch]
  simp only [xreadFetch]
  split_ifs <;> rfl

/-! ## What is fetched -/

lemma xreadEntries_zero (start : StreamID) (s : OrderedStream) : xreadEntries 0 start s.stream =
      (((s.stream.records.filter fun r => !r.id.lt start).map s.stream.unpackEntry).take 1).filter
        fun e => start.lt e.id := by
  have hone : (wrap64 (0 + 1)).toNat = 1 := by decide
  simp only [xreadEntries, hone, Stream.range, rangeChunks_from s.sorted]
  rfl

lemma xreadEntries_nil (h : ∀ r ∈ s.stream.records, start.lt r.id = false) : xreadEntries 0 start s.stream = [] := by
  rw [xreadEntries_zero, filter_eq_nil_iff]
  intro e he
  obtain ⟨r, hr, rfl⟩ := mem_map.1 (mem_of_mem_take he)
  simpa [Stream.unpackEntry] using h r (mem_filter.1 hr).1

/-- The entry with this ID is the first one that a range from the start on can find. -/
def Next (start id : StreamID) (s : Stream) : Prop :=
  ∀ e ∈ s.entries, e.id ≠ start ∧ (start.lt e.id = true → e.id.lt id = false)

lemma StreamID.lt_of_not_lt_of_ne {a b : StreamID} (h : a.lt b = false) (hne : a ≠ b) : b.lt a = true := by
  obtain ⟨ams, aseq⟩ := a
  obtain ⟨bms, bseq⟩ := b
  simp only [lt, Bool.or_eq_true, Bool.and_eq_true, decide_eq_true_eq, Bool.or_eq_false_iff, ne_eq,
    Bool.and_eq_false_iff, decide_eq_false_iff_not, UInt64.lt_iff_toNat_lt, mk.injEq,
    ← UInt64.toNat_inj] at h hne ⊢
  omega

lemma xreadEntries_next (he : e ∈ s.stream.entries)
    (hnewer : start.lt e.id = true) (hnext : Next start e.id s.stream) : xreadEntries 0 start s.stream = [e] := by
  rw [Stream.entries_eq] at he
  obtain ⟨r, hr, rfl⟩ := mem_map.1 he
  have hmem : r ∈ s.stream.records.filter fun r => !r.id.lt start :=
    mem_filter.2 ⟨hr, by rw [show r.id.lt start = false from StreamID.lt_asymm hnewer]; rfl⟩
  rw [xreadEntries_zero]
  cases hfound : s.stream.records.filter fun r => !r.id.lt start with
  | nil => rw [hfound] at hmem; cases hmem
  | cons first rest =>
  -- a first record other than `r` would lie between the start and `r`
  have hfirst : first = r := by
    rw [hfound] at hmem
    rcases mem_cons.1 hmem with h | h
    · exact h.symm
    exfalso
    have hlt : first.id.lt r.id = true := by
      have hordered := s.wf.ordered.filter fun r => !r.id.lt start
      rw [hfound] at hordered
      exact (pairwise_cons.1 hordered).1 r h
    obtain ⟨hin, hge⟩ := mem_filter.1 (hfound ▸ mem_cons_self : first ∈ _)
    have hentry : s.stream.unpackEntry first ∈ s.stream.entries :=
      Stream.entries_eq _ ▸ mem_map_of_mem hin
    obtain ⟨hne, hbetween⟩ := hnext _ hentry
    have hafter : start.lt first.id = true := StreamID.lt_of_not_lt_of_ne (by simpa using hge) hne
    have hno : first.id.lt r.id = false := hbetween hafter
    rw [hno] at hlt
    cases hlt
  rw [hfirst]
  have hkeep : start.lt (s.stream.unpackEntry r).id = true := hnewer
  simp [hkeep]

/-! ## Additions -/

lemma xreadEntries_add_nil (hadd : s.add x = some s')
    (hid : start.lt x.id = false) : xreadEntries 0 start s'.stream = [] := by
  obtain ⟨hbelow, hrecords⟩ := OrderedStream.add_records hadd
  refine xreadEntries_nil fun r hr => ?_
  rcases hrecords r hr with hr | he
  · cases hlt : start.lt r.id with
    | false => rfl
    | true =>
      have := lt_of_lt_of_not_lt (hbelow r hr) (lt_asymm hlt)
      rw [hid] at this
      cases this
  · rw [he]; exact hid

lemma Next.add (hnext : Next start e.id s.stream) (he : e ∈ s.stream.entries) (hnewer : start.lt e.id = true)
    (hadd : s.add x = some s') : Next start e.id s'.stream := by
  obtain ⟨hbelow, hrecords⟩ := OrderedStream.add_records hadd
  have hlt : e.id.lt x.id = true := by
    rw [Stream.entries_eq] at he
    obtain ⟨r, hr, rfl⟩ := mem_map.1 he
    exact hbelow r hr
  intro e' he'
  rw [Stream.entries_eq] at he'
  obtain ⟨r, hr, rfl⟩ := mem_map.1 he'
  rcases hrecords r hr with hr | hid
  · exact hnext (s.stream.unpackEntry r) (Stream.entries_eq _ ▸ mem_map_of_mem hr)
  have hid' : (s'.stream.unpackEntry r).id = x.id := hid
  rw [hid']
  refine ⟨?_, fun _ => lt_asymm hlt⟩
  rintro rfl
  rw [lt_asymm hnewer] at hlt
  cases hlt

namespace XreadState

variable (start : StreamID) (w : XreadState)

lemma fetch_object :
    ({ w with key := some w.object } : XreadState).fetch start = w.fetch start := by
  unfold object fetch content
  cases w.key with
  | some o => rfl
  | none => exact xreadEntries_nil (by simp [OrderedStream.new, newStream, Stream.records])

/-- `XADD` stores its entry. -/
def Stores (x : Xadd) : Prop :=
  ¬ (w.key.isNone ∧ x.nomkstream) ∧ (w.object.content.add x).isSome

lemma xadd_cases (x : Xadd) :
    (¬ w.Stores x ∧ (w.xadd x).fetch start = w.fetch start ∧ (w.xadd x).wake = w.wake ∧
      (w.xadd x).phase = w.phase ∧ ∀ s, w.content = some s → (w.xadd x).content = some s) ∨
    w.Stores x ∧ ∃ s, w.object.content.add x = some s ∧
      w.xadd x = { w with key := some { w.object with content := s }, wake := w.wake || w.object.waiting } := by
  unfold xadd Stores
  by_cases hno : w.key.isNone ∧ x.nomkstream
  · rw [if_pos hno]
    exact .inl ⟨fun h => h.1 hno, rfl, rfl, rfl, fun _ h => h⟩
  rw [if_neg hno]
  cases hadd : w.object.content.add x with
  | none =>
    refine .inl ⟨by simp, fetch_object start w, rfl, rfl, fun s hs => ?_⟩
    obtain ⟨o, ho, rfl⟩ := Option.map_eq_some_iff.1 hs
    simp [content, object, ho]
  | some s => exact .inr ⟨⟨hno, rfl⟩, s, rfl, rfl⟩

/-! ## Sleeping readers -/

/-- The reader has fetched and an addition would not wake it: its waiter is not registered yet, or
not with the stream the key holds now, and no wake-up is pending. -/
def Deaf : Prop :=
  match w.phase with
  | .fetched => True
  | .registered true | .parked true => w.wake = false ∧ w.object.waiting = false
  | _ => False

/-- A reader on its way to sleep has nothing to read, or it will be woken. -/
def Told : Prop :=
  match w.phase with
  | .fetched => w.fetch start = []
  | .registered true | .parked true => w.wake = true ∨ w.fetch start = []
  | _ => True

end XreadState

/-- No entry after the start is stored while the reader is deaf. -/
def Heard (start : StreamID) (w : XreadState) (a : XreadAct) : Prop :=
  ∀ x, a = .xadd x → start.lt x.id = true → w.Stores x → ¬ w.Deaf

namespace XreadState

lemma Told.of_fetch_nil (h : w.fetch start = []) : w.Told start := by
  unfold Told
  split
  · exact h
  · exact .inr h
  · exact .inr h
  · trivial

lemma Told.congr (h : w.Told start) (hphase : w'.phase = w.phase)
    (hwake : w'.wake = w.wake) (hfetch : w'.fetch start = w.fetch start) : w'.Told start := by
  unfold Told at h ⊢
  rw [hphase, hwake, hfetch]
  exact h

lemma content_reader (hs : w.reader start = some w') : w'.content = w.content := by
  obtain ⟨key, phase, wake⟩ := w
  have hwaiting : ∀ b, (key.map fun o => { o with waiting := b }).map StreamObject.content =
      key.map StreamObject.content := fun b => by cases key <;> rfl
  match phase with
  | .start | .registered _ | .parked false => cases hs; rfl
  | .fetched => cases hs; exact hwaiting true
  | .parked true =>
    simp only [reader] at hs
    split_ifs at hs
    cases hs
    rfl
  | .woken _ =>
    simp only [reader] at hs
    split_ifs at hs <;> cases hs
    · rfl
    · exact hwaiting false
  | .done _ => cases hs

lemma fetch_reader (hs : w.reader start = some w') : w'.fetch start = w.fetch start := by
  rw [fetch, content_reader hs, fetch]

lemma told_reader (h : w.Told start) (hs : w.reader start = some w') : w'.Told start := by
  obtain ⟨key, phase, wake⟩ := w
  match phase with
  | .start =>
    cases hs
    by_cases hf : XreadState.fetch start ⟨key, .start, wake⟩ = []
    · exact .of_fetch_nil hf
    · simp only [if_neg hf]; trivial
  | .fetched =>
    -- there was nothing to read up to now, and registering adds nothing
    exact .of_fetch_nil ((fetch_reader hs).trans h)
  | .registered waiter =>
    cases hs
    cases waiter
    · trivial
    · exact h
  | .parked false => cases hs; trivial
  | .parked true =>
    simp only [reader] at hs
    split_ifs at hs
    cases hs
    trivial
  | .woken waiter =>
    simp only [reader] at hs
    split_ifs at hs with hf <;> cases hs
    · exact .of_fetch_nil hf
    · trivial
  | .done _ => cases hs

lemma told_xadd (h : w.Told start) (hheard : start.lt x.id = true → w.Stores x → ¬ w.Deaf) : (w.xadd x).Told start := by
  rcases w.xadd_cases start x with ⟨-, hfetch, hwake, hphase, -⟩ | ⟨hstores, s, hadd, hw⟩
  · exact h.congr hphase hwake hfetch
  cases hid : start.lt x.id with
  | false =>
    refine .of_fetch_nil ?_
    rw [hw]
    exact xreadEntries_add_nil hadd hid
  | true =>
  -- the reader is not deaf: it has yet to fetch, or a wake-up is pending now
  have hnot := hheard hid hstores
  have hpending : ∀ a b : Bool, ¬ (a = false ∧ b = false) → (a || b) = true := by decide
  rw [hw]
  obtain ⟨key, phase, wake⟩ := w
  match phase, hnot with
  | .fetched, hnot => exact absurd trivial hnot
  | .registered true, hnot => exact .inl (hpending _ _ hnot)
  | .parked true, hnot => exact .inl (hpending _ _ hnot)
  | .start, _ | .registered false, _ | .parked false, _ | .woken _, _ | .done _, _ => trivial

lemma told_step (h : w.Told start) (hheard : Heard start w a) (hs : xreadStep start w a = some w') : w'.Told start := by
  cases a with
  | reader => exact told_reader h hs
  | xadd x => cases hs; exact told_xadd h (hheard x rfl)
  | del => cases hs; exact .of_fetch_nil rfl
  | idle => cases hs; exact h

/-! ## The reader returns -/

def Holds (w : XreadState) (e : StreamEntry) : Prop := ∃ s, w.content = some s ∧ e ∈ s.stream.entries

/-- The key holds the entry, and as the next one to be read. -/
def Ready (start : StreamID) (e : StreamEntry) (w : XreadState) : Prop :=
  ∃ s, w.content = some s ∧ e ∈ s.stream.entries ∧ Next start e.id s.stream

/-- The reader has not returned. -/
def Open (w : XreadState) : Prop := ∀ es, w.phase ≠ .done es

lemma Ready.fetch (h : w.Ready start e) (hnewer : start.lt e.id = true) : w.fetch start = [e] := by
  obtain ⟨s, hs, he, hnext⟩ := h
  rw [XreadState.fetch, hs]
  exact xreadEntries_next he hnewer hnext

lemma Ready.step (h : w.Ready start e)
    (hnewer : start.lt e.id = true) (hs : xreadStep start w a = some w') (hholds : w'.Holds e) : w'.Ready start e := by
  obtain ⟨s, hc, he, hnext⟩ := h
  cases a with
  | reader => exact ⟨s, (content_reader hs).trans hc, he, hnext⟩
  | xadd x =>
    cases hs
    obtain ⟨s', hc', he'⟩ := hholds
    refine ⟨s', hc', he', ?_⟩
    rcases w.xadd_cases start x with ⟨-, -, -, -, hsame⟩ | ⟨-, s'', hadd, hw⟩
    · rw [hsame s hc] at hc'
      cases hc'
      exact hnext
    -- the key holds a stream, so the addition goes to that one
    obtain ⟨o, ho, rfl⟩ := Option.map_eq_some_iff.1 hc
    have hobject : w.object = o := by rw [object, ho]; rfl
    rw [hw] at hc'
    cases hc'
    rw [hobject] at hadd
    exact hnext.add he hnewer hadd
  | del =>
    -- a deletion would have removed the entry
    cases hs
    obtain ⟨_, hc', -⟩ := hholds
    cases hc'
  | idle => cases hs; exact ⟨s, hc, he, hnext⟩

end XreadState

/-- The steps the reader has to take until it returns, once there is something to read. -/
def XreadPhase.rank : XreadPhase → ℕ
  | .fetched => 4
  | .registered _ => 3
  | .parked _ => 2
  | .start | .woken _ => 1
  | .done _ => 0

namespace XreadState

lemma phase_of_ne_reader (ha : a ≠ .reader) (hs : xreadStep start w a = some w') : w'.phase = w.phase := by
  cases a with
  | reader => exact absurd rfl ha
  | xadd x =>
    cases hs
    rcases w.xadd_cases start x with ⟨-, -, -, hphase, -⟩ | ⟨-, _, -, hw⟩
    · exact hphase
    · rw [hw]
  | del | idle => cases hs; rfl

lemma reader_progress (hfetch : w.fetch start = [e]) (htold : w.Told start) (hopen : w.Open) :
    ∃ w', w.reader start = some w' ∧ (w'.phase = .done [e] ∨ w'.Open ∧ w'.phase.rank < w.phase.rank) := by
  have hne : w.fetch start ≠ [] := by rw [hfetch]; exact cons_ne_nil _ _
  obtain ⟨key, phase, wake⟩ := w
  match phase with
  | .start =>
    refine ⟨_, rfl, .inl ?_⟩
    rw [if_neg hne, hfetch]
  -- whoever is past the first fetch with something to read has been told
  | .fetched => exact absurd htold hne
  | .registered waiter => exact ⟨_, rfl, .inr ⟨nofun, Nat.lt_succ_self _⟩⟩
  | .parked false => exact ⟨_, rfl, .inr ⟨nofun, Nat.lt_succ_self _⟩⟩
  | .parked true =>
    obtain rfl : wake = true := htold.resolve_right hne
    exact ⟨_, rfl, .inr ⟨nofun, Nat.lt_succ_self _⟩⟩
  | .woken waiter =>
    have hs : reader start ⟨key, .woken waiter, wake⟩ = some _ := if_neg hne
    exact ⟨_, hs, .inl (congrArg XreadPhase.done hfetch)⟩
  | .done es => exact absurd rfl (hopen es)

end XreadState

/-- No wake-up is lost: in every run fair to the reader, whatever the other clients do, an entry that
comes next after the start while the reader has not returned, and that is never removed, is returned,
provided no addition is made while the reader is deaf. -/
theorem xread_block_returns {start : StreamID} {s₀ : OrderedStream} {e : StreamEntry} {t : ℕ} (r : XreadRun start)
    (hbegin : r.state 0 = .begin s₀) (hheard : ∀ n, Heard start (r.state n) (r.act n))
    (hnewer : start.lt e.id = true) (hholds : ∀ n ≥ t, (r.state n).Holds e) (hopen : (r.state t).Open)
    (hnext : ∀ s, (r.state t).content = some s → Next start e.id s.stream) :
    ∃ n es, (r.state n).phase = .done es ∧ e ∈ es := by
  have htold : ∀ n ≥ 0, (r.state n).Told start :=
    r.inv (hbegin ▸ trivial) fun n _ h => XreadState.told_step h (hheard n) (r.next n)
  have hready : (r.state t).Ready start e := by
    obtain ⟨s, hs, he⟩ := hholds t le_rfl
    exact ⟨s, hs, he, hnext s hs⟩
  have hprogress : ∀ n, (r.state n).Open ∧ (r.state n).Ready start e →
      ∃ w', (r.state n).reader start = some w' ∧
        (w'.phase = .done [e] ∨ w'.Open ∧ w'.phase.rank < (r.state n).phase.rank) := fun n h =>
    XreadState.reader_progress (h.2.fetch hnewer) (htold n n.zero_le) h.1
  obtain ⟨n, -, es, hdone, he⟩ := r.eventually (I := fun w => w.Open ∧ w.Ready start e)
    (Q := fun w => ∃ es, w.phase = .done es ∧ e ∈ es) (fun w => w.phase.rank) ⟨hopen, hready⟩
    (fun n _ h => by
      obtain ⟨w', hw', -⟩ := hprogress n h
      exact Option.isSome_iff_exists.2 ⟨w', hw'⟩)
    (fun n hn h => by
      -- a step of the reader lowers the rank, those of the others leave its phase alone
      have hready' := h.2.step hnewer (r.next n) (hholds (n + 1) (Nat.le_succ_of_le hn))
      by_cases hact : r.act n = .reader
      · obtain ⟨w', hw', hstep⟩ := hprogress n h
        have hs := r.next n
        rw [hact] at hs
        obtain rfl : w' = r.state (n + 1) := Option.some.inj (hw'.symm.trans hs)
        rcases hstep with hdone | ⟨hopen', hlt⟩
        · exact .inl ⟨[e], hdone, mem_singleton_self e⟩
        · exact .inr ⟨⟨hopen', hready'⟩, hlt.le, fun _ => hlt⟩
      · have hphase := XreadState.phase_of_ne_reader hact (r.next n)
        refine .inr ⟨⟨fun es => ?_, hready'⟩, (congrArg XreadPhase.rank hphase).le, fun h => absurd h hact⟩
        rw [hphase]
        exact h.1 es)
  exact ⟨n, es, hdone, he⟩

/-! ## Runs -/

def entryAt (ms : UInt64) : StreamEntry := ⟨⟨ms, 0⟩, [ascii "f"], [ascii "v"]⟩

def xaddAt (ms : UInt64) : Xadd := ⟨⟨ms, 0⟩, (entryAt ms).pairs, 0, false, none, false, cons_ne_nil _ _⟩

def oneEntry : OrderedStream := (OrderedStream.new.add (xaddAt 1)).getD .new

/-- The reader sleeps when 3-0 is added. -/
def heardRun : XreadRun ⟨2, 0⟩ :=
  .resting (.begin oneEntry) [.reader, .reader, .reader, .xadd (xaddAt 3), .reader, .reader] .idle rfl rfl rfl

theorem addition_wakes_sleeper : ∃ n es, (heardRun.state n).phase = .done es ∧ entryAt 3 ∈ es := by
  refine xread_block_returns (t := 4) heardRun rfl ?_ rfl ?_ nofun ?_
  · intro n x hx
    match n with
    | 3 => exact fun _ _ hdeaf => Bool.noConfusion hdeaf.2
    | 0 | 1 | 2 | 4 | 5 | n + 6 => cases hx
  · intro n hn
    obtain ⟨k, rfl⟩ := Nat.exists_eq_add_of_le' hn
    match k with
    | 0 | 1 | k + 2 => exact ⟨_, rfl, by decide⟩
  · intro s hs
    cases hs
    show ∀ e ∈ _, _
    decide

/-- The key holds the entry for ever from some time on, and the reader never returns. -/
def Missed {start : StreamID} (r : XreadRun start) (e : StreamEntry) : Prop :=
  start.lt e.id = true ∧ (∃ t, ∀ n ≥ t, (r.state n).Holds e) ∧ ∀ n, (r.state n).Open

/-- 3-0 is added after the first fetch and before the registration. -/
def unregisteredRun : XreadRun ⟨2, 0⟩ :=
  .resting (.begin oneEntry) [.reader, .xadd (xaddAt 3), .reader, .reader] .idle rfl rfl rfl

/-- The stream is deleted under the sleeping reader and 3-0 added to the one made in its place. -/
def replacedRun : XreadRun ⟨2, 0⟩ :=
  .resting (.begin oneEntry) [.reader, .reader, .reader, .del, .xadd (xaddAt 3)] .idle rfl rfl rfl

/-- The stream holds the start itself: the reader is woken and finds only that. -/
def ownStartRun : XreadRun ⟨1, 0⟩ :=
  .resting (.begin oneEntry) [.reader, .reader, .reader, .xadd (xaddAt 3), .reader, .reader] .idle rfl rfl rfl

theorem xread_block_misses :
    Missed unregisteredRun (entryAt 3) ∧ Missed replacedRun (entryAt 3) ∧ Missed ownStartRun (entryAt 3) := by
  refine ⟨⟨rfl, ⟨4, fun n hn => ?_⟩, fun n => ?_⟩, ⟨rfl, ⟨5, fun n hn => ?_⟩, fun n => ?_⟩,
    ⟨rfl, ⟨6, fun n hn => ?_⟩, fun n => ?_⟩⟩
  · obtain ⟨k, rfl⟩ := Nat.exists_eq_add_of_le' hn
    exact ⟨_, rfl, by decide⟩
  · match n with
    | 0 | 1 | 2 | 3 | n + 4 => exact nofun
  · obtain ⟨k, rfl⟩ := Nat.exists_eq_add_of_le' hn
    exact ⟨_, rfl, by decide⟩
  · match n with
    | 0 | 1 | 2 | 3 | 4 | n + 5 => exact nofun
  · obtain ⟨k, rfl⟩ := Nat.exists_eq_add_of_le' hn
    exact ⟨_, rfl, by decide⟩
  · match n with
    | 0 | 1 | 2 | 3 | 4 | 5 | n + 6 => exact nofun

end Gopherdis.Command

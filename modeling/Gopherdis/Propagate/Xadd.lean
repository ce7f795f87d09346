/-
Replaying `XADD`. The command is propagated as it was given, so the replay makes the ID anew: it is
the same ID unless it is made from the clock, and then only if both clocks give the same. A `MINID` made from
the clock trims differently if an entry lies between the two limits.
-/
import Gopherdis.Command.Collections
import Gopherdis.Stream.Range

namespace Gopherdis.Command

open Lib Codec Object Store Gopherdis.Stream Option

variable {now : Clock} {o : XaddOpts} {e idStr : Bytes} {db : Keyspace} {argv : Argv} {fieldsRaw : List Bytes}
  {s : Stream} {id : StreamID}

def streamView (db : Keyspace) (key : Bytes) : Option (List StreamEntry × StreamID) :=
  ((db.lookup key).bind fun e => streamOf e.val).map shown

/-- The stream an `XADD` finds at `now`, a new one if it may make one. -/
def streamFound (db : Keyspace) (now : Clock) (key : Bytes) (nomkstream : Bool) : Option Stream :=
  match (db.get now key).2 with
  | none => if nomkstream then none else some newStream
  | some v => streamOf v

lemma StreamID.format_injective : Function.Injective StreamID.format := by
  intro a b h
  have := parseID_format a 0 zeroID
  rw [h, parseID_format] at this
  exact (some.inj this).symm

lemma bulkString_format_inj {a b : StreamID} (h : bulkString a.format = bulkString b.format) : a = b :=
  StreamID.format_injective (encodeBulk_injective h)

/-! ## One command -/

lemma xaddLimit_error {isMinID : Bool} {arg : Bytes}
    (h : xaddLimit now isMinID o arg = .error e) : succeeded e = false := by
  unfold xaddLimit at h
  split_ifs at h <;> split at h <;> cases h <;> rfl

lemma xaddOptions_error {ws : List Bytes} (h : xaddOptions now ws o = .error e) : succeeded e = false := by
  fun_induction xaddOptions now ws o
  case case1 | case9 => cases h
  case case3 | case4 => cases h; rfl
  case case5 hl | case7 hl => cases h; exact xaddLimit_error hl
  case case2 ih | case6 ih | case8 ih => exact ih h

/-- The text of the `MINID` that counts, the last one. -/
def minIDText : List Bytes → Option Bytes → Option Bytes
  | [], text => text
  | word :: rest, text =>
    let opt := toUpper word
    if opt = ascii "NOMKSTREAM" then minIDText rest text
    else if opt = ascii "MAXLEN" ∨ opt = ascii "MINID" then
      match rest with
      | [] => text
      | arg :: rest =>
      if arg = ascii "=" ∨ arg = ascii "~" then
        match rest with
        | [] => text
        | arg' :: rest => minIDText rest (if opt = ascii "MINID" then some arg' else text)
      else minIDText rest (if opt = ascii "MINID" then some arg else text)
    else text

def minIDOf (argv : Argv) : Option Bytes := minIDText (argv.drop 2) none

/-- The options as they are read at a clock. -/
def XaddOpts.at (o : XaddOpts) (now : Clock) (text : Option Bytes) : XaddOpts :=
  { o with minID := text.bind fun t => parseID now.ms t zeroID }

section
variable {now' : Clock} {text : Option Bytes} {o1 : XaddOpts}

lemma xaddLimit_then {isMinID : Prop} [Decidable isMinID] {arg : Bytes} {rest ws : List Bytes} {text' : Option Bytes}
    (ih : ∀ {o : XaddOpts}, xaddOptions now ws (o.at now (if isMinID then some arg else text)) = .ok (o1, rest) →
      ∃ o2 : XaddOpts, o1 = o2.at now text' ∧
        xaddOptions now' ws (o.at now' (if isMinID then some arg else text)) = .ok (o2.at now' text', rest))
    (h : (match xaddLimit now isMinID (o.at now text) arg with
      | .error e => Except.error e
      | .ok o => xaddOptions now ws o) = .ok (o1, rest)) :
    ∃ o2 : XaddOpts, o1 = o2.at now text' ∧
      (match xaddLimit now' isMinID (o.at now' text) arg with
      | .error e => Except.error e
      | .ok o => xaddOptions now' ws o) = .ok (o2.at now' text', rest) := by
  unfold xaddLimit at h ⊢
  by_cases hmin : isMinID
  · simp only [decide_eq_true hmin, if_true, if_pos hmin] at h ih ⊢
    cases hid : parseID now.ms arg zeroID with
    | none => rw [hid] at h; cases h
    | some id =>
      obtain ⟨id', hid'⟩ : ∃ id', parseID now'.ms arg zeroID = some id' := by
        cases hauto : isAuto arg with
        | false => exact ⟨id, parseID_of_not_auto hauto now.ms now'.ms zeroID ▸ hid⟩
        | true => exact ⟨_, parseID_of_auto hauto now'.ms zeroID⟩
      rw [hid] at h
      rw [hid']
      simpa [XaddOpts.at, hid'] using ih (o := o) (by simpa [XaddOpts.at, hid] using h)
  · simp only [decide_eq_false hmin, Bool.false_eq_true, if_false, if_neg hmin] at h ih ⊢
    cases hn : parseInt arg with
    | none => rw [hn] at h; cases h
    | some lim =>
      rw [hn] at h
      exact ih (o := { o with maxLen := lim }) h

variable (now' text) in
lemma xaddOptions_at {ws rest : List Bytes} (h : xaddOptions now ws (o.at now text) = .ok (o1, rest)) :
    ∃ o2 : XaddOpts, o1 = o2.at now (minIDText ws text) ∧
      xaddOptions now' ws (o.at now' text) = .ok (o2.at now' (minIDText ws text), rest) := by
  fun_induction minIDText ws text generalizing o
  all_goals unfold xaddOptions at h ⊢
  case case1 => cases h; exact ⟨o, rfl, rfl⟩
  case case2 hopt ih =>
    rw [if_pos hopt] at h ⊢
    exact ih (o := { o with nomkstream := true }) h
  case case3 hn hopt =>
    rw [if_neg hn, if_pos hopt] at h
    cases h
  case case4 hn hopt arg harg =>
    rw [if_neg hn, if_pos hopt] at h
    simp only [if_pos harg] at h
    cases h
  case case5 hn hopt arg harg arg' rest' ih =>
    rw [if_neg hn, if_pos hopt] at h ⊢
    simp only [if_pos harg] at h ⊢
    exact xaddLimit_then (o := { o with approx := o.approx || arg = ascii "~" }) ih h
  case case6 hn hopt arg rest' harg ih =>
    rw [if_neg hn, if_pos hopt] at h ⊢
    simp only [if_neg harg] at h ⊢
    exact xaddLimit_then ih h
  case case7 hn hopt =>
    rw [if_neg hn, if_neg hopt] at h ⊢
    cases h
    exact ⟨o, rfl, rfl⟩

end

lemma error_ne_bulkString {b : Bytes} (he : succeeded e = false) : e ≠ bulkString b := by
  rintro rfl
  cases he

/-- The arguments of an `XADD` as they are read at `now`, with the stream it finds. -/
structure XaddReads (db : Keyspace) (now : Clock) (argv : Argv) (o : XaddOpts) (idStr : Bytes)
    (fieldsRaw : List Bytes) (s : Stream) : Prop where
  options : xaddOptions now (argv.drop 2) {} = .ok (o, idStr :: fieldsRaw)
  fields : ¬ (fieldsRaw = [] ∨ fieldsRaw.length % 2 ≠ 0)
  found : streamFound db now (argv.getD 1 []) o.nomkstream = some s

lemma XaddReads.command {ctx : Context} {db : Keyspace} {argv : Argv} {o : XaddOpts} {idStr : Bytes}
    {fieldsRaw : List Bytes} {s : Stream} (h : XaddReads db ctx.now argv o idStr fieldsRaw s) :
    ∃ db0, xaddCommand ctx argv db = xaddTo ctx.now o (argv.getD 1 []) idStr fieldsRaw db0 s := by
  have hfound := h.found
  unfold streamFound at hfound
  rcases hget : db.get ctx.now (argv.getD 1 []) with ⟨db', _ | v⟩
  · rw [hget] at hfound
    split_ifs at hfound with hmk
    obtain rfl := some.inj hfound
    refine ⟨db'.set (argv.getD 1 []) (.stream newStream), ?_⟩
    unfold xaddCommand
    simp only [h.options, if_neg h.fields, hget, if_neg hmk]
  rw [hget] at hfound
  cases v with
  | stream s' =>
    obtain rfl := some.inj hfound
    refine ⟨db', ?_⟩
    unfold xaddCommand
    simp only [h.options, if_neg h.fields, hget]
  | _ => cases hfound

lemma xaddCommand_reads {ctx : Context} {b : Bytes} (h : (xaddCommand ctx argv db).reply = bulkString b) :
    ∃ o idStr fieldsRaw s, XaddReads db ctx.now argv o idStr fieldsRaw s := by
  unfold xaddCommand at h
  rcases hopt : xaddOptions ctx.now (argv.drop 2) {} with e | ⟨o, _ | ⟨idStr, fieldsRaw⟩⟩
  · rw [hopt] at h
    exact absurd h (error_ne_bulkString (xaddOptions_error hopt))
  · rw [hopt] at h
    exact absurd h (error_ne_bulkString rfl)
  rw [hopt] at h
  simp only at h
  by_cases hf : fieldsRaw = [] ∨ fieldsRaw.length % 2 ≠ 0
  · rw [if_pos hf] at h
    exact absurd h (error_ne_bulkString rfl)
  rw [if_neg hf] at h
  rcases hget : db.get ctx.now (argv.getD 1 []) with ⟨db', _ | v⟩
  · rw [hget] at h
    split_ifs at h with hmk
    · exact absurd h.symm (bulkString_ne_null _)
    · exact ⟨o, idStr, fieldsRaw, newStream, hopt, hf, by simp only [streamFound, hget, if_neg hmk]⟩
  rw [hget] at h
  cases v with
  | stream s => exact ⟨o, idStr, fieldsRaw, s, hopt, hf, by simp only [streamFound, hget, streamOf]⟩
  | _ => exact absurd h (error_ne_bulkString rfl)

lemma xaddTo_reply_iff {key : Bytes} : (xaddTo now o key idStr fieldsRaw db s).reply = bulkString id.format ↔
      parseID now.ms idStr s.lastID = some id ∧ ∃ r, xaddStream o id fieldsRaw s = some r := by
  unfold xaddTo
  rcases hid : parseID now.ms idStr s.lastID with _ | id'
  · exact ⟨fun h => absurd h (error_ne_bulkString rfl), fun h => by cases h.1⟩
  simp only
  rcases hr : xaddStream o id' fieldsRaw s with _ | r
  · refine ⟨fun h => absurd h (error_ne_bulkString rfl), ?_⟩
    rintro ⟨hid', r, hr'⟩
    rw [← some.inj hid', hr] at hr'
    cases hr'
  · refine ⟨fun h => ?_, fun h => by rw [some.inj h.1]⟩
    obtain rfl := bulkString_format_inj h
    exact ⟨rfl, r, hr⟩

lemma xaddTo_view {key : Bytes} {r : Stream} (hid : parseID now.ms idStr s.lastID = some id)
    (hr : xaddStream o id fieldsRaw s = some r) :
    streamView (xaddTo now o key idStr fieldsRaw db s).db key = some (shown r) := by
  simp only [xaddTo, hid, hr, streamView, Keyspace.setKeepTTL, Finmap.lookup_insert]
  rfl

lemma xaddCommand_override (ctx : Context) (argv : Argv) (db : Keyspace) :
    (xaddCommand ctx argv db).override = none := by
  unfold xaddCommand xaddTo
  simp only
  repeat' split
  all_goals rfl

/-! ## What is left of the stream -/

/-- The IDs in the stream once the entry is added and `MAXLEN` is met. -/
def leftIDs (o : XaddOpts) (id : StreamID) (fieldsRaw : List Bytes) (s : Stream) : List StreamID :=
  let stored := if totalBytes ((pairUp fieldsRaw).map Prod.snd) ≤ chunkArenaSize then [id] else []
  (s.entries.map StreamEntry.id ++ stored).drop (if 0 < o.maxLen then (s.length + 1 - o.maxLen).toNat else 0)

lemma addRaw_leftIDs (h : s.Tracked) {r : Stream} (hadd : s.addRaw id fieldsRaw o.maxLen o.approx = some r) :
    r.records.map EntryRecord.id = leftIDs o id fieldsRaw s := by
  have happended : (s.appended id fieldsRaw).records.map EntryRecord.id = s.entries.map StreamEntry.id ++
      if totalBytes ((pairUp fieldsRaw).map Prod.snd) ≤ chunkArenaSize then [id] else [] := by
    rw [Stream.appended_records, Stream.entries_eq, List.map_append, List.map_map]
    split_ifs <;> rfl
  have hspec := ((h.appended fieldsRaw (h.lt_added hadd)).trimInternal_spec o.maxLen o.approx).1
  rw [Stream.addRaw_eq] at hadd
  rw [leftIDs, ← happended, ← List.map_drop]
  split_ifs at hadd with _ htrim <;> obtain rfl := some.inj hadd
  · rw [hspec, if_pos htrim.1]
    rfl
  · split_ifs with hpos
    · rw [show (s.length + 1 - o.maxLen).toNat = 0 by omega, List.drop_zero]
    · rw [List.drop_zero]

section
variable {r : Stream} (h : r.Tracked) (hs : r.Sorted)
include h hs

lemma shown_trimmed (m : Option StreamID) : shown (m.elim r (trimBelowMinID r)) =
    ((r.records.filter fun e => !m.any e.id.lt).map r.unpackEntry, r.lastID) := by
  cases m with
  | none => simp [shown, Stream.entries_eq]
  | some minID =>
    obtain ⟨hfields, hlast⟩ := fields_trimBelowMinID r minID
    have hunpack : (trimBelowMinID r minID).unpackEntry = r.unpackEntry := by
      funext e
      simp only [Stream.unpackEntry, hfields]
    simp only [Option.elim_some, shown, Stream.entries_eq, hunpack, trimBelowMinID_records minID h hs, hlast,
      Option.any_some]

lemma shown_trimmed_iff (m m' : Option StreamID) :
    shown (m'.elim r (trimBelowMinID r)) = shown (m.elim r (trimBelowMinID r)) ↔
      ∀ i ∈ r.records.map EntryRecord.id, m.any i.lt = m'.any i.lt := by
  have hnodup : (r.records.map EntryRecord.id).Nodup :=
    List.pairwise_map.2 (h.ordered.imp fun hlt he => by rw [he, StreamID.lt_irrefl] at hlt; cases hlt)
  -- an entry is shown if its own ID is not below the limit
  have hshown : ∀ (m : Option StreamID), ∀ e ∈ r.records,
      e.id ∈ (shown (m.elim r (trimBelowMinID r))).1.map StreamEntry.id ↔ m.any e.id.lt = false := by
    intro m e he
    rw [shown_trimmed h hs, List.map_map, List.mem_map]
    constructor
    · rintro ⟨e', he', hid⟩
      obtain ⟨hmem, hkept⟩ := List.mem_filter.1 he'
      rw [← List.inj_on_of_nodup_map hnodup hmem he hid]
      simpa using hkept
    · exact fun hkept => ⟨e, List.mem_filter.2 ⟨he, by rw [hkept]; rfl⟩, rfl⟩
  rw [List.forall_mem_map]
  constructor
  · intro hsame e he
    have hiff := (hshown m e he).symm.trans (hsame ▸ hshown m' e he)
    cases hm : m.any e.id.lt <;> cases hm' : m'.any e.id.lt <;> simp [hm, hm'] at hiff ⊢
  · intro hsame
    rw [shown_trimmed h hs, shown_trimmed h hs, List.filter_congr fun e he => by rw [← hsame e he]]

end

/-! ## The ID -/

lemma autoID_eq_iff (lastID : StreamID) (now now' : Clock) : autoID now'.ms lastID = autoID now.ms lastID ↔
    max now.ms lastID.ms.toNat = max now'.ms lastID.ms.toNat := by
  have hms : ∀ now : Clock, (autoID now.ms lastID).ms.toNat = max now.ms lastID.ms.toNat := by
    intro now
    have hlt : now.ms < 2 ^ 62 := Nat.div_lt_of_lt_mul (Nat.mul_comm .. ▸ now.bound)
    have hnat : (UInt64.ofNat now.ms).toNat = now.ms := UInt64.toNat_ofNat_of_lt' (hlt.trans (by decide))
    simp only [autoID, UInt64.lt_iff_toNat_lt, hnat]
    split_ifs <;> omega
  rw [← hms, ← hms, UInt64.toNat_inj]
  refine ⟨fun h => by rw [h], fun h => ?_⟩
  have hseq : ∀ now : Clock, autoID now.ms lastID =
      ⟨(autoID now.ms lastID).ms, nextSeq (autoID now.ms lastID).ms lastID⟩ := fun _ => rfl
  rw [hseq now, hseq now', h]

lemma parseID_same_iff (now' : Clock) (hid : parseID now.ms idStr s.lastID = some id) :
    parseID now'.ms idStr s.lastID = some id ↔
      (isAuto idStr = true → max now.ms s.lastID.ms.toNat = max now'.ms s.lastID.ms.toNat) := by
  cases hauto : isAuto idStr with
  | false => exact ⟨fun _ => nofun, fun _ => parseID_of_not_auto hauto _ _ s.lastID ▸ hid⟩
  | true =>
    rw [parseID_of_auto hauto, some.injEq] at hid ⊢
    rw [← hid, autoID_eq_iff]
    exact ⟨fun h _ => h, fun h => h rfl⟩

/-! ## The replay -/

/-- The replay on `db` at `now` of the commands `fed` gives the same ID and the same stream as the call. -/
structure XaddReplayed (E : Env) (now : Clock) (db : Keyspace) (argv : Argv) (reply : Bytes) (s : Session) : Prop where
  fed : s.fed = [argv]
  sameID : (execute (replayContext E now) baseTable argv (.start db none)).1 = reply
  sameStream : streamView (replayAll E now baseTable db s.fed) (argv.getD 1 []) = streamView s.db (argv.getD 1 [])

/-- The clocks make no difference: the ID is not `*` or both are the same next to the last ID, and a `MINID *`
has none of the IDs that are left on its two sides. -/
structure SameClock (idStr : Bytes) (text : Option Bytes) (lastID : StreamID) (left : List StreamID)
    (now now' : Clock) : Prop where
  id : isAuto idStr = true → max now.ms lastID.ms.toNat = max now'.ms lastID.ms.toNat
  limit : text.any isAuto = true → ∀ i ∈ left, i.lt (autoID now.ms zeroID) = i.lt (autoID now'.ms zeroID)

lemma XaddReads.replay {db' : Keyspace} {now' : Clock} (h : XaddReads db now argv o idStr fieldsRaw s)
    (hsame : db'.live (argv.getD 1 []) now'.ms = db.live (argv.getD 1 []) now.ms) :
    ∃ o2 : XaddOpts, o = o2.at now (minIDOf argv) ∧
      XaddReads db' now' argv (o2.at now' (minIDOf argv)) idStr fieldsRaw s := by
  obtain ⟨o2, ho, hoptions⟩ := xaddOptions_at now' none (o := {}) h.options
  refine ⟨o2, ho, hoptions, h.fields, ?_⟩
  have hfound := h.found
  rw [ho] at hfound
  unfold streamFound at hfound ⊢
  rw [(get_spec ..).1] at hfound ⊢
  rw [hsame]
  exact hfound

/-- The limits that a text stands for at two clocks have the same of these IDs below them. -/
lemma limits_same_iff (text : Option Bytes) (left : List StreamID) (now now' : Clock) :
    (∀ i ∈ left, (text.bind fun t => parseID now.ms t zeroID).any i.lt =
        (text.bind fun t => parseID now'.ms t zeroID).any i.lt) ↔
      (text.any isAuto = true → ∀ i ∈ left, i.lt (autoID now.ms zeroID) = i.lt (autoID now'.ms zeroID)) := by
  cases text with
  | none => simp
  | some text =>
    cases hauto : isAuto text with
    | false => simp [hauto, parseID_of_not_auto hauto now.ms now'.ms zeroID]
    | true => simp [hauto, parseID_of_auto hauto]

/-- A stream with the entry 5-1. -/
def atFive : Stream := newStream.appended ⟨5, 1⟩ [ascii "f", ascii "v"]

def keptAtFive : Keyspace := Keyspace.set ∅ (ascii "s") (.stream atFive)

def xaddPartial : Argv := ["XADD", "s", "MAXLEN", "2", "MINID", "*", "5-*", "f", "v"].map ascii

def xaddStar : Argv := [ascii "XADD", ascii "s", ascii "*", ascii "f", ascii "v"]

end Gopherdis.Command

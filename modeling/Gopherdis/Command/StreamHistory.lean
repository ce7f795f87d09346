/-
The IDs of a stream over the life of its key, under `XADD`, `XDEL` and `XTRIM`. The check for a greater ID is
made only while the stream has entries, though the last ID is kept when they are gone. So a stream that has
been emptied takes any ID once more; otherwise the IDs rise, whatever is deleted and trimmed in between.
-/
import Gopherdis.Propagate.Xadd
import Gopherdis.Stream.Stored

namespace Gopherdis.Command

open Lib Codec Object Store Gopherdis.Stream List Option

/-! ## XDEL and XTRIM -/

variable (ctx : Context)

/-- Both reply by how much the stream has become shorter. -/
def shortenStream (key : Bytes) (shorten : Stream → Stream) (db : Keyspace) : Outcome :=
  match db.get ctx.now key with
  | (db, some (.stream s)) => ⟨db.setKeepTTL key (.stream (shorten s)), integer (s.length - (shorten s).length), none⟩
  | (db, some _) => ⟨db, wrongType, none⟩
  | (db, none) => ⟨db, integer 0, none⟩

variable (argv : Argv) (db : Keyspace)

/-- IDs that cannot be read are passed over. -/
def xdelCommand : Outcome :=
  let ids := (argv.drop 2).filterMap fun id => parseID ctx.now.ms id zeroID
  shortenStream ctx (argv.getD 1 []) (fun s => s.delete ids) db

def xtrimSyntax : Bytes := error (ascii "syntax error in XTRIM")

/-- The rest of `XTRIM`, with the argument of its option. -/
def xtrimTo (key : Bytes) (isMinID approx : Bool) (arg : Bytes) (db : Keyspace) : Outcome :=
  if isMinID then
    match parseID ctx.now.ms arg zeroID with
    | none => ⟨db, invalidIDFormat, none⟩
    | some minID => shortenStream ctx key (fun s => trimBelowMinID s minID) db
  else
    match parseInt arg with
    | none => ⟨db, notAnInteger, none⟩
    | some lim => shortenStream ctx key (fun s => s.trimInternal lim approx) db

def xtrimCommand : Outcome :=
  let opt := toUpper (argv.getD 2 [])
  let mark := argv.getD 3 []
  if opt ≠ ascii "MAXLEN" ∧ opt ≠ ascii "MINID" then ⟨db, xtrimSyntax, none⟩
  else
    match if mark = ascii "=" ∨ mark = ascii "~" then argv.drop 4 else argv.drop 3 with
    | [] => ⟨db, xtrimSyntax, none⟩
    | arg :: _ => xtrimTo ctx (argv.getD 1 []) (opt = ascii "MINID") (mark = ascii "~") arg db

/-! ## Calls on a key -/

inductive StreamVerb where
  | xadd
  | xdel
  | xtrim
deriving DecidableEq, Repr

def StreamVerb.handler : StreamVerb → Context → Argv → Keyspace → Outcome
  | .xadd => xaddCommand
  | .xdel => xdelCommand
  | .xtrim => xtrimCommand

structure StreamCall where
  verb : StreamVerb
  ctx : Context
  argv : Argv

namespace StreamCall

variable (c : StreamCall)

def key : Bytes := c.argv.getD 1 []

variable (db : Keyspace)

def run : Outcome := c.verb.handler c.ctx c.argv db

def step (c : StreamCall) : Option Keyspace := some (c.run db).db

/-- An `XADD` is answered with the ID of its entry. -/
def Accepts (id : StreamID) : Prop :=
  c.verb = .xadd ∧ (c.run db).reply = bulkString id.format

/-- The ID an `XADD` asks for, given the last one of the stream; none if its arguments cannot be read. -/
def askedID (lastID : StreamID) : Option StreamID :=
  match xaddOptions c.ctx.now (c.argv.drop 2) {} with
  | .ok (_, idStr :: fieldsRaw) =>
    if fieldsRaw = [] ∨ fieldsRaw.length % 2 ≠ 0 then none else parseID c.ctx.now.ms idStr lastID
  | _ => none

/-- An `XADD` to a stream that has been added to and emptied asks for an ID above its last one. -/
def Fresh (c : StreamCall) : Prop :=
  c.verb = .xadd → ∀ s, (db.lookup c.key).bind (fun e => streamOf e.val) = some s → s.fields ≠ [] → s.length ≤ 0 →
    ∀ id, c.askedID s.lastID = some id → s.lastID.lt id = true

/-- The IDs that calls are answered with. -/
inductive AcceptedIDs : Keyspace → List StreamCall → List StreamID → Prop
  | nil (db : Keyspace) : AcceptedIDs db [] []
  | accepted {db : Keyspace} {c : StreamCall} {cs : List StreamCall} {id : StreamID} {ids : List StreamID} :
    c.Accepts db id → AcceptedIDs (c.run db).db cs ids → AcceptedIDs db (c :: cs) (id :: ids)
  | other {db : Keyspace} {c : StreamCall} {cs : List StreamCall} {ids : List StreamID} :
    (∀ id, ¬ c.Accepts db id) → AcceptedIDs (c.run db).db cs ids → AcceptedIDs db (c :: cs) ids

end StreamCall

/-! ## What a call does to the stream -/

/-- The key holds a stream without a deadline, or nothing. -/
def HoldsStream (key : Bytes) (o : Option Stream) : Prop :=
  db.lookup key = o.map fun s => ⟨.stream s, 0⟩

/-- The last ID, once an entry has been added. -/
def lastAccepted (o : Option Stream) : Option StreamID := o.bind fun s => if s.fields = [] then none else some s.lastID

variable {db : Keyspace} {o : Option Stream} {key : Bytes}

lemma HoldsStream.get (h : HoldsStream db key o) (now : Clock) : db.get now key = (db, o.map Value.stream) := by
  have hexp : db.isExpired now key = false := by
    rw [Keyspace.isExpired, h]
    cases o <;> rfl
  rw [Keyspace.get, hexp, h, Option.map_map]
  rfl

lemma HoldsStream.setKeepTTL {s : Stream} (h : HoldsStream db key (some s))
    (s' : Stream) : HoldsStream (db.setKeepTTL key (.stream s')) key (some s') := by
  unfold HoldsStream at h ⊢
  simp [Keyspace.setKeepTTL, h]

lemma holds_shortenStream (h : HoldsStream db key o) (ctx : Context) {shorten : Stream → Stream}
    (hshorten : ∀ s, (shorten s).fields = s.fields ∧ (shorten s).lastID = s.lastID) :
    ∃ o', HoldsStream (shortenStream ctx key shorten db).db key o' ∧ lastAccepted o' = lastAccepted o := by
  unfold shortenStream
  rw [h.get]
  cases o with
  | none => exact ⟨none, h, rfl⟩
  | some s =>
    refine ⟨some (shorten s), h.setKeepTTL _, ?_⟩
    obtain ⟨hfields, hlast⟩ := hshorten s
    simp [lastAccepted, bind_some, hfields, hlast]

lemma holds_xtrimTo (h : HoldsStream db key o) (ctx : Context) (isMinID approx : Bool) (arg : Bytes) :
    ∃ o', HoldsStream (xtrimTo ctx key isMinID approx arg db).db key o' ∧ lastAccepted o' = lastAccepted o := by
  unfold xtrimTo
  cases isMinID with
  | true =>
    cases parseID ctx.now.ms arg zeroID with
    | none => exact ⟨o, h, rfl⟩
    | some minID => exact holds_shortenStream h ctx fun s => fields_trimBelowMinID s minID
  | false =>
    cases parseInt arg with
    | none => exact ⟨o, h, rfl⟩
    | some lim => exact holds_shortenStream h ctx fun _ => ⟨rfl, rfl⟩

lemma holds_xtrim (h : HoldsStream db (argv.getD 1 []) o) :
    ∃ o', HoldsStream (xtrimCommand ctx argv db).db (argv.getD 1 []) o' ∧ lastAccepted o' = lastAccepted o := by
  unfold xtrimCommand
  simp only
  generalize (if argv.getD 3 [] = ascii "=" ∨ argv.getD 3 [] = ascii "~" then argv.drop 4 else argv.drop 3) = rest
  split_ifs
  · exact ⟨o, h, rfl⟩
  cases rest with
  | nil => exact ⟨o, h, rfl⟩
  | cons arg _ => exact holds_xtrimTo h ctx _ _ arg

/-! ## Additions -/

variable {fieldsRaw : List Bytes}

lemma pairUp_ne_nil (h : ¬ (fieldsRaw = [] ∨ fieldsRaw.length % 2 ≠ 0)) : pairUp fieldsRaw ≠ [] := by
  rcases fieldsRaw with _ | ⟨name, _ | ⟨val, rest⟩⟩
  · exact absurd (.inl rfl) h
  · exact absurd (.inr (by simp)) h
  · exact cons_ne_nil _ _

lemma xaddStream_spec {o : XaddOpts} {id : StreamID} {s s' : Stream}
    (hf : ¬ (fieldsRaw = [] ∨ fieldsRaw.length % 2 ≠ 0)) (h : xaddStream o id fieldsRaw s = some s') :
    lastAccepted (some s') = some id ∧ (0 < s.length → s.lastID.lt id = true) := by
  obtain ⟨s1, hadd, rfl⟩ := map_eq_some_iff.1 h
  have hs1 : s1.fields ≠ [] ∧ s1.lastID = id := by
    have hnames : (s.appended id fieldsRaw).fields ≠ [] := by
      obtain ⟨p, ps, hp⟩ := exists_cons_of_ne_nil (pairUp_ne_nil hf)
      refine ne_nil_of_mem (@mem_internFields _ _ p.1 ?_)
      rw [hp]
      exact mem_cons_self
    obtain rfl | rfl := Stream.addRaw_cases hadd
    all_goals exact ⟨hnames, rfl⟩
  constructor
  · cases hmin : o.minID with
    | none => simp [lastAccepted, hs1.1, hs1.2]
    | some minID =>
      obtain ⟨hfields, hlast⟩ := fields_trimBelowMinID s1 minID
      simp [lastAccepted, hfields, hlast, hs1.1, hs1.2]
  · intro hpos
    by_contra hlt
    rw [Stream.addRaw_eq, if_pos ⟨hpos, hlt⟩] at hadd
    cases hadd

lemma xaddStream_none {o : XaddOpts} {id : StreamID} {s : Stream}
    (h : xaddStream o id fieldsRaw s = none) : 0 < s.length := by
  rw [xaddStream, map_eq_none_iff, Stream.addRaw_eq] at h
  by_contra hpos
  rw [if_neg fun hid => hpos hid.1] at h
  cases h

namespace StreamCall

/-- What came of a call: it was answered with an ID above the last one, or with the one it asked for on a
stream without entries; or it was not, and had not asked for one on a stream without entries. -/
inductive Ends (c : StreamCall) (db : Keyspace) (key : Bytes) (o : Option Stream) : Prop
  | accepted (id : StreamID) (o' : Option Stream) : c.Accepts db id → HoldsStream (c.run db).db key o' →
    lastAccepted o' = some id → c.askedID (o.getD newStream).lastID = some id →
    (∀ s, o = some s → 0 < s.length → s.lastID.lt id = true) → Ends c db key o
  | other (o' : Option Stream) : (∀ id, ¬ c.Accepts db id) → HoldsStream (c.run db).db key o' →
    lastAccepted o' = lastAccepted o →
    (c.verb = .xadd → ∀ s, o = some s → s.length ≤ 0 → c.askedID s.lastID = none) → Ends c db key o

variable {o : Option Stream} {db : Keyspace} {c : StreamCall} {key : Bytes}

lemma ends_of_not_xadd (hverb : c.verb ≠ .xadd)
    (h : ∃ o', HoldsStream (c.run db).db key o' ∧ lastAccepted o' = lastAccepted o) : c.Ends db key o := by
  obtain ⟨o', hholds, hlast⟩ := h
  exact .other o' (fun _ hacc => hverb hacc.1) hholds hlast fun he => absurd he hverb

lemma ends_xaddTo {db0 : Keyspace} {opts : XaddOpts} {idStr : Bytes} {fieldsRaw : List Bytes} (hverb : c.verb = .xadd)
    (hopts : xaddOptions c.ctx.now (c.argv.drop 2) {} = .ok (opts, idStr :: fieldsRaw))
    (hf : ¬ (fieldsRaw = [] ∨ fieldsRaw.length % 2 ≠ 0)) (hholds : HoldsStream db0 c.key (some (o.getD newStream)))
    (hrun : c.run db = xaddTo c.ctx.now opts c.key idStr fieldsRaw db0 (o.getD newStream)) : c.Ends db c.key o := by
  have hasked : ∀ lastID, c.askedID lastID = parseID c.ctx.now.ms idStr lastID := by
    intro lastID
    simp only [askedID, hopts, if_neg hf]
  have hnew : lastAccepted (some (o.getD newStream)) = lastAccepted o := by cases o <;> rfl
  cases hid : parseID c.ctx.now.ms idStr (o.getD newStream).lastID with
  | none =>
    have hto : c.run db = ⟨db0, invalidIDFormat, none⟩ := by rw [hrun, xaddTo, hid]
    refine .other (some (o.getD newStream)) ?_ (by rw [hto]; exact hholds) hnew ?_
    · rintro id ⟨-, hreply⟩
      rw [hto] at hreply
      exact error_ne_bulkString rfl hreply
    · rintro - s rfl -
      rw [hasked]
      exact hid
  | some id =>
  cases hr : xaddStream opts id fieldsRaw (o.getD newStream) with
  | none =>
    have hto : c.run db = ⟨db0, invalidStreamID, none⟩ := by rw [hrun, xaddTo, hid]; simp only [hr]
    refine .other (some (o.getD newStream)) ?_ (by rw [hto]; exact hholds) hnew ?_
    · rintro id' ⟨-, hreply⟩
      rw [hto] at hreply
      exact error_ne_bulkString rfl hreply
    · rintro - s rfl hle
      exact absurd (xaddStream_none hr) (not_lt.2 hle)
  | some s' =>
  have hto : c.run db = ⟨db0.setKeepTTL c.key (.stream s'), bulkString id.format, none⟩ := by
    rw [hrun, xaddTo, hid]
    simp only [hr]
  obtain ⟨hlast, hlt⟩ := xaddStream_spec hf hr
  refine .accepted id (some s') ⟨hverb, by rw [hto]⟩ (by rw [hto]; exact hholds.setKeepTTL s') hlast ?_ ?_
  · rw [hasked]
    exact hid
  · rintro s rfl hpos
    exact hlt hpos

lemma ends_run (c : StreamCall) (h : HoldsStream db c.key o) : c.Ends db c.key o := by
  cases hverb : c.verb with
  | xdel =>
    refine ends_of_not_xadd (by rw [hverb]; decide) ?_
    have hrun : c.run db = xdelCommand c.ctx c.argv db := by rw [run, hverb]; rfl
    rw [hrun]
    exact holds_shortenStream h c.ctx fun _ => ⟨rfl, rfl⟩
  | xtrim =>
    refine ends_of_not_xadd (by rw [hverb]; decide) ?_
    have hrun : c.run db = xtrimCommand c.ctx c.argv db := by rw [run, hverb]; rfl
    rw [hrun]
    exact holds_xtrim c.ctx c.argv h
  | xadd =>
  have hrun : c.run db = xaddCommand c.ctx c.argv db := by rw [run, hverb]; rfl
  -- arguments that cannot be read
  have hunread : ∀ e, succeeded e = false → c.run db = ⟨db, e, none⟩ → (∀ lastID, c.askedID lastID = none) →
      c.Ends db c.key o := by
    intro e he hto hnone
    refine .other o ?_ (by rw [hto]; exact h) rfl fun _ s _ _ => hnone s.lastID
    rintro id ⟨-, hreply⟩
    rw [hto] at hreply
    exact error_ne_bulkString he hreply
  unfold xaddCommand at hrun
  rcases hopts : xaddOptions c.ctx.now (c.argv.drop 2) {} with e | ⟨opts, _ | ⟨idStr, fieldsRaw⟩⟩
  · rw [hopts] at hrun
    exact hunread e (xaddOptions_error hopts) hrun fun _ => by simp [askedID, hopts]
  · rw [hopts] at hrun
    exact hunread _ rfl hrun fun _ => by simp [askedID, hopts]
  rw [hopts] at hrun
  simp only at hrun
  by_cases hf : fieldsRaw = [] ∨ fieldsRaw.length % 2 ≠ 0
  · rw [if_pos hf] at hrun
    exact hunread _ rfl hrun fun _ => by simp only [askedID, hopts, if_pos hf]
  have hget : db.get c.ctx.now (c.argv.getD 1 []) = (db, o.map Value.stream) := HoldsStream.get h c.ctx.now
  rw [if_neg hf, hget] at hrun
  cases o with
  | some s => exact ends_xaddTo hverb hopts hf h hrun
  | none =>
  split_ifs at hrun with hmk
  · refine .other none ?_ (by rw [hrun]; exact h) rfl fun _ s hs => by cases hs
    rintro id ⟨-, hreply⟩
    rw [hrun] at hreply
    exact bulkString_ne_null _ hreply.symm
  · exact ends_xaddTo hverb hopts hf (Finmap.lookup_insert _) hrun

/-! ## Runs -/

lemma streamOf_holds (h : HoldsStream db key o) : (db.lookup key).bind (fun e => streamOf e.val) = o := by
  rw [h]
  cases o <;> rfl

lemma fresh_iff_of_accepted (h : HoldsStream db c.key o)
    {id : StreamID} (hacc : c.Accepts db id) (hasked : c.askedID (o.getD newStream).lastID = some id)
    (hlt : ∀ s, o = some s → 0 < s.length → s.lastID.lt id = true) :
    c.Fresh db ↔ ∀ last, lastAccepted o = some last → last.lt id = true := by
  unfold Fresh
  rw [streamOf_holds h]
  cases o with
  | none => simp [lastAccepted]
  | some s =>
  constructor
  · intro hfresh last hlast
    have hfields : s.fields ≠ [] := by
      rintro hnil
      simp [lastAccepted, hnil] at hlast
    obtain rfl : s.lastID = last := by simpa [lastAccepted, hfields] using hlast
    rcases lt_or_ge 0 s.length with hpos | hle
    · exact hlt s rfl hpos
    · exact hfresh hacc.1 s rfl hfields hle id hasked
  · rintro hlast - s' hs' hfields - id' hid'
    obtain rfl := some.inj hs'
    obtain rfl := some.inj (hasked.symm.trans hid')
    exact hlast s.lastID (by simp [lastAccepted, hfields])

lemma fresh_of_other (h : HoldsStream db c.key o)
    (hnone : c.verb = .xadd → ∀ s, o = some s → s.length ≤ 0 → c.askedID s.lastID = none) : c.Fresh db := by
  intro hverb s hs _ hle id hid
  rw [streamOf_holds h] at hs
  rw [hnone hverb s hs hle] at hid
  cases hid

lemma rising_iff_fresh {cs : List StreamCall} (hcs : ∀ c ∈ cs, c.key = key) {db' : Keyspace}
    (h : HoldsStream db key o) {ids : List StreamID} (hids : AcceptedIDs db cs ids) (hrun : Run step Free db cs db') :
    ((lastAccepted o).toList ++ ids).Pairwise (fun a b => a.lt b = true) ↔ Run step Fresh db cs db' := by
  induction cs generalizing db o ids with
  | nil =>
    obtain _ | _ := hrun
    obtain _ | _ := hids
    refine iff_of_true ?_ (.nil _)
    cases lastAccepted o <;> simp
  | cons c cs ih =>
  obtain ⟨rfl, hcs⟩ := forall_mem_cons.1 hcs
  obtain _ | ⟨-, hs, hrest⟩ := hrun
  obtain rfl := some.inj hs
  have hcons : Run step Fresh db (c :: cs) db' ↔ c.Fresh db ∧ Run step Fresh (c.run db).db cs db' := by
    constructor
    · rintro (_ | ⟨hg, hs, hrun⟩)
      obtain rfl := some.inj hs
      exact ⟨hg, hrun⟩
    · rintro ⟨hg, hrun⟩
      exact .cons hg rfl hrun
  rw [hcons]
  rcases c.ends_run h with ⟨id, o', hacc, hholds, hlast, hasked, hlt⟩ | ⟨o', hnot, hholds, hlast, hnone⟩
  · cases hids with
    | other hnot => exact absurd hacc (hnot id)
    | @accepted _ _ _ id' ids hacc' htail =>
    obtain rfl := bulkString_format_inj (hacc'.2.symm.trans hacc.2)
    rw [fresh_iff_of_accepted h hacc hasked hlt, ← ih hcs hholds htail hrest, hlast]
    -- the new ID is above the last one, and all that follow are above the new one
    cases lastAccepted o with
    | none => simp
    | some last =>
    simp only [toList_some, singleton_append, pairwise_cons, mem_cons, Option.some.injEq,
      forall_eq_or_imp, forall_eq']
    constructor
    · rintro ⟨⟨hfirst, -⟩, hids⟩
      exact ⟨hfirst, hids⟩
    · rintro ⟨hfirst, hids⟩
      exact ⟨⟨hfirst, fun id hid => StreamID.lt_trans hfirst (hids.1 id hid)⟩, hids⟩
  · cases hids with
    | accepted hacc => exact absurd hacc (hnot _)
    | other _ htail =>
      rw [← ih hcs hholds htail hrest, hlast]
      exact (and_iff_right (fresh_of_other h hnone)).symm

/-- Over the life of a key, the IDs that `XADD` accepts rise exactly if no stream that has been emptied is
asked for an ID that is not above its last one. -/
theorem accepted_ids_increase_iff (key : Bytes) (db db' : Keyspace) (hkey : db.lookup key = none)
    (cs : List StreamCall) (hcs : ∀ c ∈ cs, c.key = key) (ids : List StreamID) (hids : AcceptedIDs db cs ids)
    (hrun : Run step Free db cs db') : ids.Pairwise (fun a b => a.lt b = true) ↔ Run step Fresh db cs db' :=
  rising_iff_fresh (o := none) hcs hkey hids hrun

/-- An entry is added and deleted again, and another one added to the empty stream. -/
def addedToEmptied (id : String) : List StreamCall :=
  [⟨.xadd, openContext .zero, [ascii "XADD", ascii "s", ascii "5-0", ascii "f", ascii "v"]⟩,
    ⟨.xdel, openContext .zero, [ascii "XDEL", ascii "s", ascii "5-0"]⟩,
    ⟨.xadd, openContext .zero, [ascii "XADD", ascii "s", ascii id, ascii "f", ascii "v"]⟩]

def afterCalls (db : Keyspace) (cs : List StreamCall) : Keyspace := cs.foldl (fun db c => (c.run db).db) db

lemma run_afterCalls (db : Keyspace) (cs : List StreamCall) : Run step Free db cs (afterCalls db cs) := by
  induction cs generalizing db with
  | nil => exact .nil db
  | cons c cs ih => exact .cons trivial rfl (ih _)

theorem greater_id_is_fresh : Run step Fresh ∅ (addedToEmptied "6-0") (afterCalls ∅ (addedToEmptied "6-0")) :=
  (accepted_ids_increase_iff (ascii "s") ∅ _ rfl (addedToEmptied "6-0") (by decide) [⟨5, 0⟩, ⟨6, 0⟩]
    (.accepted ⟨rfl, by decide⟩ (.other (fun _ h => by cases h.1) (.accepted ⟨rfl, by decide⟩ (.nil _))))
    (run_afterCalls _ _)).1 (by decide)

/-- An emptied stream takes an ID below the one it had. -/
theorem emptied_stream_takes_smaller_id : AcceptedIDs ∅ (addedToEmptied "3-0") [⟨5, 0⟩, ⟨3, 0⟩] ∧
      ¬ [(⟨5, 0⟩ : StreamID), ⟨3, 0⟩].Pairwise (fun a b => a.lt b = true) :=
  ⟨.accepted ⟨rfl, by decide⟩ (.other (fun _ h => by cases h.1) (.accepted ⟨rfl, by decide⟩ (.nil _))), by decide⟩

end StreamCall

end Gopherdis.Command

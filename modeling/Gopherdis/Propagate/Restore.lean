/-
Replaying `RESTORE`. A relative deadline is propagated as an absolute one, computed apart from the one
the handler sets; the payload is read anew, and its own deadline may have passed by then.
-/
import Gopherdis.Propagate.Agree

namespace Gopherdis.Command

open Lib Codec Object Store List

/-! ## The arguments -/

/-- The arguments of a `RESTORE` that is not refused for their sake. -/
structure RestoreReads (num payload : Bytes) (opts : List Bytes) (ttl : Int) (o : RestoreOpts) (body : Bytes) :
    Prop where
  number : parseInt num = some ttl
  nonneg : 0 ≤ ttl
  options : restoreOptions opts {} = .ok o
  payload : dumpBody payload = some body

/-- The deadline the handler sets. -/
def RestoreOpts.deadline (o : RestoreOpts) (now : Clock) (ttl : Int) : Int :=
  if 0 < ttl then
    if o.absTTL then ttl else wrap64 (now.ms + (wrap64 (ttl * 10 ^ 6)).tdiv (10 ^ 6))
  else 0

/-- The number that is propagated: an absolute deadline, or zero. -/
def RestoreOpts.sent (o : RestoreOpts) (now : Clock) (ttl : Int) : Int :=
  if o.absTTL ∨ ttl = 0 then ttl else wrap64 (now.ms + ttl)

/-- The value to restore, unless a key is in the way or there is none. -/
def restoreRead (E : Env) (now : Clock) (db : Keyspace) (key : Bytes) (o : RestoreOpts) (body : Bytes) :
    Option Value :=
  if ¬ o.replace ∧ db.has now key then none else restoredValue E now body

variable {opts : List Bytes}

lemma restoreOptions_error {o : RestoreOpts} {e : Bytes} (h : restoreOptions opts o = .error e) :
    succeeded e = false := by
  fun_induction restoreOptions opts o
  case case1 => cases h
  case case2 ih | case3 ih | case6 ih => exact ih h
  all_goals (cases h; rfl)

lemma restoreOptions_absTTL {o o' : RestoreOpts} (h : restoreOptions opts o = .ok o') :
    o'.absTTL = (o.absTTL || opts.any fun w => toUpper w = ascii "ABSTTL") := by
  fun_induction restoreOptions opts o
  case case1 => cases h; simp
  case case2 opt hopt ih =>
    have hword : opt ≠ ascii "ABSTTL" := by rw [hopt]; decide
    rw [ih h, any_cons, show decide (opt = ascii "ABSTTL") = false from decide_eq_false hword, Bool.false_or]
  case case3 opt _ hopt ih =>
    rw [ih h, any_cons, show decide (opt = ascii "ABSTTL") = true from decide_eq_true hopt]
    simp
  case case6 o opt _ hopt _ num rest n hn ih =>
    have hnum : toUpper num ≠ ascii "ABSTTL" := toUpper_ne_of_parseInt hn (by decide) _
    rw [ih h, any_cons, any_cons, show decide (opt = ascii "ABSTTL") = false from decide_eq_false hopt,
      decide_eq_false hnum, Bool.false_or, Bool.false_or]
  all_goals cases h

lemma restoreOptions_append {o o' : RestoreOpts} (h : restoreOptions opts o = .ok o') :
    restoreOptions (opts ++ [ascii "ABSTTL"]) o = .ok { o' with absTTL := true } := by
  fun_induction restoreOptions opts o
  case case1 => cases h; rfl
  case case2 hopt ih =>
    conv_lhs => unfold restoreOptions
    exact (if_pos hopt).trans (ih h)
  case case3 hne hopt ih =>
    conv_lhs => unfold restoreOptions
    exact (if_neg hne).trans ((if_pos hopt).trans (ih h))
  case case6 o _ hne hne' hopt num rest n hn ih =>
    conv_lhs => unfold restoreOptions
    refine (if_neg hne).trans ((if_neg hne').trans ((if_pos hopt).trans ?_))
    simp only [append_eq, cons_append, hn]
    exact ih h
  all_goals cases h

section
variable {num payload : Bytes} {opts : List Bytes} {ttl : Int} {o : RestoreOpts} {body : Bytes}

lemma restore_becomes (o : RestoreOpts) (now : Clock) (db : Keyspace) (key : Bytes) (v : Value) (ttl : Int) :
    Becomes db key (if 0 < ttl then if o.absTTL then ((db.set key v).setExpireAt now key ttl).1
        else ((db.set key v).setExpire now key (wrap64 (ttl * 10 ^ 6))).1
      else db.set key v) (some ⟨v, o.deadline now ttl⟩) := by
  have hset : Becomes db key (db.set key v) (some ⟨v, 0⟩) := Becomes.insert db key _
  have hexp : ∀ exp, Becomes db key ((db.set key v).setExpireAt now key exp).1 (some ⟨v, exp⟩) := by
    intro exp
    have h := (setExpireAt_spec (db.set key v) now key exp).2
    rw [live_of_lookup hset.at_key rfl] at h
    exact hset.trans h
  unfold RestoreOpts.deadline
  split_ifs
  · exact hexp _
  · exact hexp _
  · exact hset

lemma restoreCommand_reads (h : RestoreReads num payload opts ttl o body) (ctx : Context) (name key : Bytes)
    (db : Keyspace) : match restoreRead ctx.E ctx.now db key o body with
    | none => succeeded (restoreCommand ctx (name :: key :: num :: payload :: opts) db).reply = false ∧
        (restoreCommand ctx (name :: key :: num :: payload :: opts) db).db = db
    | some v => ∃ db', restoreCommand ctx (name :: key :: num :: payload :: opts) db = ⟨db', ok, none⟩ ∧
        Becomes db key db' (some ⟨v, o.deadline ctx.now ttl⟩) := by
  simp only [restoreCommand, restoreRead, getD_cons_succ, getD_cons_zero, drop_succ_cons,
    drop_zero, h.number, h.options, h.payload, if_neg (not_lt.2 h.nonneg)]
  by_cases hbusy : ¬ o.replace ∧ db.has ctx.now key
  · rw [if_pos hbusy, if_pos hbusy]
    exact ⟨rfl, rfl⟩
  rw [if_neg hbusy, if_neg hbusy]
  rcases restoredValue ctx.E ctx.now body with _ | v
  · exact ⟨rfl, rfl⟩
  · refine ⟨_, ?_, restore_becomes o ctx.now db key v ttl⟩
    split_ifs <;> rfl

lemma restoreCommand_cases (num payload : Bytes) (opts : List Bytes) (ctx : Context) (name key : Bytes)
    (db : Keyspace) : (∃ ttl o body, RestoreReads num payload opts ttl o body) ∨
      ((∀ ttl o body, ¬ RestoreReads num payload opts ttl o body) ∧
        succeeded (restoreCommand ctx (name :: key :: num :: payload :: opts) db).reply = false ∧
        (restoreCommand ctx (name :: key :: num :: payload :: opts) db).db = db) := by
  by_cases h : ∃ ttl o body, RestoreReads num payload opts ttl o body
  · exact .inl h
  refine .inr ⟨fun ttl o body hr => h ⟨ttl, o, body, hr⟩, ?_⟩
  simp only [restoreCommand, getD_cons_succ, getD_cons_zero, drop_succ_cons, drop_zero]
  rcases hn : parseInt num with _ | ttl
  · exact ⟨rfl, rfl⟩
  simp only
  by_cases hneg : ttl < 0
  · rw [if_pos hneg]; exact ⟨rfl, rfl⟩
  rw [if_neg hneg]
  rcases ho : restoreOptions opts {} with e | o
  · exact ⟨restoreOptions_error ho, rfl⟩
  rcases hb : dumpBody payload with _ | body
  · exact ⟨rfl, rfl⟩
  exact absurd ⟨ttl, o, body, hn, not_lt.1 hneg, ho, hb⟩ h

/-! ## The replay -/

lemma normalizeRestore_reads (h : RestoreReads num payload opts ttl o body) (now : Clock) (name key : Bytes) :
    ∃ num' opts' o', normalizeRestore now.ms (name :: key :: num :: payload :: opts) =
        name :: key :: num' :: payload :: opts' ∧
      parseInt num' = some (o.sent now ttl) ∧ restoreOptions opts' {} = .ok o' ∧ o'.replace = o.replace ∧
      (o'.absTTL = true ∨ o.sent now ttl = 0) := by
  have habs : o.absTTL = opts.any fun w => toUpper w = ascii "ABSTTL" := by simpa using restoreOptions_absTTL h.options
  unfold normalizeRestore RestoreOpts.sent
  by_cases ha : o.absTTL = true
  · rw [if_pos (.inl ha)]
    exact ⟨num, opts, o, if_pos (habs ▸ ha), h.number, h.options, rfl, .inl ha⟩
  simp only [h.number, if_neg (habs ▸ ha)]
  by_cases h0 : ttl = 0
  · rw [if_pos h0, if_pos (.inr h0)]
    exact ⟨num, opts, o, rfl, h.number, h.options, rfl, .inr h0⟩
  · rw [if_neg h0, if_neg (not_or.2 ⟨ha, h0⟩)]
    exact ⟨_, _, _, rfl, parseInt_formatInt (wrap64_inInt64 _), restoreOptions_append h.options, rfl, .inl rfl⟩

/-- What the replay leaves at the key: nothing is changed if the deadline has wrapped around to a
negative one or the payload holds no value any more. -/
def RestoreOpts.replayed (o : RestoreOpts) (E : Env) (now now' : Clock) (ttl : Int) (body : Bytes) (old : Option Entry) :
    Option Entry :=
  if o.sent now ttl < 0 then old
  else
    match restoredValue E now' body with
    | some v => some ⟨v, o.sent now ttl⟩
    | none => old

variable {ctx : Context} {now' : Clock} {db : Keyspace} {name key : Bytes}

lemma RestoreOpts.deadline_absolute (o : RestoreOpts) (now : Clock) {ttl : Int} (h0 : 0 ≤ ttl)
    (h : o.absTTL = true ∨ ttl = 0) : o.deadline now ttl = ttl := by
  unfold RestoreOpts.deadline
  split_ifs with hpos ha
  · rfl
  · exact absurd (h.resolve_left ha) hpos.ne'
  · omega

lemma restoreCmd_arity (name key num payload : Bytes) (opts : List Bytes) :
    restoreCmd.arityOk (name :: key :: num :: payload :: opts).length = true := by
  simp [Command.arityOk, restoreCmd, writeCmd]
  omega

lemma replay_normalizeRestore (h : RestoreReads num payload opts ttl o body)
    (hl : baseTable.lookup name = some restoreCmd) (hfree : ¬ (¬ o.replace ∧ db.has now' key)) (E : Env) (now : Clock) :
    Becomes db key (replayOne E now' baseTable db (normalizeRestore now.ms (name :: key :: num :: payload :: opts)))
      (o.replayed E now now' ttl body (db.lookup key)) := by
  obtain ⟨num', opts', o', hnorm, hn, ho, hreplace, habs⟩ := normalizeRestore_reads h now name key
  rw [hnorm, replayOne_eq hl (restoreCmd_arity ..) (cons_ne_nil _ _) rfl,
    RestoreOpts.replayed]
  by_cases hneg : o.sent now ttl < 0
  · simp only [restoreCommand, getD_cons_succ, getD_cons_zero, hn, if_pos hneg]
    exact Becomes.keep rfl
  rw [if_neg hneg]
  have hreads : RestoreReads num' payload opts' (o.sent now ttl) o' body := ⟨hn, not_lt.1 hneg, ho, h.payload⟩
  have hspec := restoreCommand_reads hreads (replayContext E now') name key db
  have hread : restoreRead (replayContext E now').E (replayContext E now').now db key o' body =
      restoredValue E now' body := if_neg (by rw [hreplace]; exact hfree)
  rw [hread] at hspec
  rcases hv : restoredValue E now' body with _ | v <;> rw [hv] at hspec
  · rw [hspec.2]
    exact Becomes.keep rfl
  obtain ⟨db', hout, hdb⟩ := hspec
  rw [o'.deadline_absolute _ (not_lt.1 hneg) habs] at hdb
  rw [hout]
  exact hdb

/-- When a `RESTORE` is replayed: the deadline it set has passed by `now'`, or the payload still holds
the same value then and the propagated deadline is the one that was set. -/
def RestoreSafe (E : Env) (now now' : Clock) (db : Keyspace) (key num payload : Bytes) (opts : List Bytes) : Prop :=
  ∀ ttl o body v, RestoreReads num payload opts ttl o body → restoreRead E now db key o body = some v →
    (Entry.mk v (o.deadline now ttl)).expired now'.ms = true ∨
      o.replayed E now now' ttl body (db.lookup key) = some ⟨v, o.deadline now ttl⟩

lemma restore_replayed_iff (hsinks : ctx.sinks = true) (hle : ctx.now.ms ≤ now'.ms)
    (hl : baseTable.lookup name = some restoreCmd) :
    Replayed restoreCmd restoreCommand ctx now' (name :: key :: num :: payload :: opts) db ↔
      RestoreSafe ctx.E ctx.now now' db key num payload opts := by
  have hle' : (ctx.now.ms : Int) ≤ now'.ms := by exact_mod_cast hle
  rcases restoreCommand_cases num payload opts ctx name key db with ⟨ttl, o, body, hreads⟩ | ⟨hno, hs, hdb⟩
  · have hspec := restoreCommand_reads hreads ctx name key db
    have honly : RestoreSafe ctx.E ctx.now now' db key num payload opts ↔ ∀ v, _ :=
      ⟨fun h v => h ttl o body v hreads, fun h ttl' o' body' v hr => by
        obtain rfl := Option.some.inj (hr.number.symm.trans hreads.number)
        obtain rfl := Except.ok.inj (hr.options.symm.trans hreads.options)
        obtain rfl := Option.some.inj (hr.payload.symm.trans hreads.payload)
        exact h v⟩
    rw [honly]
    rcases hv : restoreRead ctx.E ctx.now db key o body with _ | v <;> rw [hv] at hspec
    · exact iff_of_true (replayed_error rfl hspec.1 hspec.2) (by simp)
    obtain ⟨db', hout, hdb⟩ := hspec
    -- a key that was not in the way is not in the way later
    have hfree : ¬ (¬ o.replace ∧ db.has now' key) := by
      rintro ⟨hr, hhas⟩
      rw [has_eq, live_later hle'] at hhas
      have hdead : ¬ db.has ctx.now key = true := fun hb => by
        rw [restoreRead, if_pos ⟨hr, hb⟩] at hv
        cases hv
      rw [has_eq, Bool.not_eq_true, Option.isSome_eq_false_iff, Option.isNone_iff_eq_none] at hdead
      rw [hdead] at hhas
      cases hhas
    have hp : propagated ctx restoreCmd (name :: key :: num :: payload :: opts) ok none =
        some (normalizeRestore ctx.now.ms (name :: key :: num :: payload :: opts)) :=
      propagated_success rfl hsinks rfl none
    have hreplay := Becomes.shows (replay_normalizeRestore hreads hl hfree ctx.E ctx.now) now'.ms
    simp only [replayed_fed hout hp hdb hreplay, expired_or_shown_iff, Option.some.injEq, forall_eq']
  · exact ⟨fun _ ttl o body v hr _ => absurd hr (hno ttl o body), fun _ => replayed_error rfl hs hdb⟩

end

end Gopherdis.Command

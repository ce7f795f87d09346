/-
Replaying `GETDEL` and the `EXPIRE` family. A deletion is replayed as such. A deadline that was set is
replayed as an absolute one, which fails where the key has run out of its old deadline meanwhile; one
that was refused is propagated as it was given, and the replica decides anew.
-/
import Gopherdis.Propagate.Agree

namespace Gopherdis.Command

open Lib Codec Object Store List Option

section
variable {ctx : Context} {now' : Clock} {db : Keyspace}

/-! ## GETDEL -/

lemma normalizeGetdel_bulkString (argv : Argv) (b : Bytes) :
    normalizeGetdel argv (bulkString b) = some [ascii "DEL", argv.getD 1 []] := by
  rw [normalizeGetdel, if_neg]
  rintro (h | h)
  · exact bulkString_ne_null b h
  · cases h

lemma getdel_replayed (hsinks : ctx.sinks = true) (hle : ctx.now.ms ≤ now'.ms) (argv : Argv) :
    Replayed getdelCmd getdelCommand ctx now' argv db := by
  have hle' : (ctx.now.ms : Int) ≤ now'.ms := by exact_mod_cast hle
  obtain ⟨-, hget⟩ := get_spec db ctx.now (argv.getD 1 [])
  rcases hlive : db.live (argv.getD 1 []) ctx.now.ms with _ | ⟨v, exp⟩
  · have hout : getdelCommand ctx argv db = ⟨(db.get ctx.now (argv.getD 1 [])).1, nullBulkString, none⟩ := by
      unfold getdelCommand
      simp only
      rw [get_of_dead hlive]
    rw [replayed_not_fed hout (propagated_success rfl hsinks rfl none)]
    exact agrees_live hle' hget
  have hg := get_of_live hlive
  cases v with
  | str b =>
    have hout : getdelCommand ctx argv db = ⟨(db.del ctx.now (argv.getD 1 [])).1, bulkString b, none⟩ := by
      simp only [getdelCommand, hg]
    have hp : propagated ctx getdelCmd argv (bulkString b) none = some [ascii "DEL", argv.getD 1 []] := by
      rw [propagated_success rfl hsinks (succeeded_bulkString b)]
      exact normalizeGetdel_bulkString argv b
    exact (replayed_fed hout hp (del_spec db ctx.now _) (replay_del ctx.E now' db _ _)).2 (.inr rfl)
  | _ =>
    have hout : getdelCommand ctx argv db = ⟨db, wrongType, none⟩ := by simp only [getdelCommand, hg]
    exact replayed_error hout rfl rfl

/-! ## EXPIRE and its relatives -/

/-- The number and the options of an `EXPIRE` that is not refused for their sake. -/
structure ExpireReads (x : ExpireOpt) (num : Bytes) (opts : List Bytes) (n : Int) (o : ExpireOpts) : Prop where
  number : parseInt num = some n
  options : expireOptions opts {} = .ok o
  compatible : ¬ ((o.gt ∧ o.lt) ∨ (o.nx ∧ (o.xx ∨ o.gt ∨ o.lt)))
  inRange : x.inRange n = true

lemma expireOptions_error {opts : List Bytes} {o : ExpireOpts} {e : Bytes} (h : expireOptions opts o = .error e) :
    succeeded e = false := by
  fun_induction expireOptions opts o
  case case1 => cases h
  case case2 ih | case3 ih | case4 ih | case5 ih => exact ih h
  case case6 => cases h; rfl

lemma expireGeneric_reads {x : ExpireOpt} {cmd : String} {name key num : Bytes} {opts : List Bytes} {n : Int}
    {o : ExpireOpts} (h : ExpireReads x num opts n o) (ctx : Context) (db : Keyspace) :
    expireGeneric x cmd ctx (name :: key :: num :: opts) db = if ¬ db.has ctx.now key then ⟨db, integer 0, none⟩
      else if o.refuses (currentDeadline ctx.now db key) (x.absMs ctx.now.ms n) then ⟨db, integer 0, none⟩
      else ⟨(db.setExpireAt ctx.now key (x.absMs ctx.now.ms n)).1,
        integer (if (db.setExpireAt ctx.now key (x.absMs ctx.now.ms n)).2 then 1 else 0), none⟩ := by
  simp [expireGeneric, drop_succ_cons, drop_zero, h.number, h.options, if_neg h.compatible, h.inRange]

lemma expireGeneric_cases (x : ExpireOpt) (cmd : String) (name key num : Bytes) (opts : List Bytes) (ctx : Context)
    (db : Keyspace) : (∃ n o, ExpireReads x num opts n o) ∨ ((∀ n o, ¬ ExpireReads x num opts n o) ∧
        succeeded (expireGeneric x cmd ctx (name :: key :: num :: opts) db).reply = false ∧
        (expireGeneric x cmd ctx (name :: key :: num :: opts) db).db = db) := by
  by_cases h : ∃ n o, ExpireReads x num opts n o
  · exact .inl h
  refine .inr ⟨fun n o hr => h ⟨n, o, hr⟩, ?_⟩
  simp only [expireGeneric, getD_cons_succ, getD_cons_zero, drop_succ_cons, drop_zero]
  rcases hn : parseInt num with _ | n
  · exact ⟨rfl, rfl⟩
  rcases ho : expireOptions opts {} with e | o
  · exact ⟨expireOptions_error ho, rfl⟩
  simp only
  by_cases hc : (o.gt ∧ o.lt) ∨ (o.nx ∧ (o.xx ∨ o.gt ∨ o.lt))
  · rw [if_pos hc]; exact ⟨rfl, rfl⟩
  rw [if_neg hc]
  by_cases hr : x.inRange n = true
  · exact absurd ⟨n, o, hn, ho, hc, hr⟩ h
  · rw [if_pos hr]; exact ⟨rfl, rfl⟩

/-- When an `EXPIRE` is replayed. If the key was live and the deadline was refused, it has run out by
`now'`, or is refused again, or given the deadline it has. If the deadline was set, it is not the zero
that stands for none, and it has passed by `now'` or the key would have been live until then anyway. -/
def ExpireSafe (x : ExpireOpt) (now now' : Clock) (db : Keyspace) (key num : Bytes) (opts : List Bytes) : Prop :=
  ∀ n o e, ExpireReads x num opts n o → db.live key now.ms = some e →
    if o.refuses (currentDeadline now db key) (x.absMs now.ms n) then
      e.expired now'.ms = true ∨ o.refuses (currentDeadline now' db key) (x.absMs now'.ms n) = true ∨
        x.absMs now'.ms n = e.expireAt
    else x.absMs now.ms n ≠ 0 ∧ (x.absMs now.ms n ≤ now'.ms ∨ e.expired now'.ms = false)

variable {c : Command} {x : ExpireOpt} {cmd : String} {name key num : Bytes} {opts : List Bytes} {n : Int}
  {o : ExpireOpts} {e : Entry}

lemma entry_expired_iff (v : Value) (exp ms : Int) :
    (some (Entry.mk v exp)).any (·.expired ms) = true ↔ exp ≠ 0 ∧ exp ≤ ms := by
  simp [Entry.expired]

lemma expireGeneric_shows (hreads : ExpireReads x num opts n o) (ctx : Context) (db : Keyspace) :
    Shows db key ctx.now.ms (expireGeneric x cmd ctx (name :: key :: num :: opts) db).db
      ((db.live key ctx.now.ms).bind fun e =>
        if o.refuses (currentDeadline ctx.now db key) (x.absMs ctx.now.ms n) then some e
        else liveEntry ctx.now.ms (some { e with expireAt := x.absMs ctx.now.ms n })) := by
  rw [expireGeneric_reads hreads, has_eq]
  rcases hlive : db.live key ctx.now.ms with _ | e
  · exact ⟨hlive, fun _ _ => rfl⟩
  cases hr : o.refuses (currentDeadline ctx.now db key) (x.absMs ctx.now.ms n) with
  | true => exact ⟨hlive, fun _ _ => rfl⟩
  | false =>
    have h := Becomes.shows (setExpireAt_spec db ctx.now key (x.absMs ctx.now.ms n)).2 ctx.now.ms
    rw [hlive] at h
    exact h

lemma expire_refused_iff (hle : (ctx.now.ms : Int) ≤ now'.ms) (hreads : ExpireReads x num opts n o)
    (hlive : db.live key ctx.now.ms = some e)
    (hp : propagated ctx c (name :: key :: num :: opts) (integer 0) none = some (name :: key :: num :: opts))
    (hreplay : replayOne ctx.E now' baseTable db (name :: key :: num :: opts) =
      (expireGeneric x cmd (replayContext ctx.E now') (name :: key :: num :: opts) db).db)
    (hrefused : o.refuses (currentDeadline ctx.now db key) (x.absMs ctx.now.ms n) = true) :
    Replayed c (expireGeneric x cmd) ctx now' (name :: key :: num :: opts) db ↔
      e.expired now'.ms = true ∨ o.refuses (currentDeadline now' db key) (x.absMs now'.ms n) = true ∨
        x.absMs now'.ms n = e.expireAt := by
  have hout : expireGeneric x cmd ctx (name :: key :: num :: opts) db = ⟨db, integer 0, none⟩ := by
    rw [expireGeneric_reads hreads, has_eq, hlive, if_neg (by simp), if_pos hrefused]
  have hkeep : Becomes db key db (some e) := Becomes.keep (lookup_of_live hlive)
  have hshows : Shows db key now'.ms (replayOne ctx.E now' baseTable db (name :: key :: num :: opts))
      ((db.live key now'.ms).bind fun e =>
        if o.refuses (currentDeadline now' db key) (x.absMs now'.ms n) then some e
        else liveEntry now'.ms (some { e with expireAt := x.absMs now'.ms n })) :=
    hreplay ▸ expireGeneric_shows hreads (replayContext ctx.E now') db
  have hlater : db.live key now'.ms = liveEntry now'.ms (some e) := hlive ▸ live_later hle db key
  rw [replayed_fed hout hp hkeep hshows, hlater, liveEntry_some]
  cases hx : e.expired now'.ms with
  | true => simp [hx]
  | false =>
  rw [if_neg Bool.false_ne_true, bind_some]
  by_cases hr : o.refuses (currentDeadline now' db key) (x.absMs now'.ms n) = true
  · rw [if_pos hr]
    exact ⟨fun _ => .inr (.inl hr), fun _ => .inr rfl⟩
  rw [if_neg hr, expired_or_shown_iff, hx, some.injEq]
  simp only [Bool.false_eq_true, false_or, hr]
  exact ⟨fun h => congrArg Entry.expireAt h, fun h => by rw [h]⟩

lemma expire_accepted_iff (hle : (ctx.now.ms : Int) ≤ now'.ms) (hreads : ExpireReads x num opts n o)
    (hlive : db.live key ctx.now.ms = some e) (hp : propagated ctx c (name :: key :: num :: opts) (integer 1) none =
      some (propagateDeadline ctx.now.ms key (x.absMs ctx.now.ms n)))
    (haccepted : o.refuses (currentDeadline ctx.now db key) (x.absMs ctx.now.ms n) = false) :
    Replayed c (expireGeneric x cmd) ctx now' (name :: key :: num :: opts) db ↔
      x.absMs ctx.now.ms n ≠ 0 ∧ (x.absMs ctx.now.ms n ≤ now'.ms ∨ e.expired now'.ms = false) := by
  obtain ⟨hdone, hset⟩ := setExpireAt_spec db ctx.now key (x.absMs ctx.now.ms n)
  rw [hlive] at hdone hset
  have hout : expireGeneric x cmd ctx (name :: key :: num :: opts) db =
      ⟨(db.setExpireAt ctx.now key (x.absMs ctx.now.ms n)).1, integer 1, none⟩ := by
    rw [expireGeneric_reads hreads, has_eq, hlive, if_neg (by simp), haccepted, if_neg Bool.false_ne_true, hdone]
    rfl
  have hint := x.absMs_inInt64 ctx.now.ms (parseInt_inInt64 hreads.number)
  have hlater : db.live key now'.ms = liveEntry now'.ms (some e) := hlive ▸ live_later hle db key
  generalize x.absMs ctx.now.ms n = a at *
  rw [propagateDeadline] at hp
  split_ifs at hp with hpast
  · -- a deletion
    rw [replayed_fed hout hp hset (replay_del ctx.E now' db key _), map_some, entry_expired_iff]
    simp only [reduceCtorEq, or_false]
    exact ⟨fun h => ⟨h.1, .inl h.2⟩, fun h => ⟨h.1, hpast.trans hle⟩⟩
  have h0 : a ≠ 0 := by
    rintro rfl
    exact hpast (Int.natCast_nonneg _)
  rw [replayed_fed hout hp hset (replay_pexpireat ctx.E now' db key hint), map_some, expired_or_shown_iff,
    hlater, liveEntry_some]
  cases hx : e.expired now'.ms with
  | true => simp [Entry.expired, h0]
  | false => simp [h0]

lemma expire_replayed_iff (hsinks : ctx.sinks = true) (hle : ctx.now.ms ≤ now'.ms) (hw : c.isWrite = true)
    (hf : c.handler = onKeyspace (expireGeneric x cmd))
    (hnorm : ∀ argv reply, normalizeForPropagation ctx.E ctx.now.ms c.name argv reply =
      some (normalizeExpire x ctx.now.ms argv reply))
    (hl : baseTable.lookup name = some c) (ha : c.arityOk (name :: key :: num :: opts).length = true) :
    Replayed c (expireGeneric x cmd) ctx now' (name :: key :: num :: opts) db ↔
      ExpireSafe x ctx.now now' db key num opts := by
  have hle' : (ctx.now.ms : Int) ≤ now'.ms := by exact_mod_cast hle
  have hreplay : replayOne ctx.E now' baseTable db (name :: key :: num :: opts) =
      (expireGeneric x cmd (replayContext ctx.E now') (name :: key :: num :: opts) db).db :=
    replayOne_eq hl ha (cons_ne_nil _ _) hf ctx.E now' db
  have hp : ∀ i : Int, propagated ctx c (name :: key :: num :: opts) (integer i) none =
      some (normalizeExpire x ctx.now.ms (name :: key :: num :: opts) (integer i)) := by
    intro i
    rw [propagated_success hw hsinks (succeeded_integer i), getD_none, hnorm]
  rcases expireGeneric_cases x cmd name key num opts ctx db with ⟨n, o, hreads⟩ | ⟨hno, hs, hdb⟩
  · have honly : ∀ n' o', ExpireReads x num opts n' o' → n' = n ∧ o' = o := by
      intro n' o' h
      exact ⟨some.inj (h.number.symm.trans hreads.number), Except.ok.inj (h.options.symm.trans hreads.options)⟩
    rcases hlive : db.live key ctx.now.ms with _ | e
    · -- there is no key, now or later
      have hout : expireGeneric x cmd ctx (name :: key :: num :: opts) db = ⟨db, integer 0, none⟩ := by
        rw [expireGeneric_reads hreads, has_eq, hlive]
        rfl
      have hdead : db.live key now'.ms = none := by rw [live_later hle', hlive]; rfl
      have hsame : replayOne ctx.E now' baseTable db (name :: key :: num :: opts) = db := by
        rw [hreplay, expireGeneric_reads hreads, has_eq, show db.live key (replayContext ctx.E now').now.ms = none from hdead]
        rfl
      refine ⟨fun _ n' o' e' _ h => by simp [hlive] at h, fun _ => ?_⟩
      show Agrees _ _ _
      rw [hout]
      simp only [hp, normalizeExpire]
      show Agrees _ db (replayOne ctx.E now' baseTable db (name :: key :: num :: opts))
      rw [hsame]
      exact agrees_self _ _
    · have hsafe : ExpireSafe x ctx.now now' db key num opts ↔ _ :=
        ⟨fun h => h n o e hreads hlive, fun h n' o' e' hr he => by
          obtain ⟨rfl, rfl⟩ := honly n' o' hr
          obtain rfl := some.inj (hlive.symm.trans he)
          exact h⟩
      rw [hsafe]
      cases hr : o.refuses (currentDeadline ctx.now db key) (x.absMs ctx.now.ms n) with
      | true =>
        refine expire_refused_iff hle' hreads hlive ?_ hreplay hr
        rw [hp, normalizeExpire, if_pos (by decide)]
      | false =>
        refine expire_accepted_iff hle' hreads hlive ?_ hr
        rw [hp, normalizeExpire, if_neg (by simp), hreads.number]
  · exact ⟨fun _ n o e hr _ => absurd hr (hno n o), fun _ => replayed_error rfl hs hdb⟩

end

end Gopherdis.Command

/-
The deadlines the commands store, against what their arguments say in whole numbers. A duration is
kept in nanoseconds and wraps long before the bound the handlers check, a deadline in seconds wraps on
its way to milliseconds, and a deadline of zero, like one that `SET` takes for absent, stands for none.
-/
import Gopherdis.Propagate.Equivalence

namespace Gopherdis.Command

open Lib Codec Object Store List Option Expiry

variable {now : Clock} {words : List Bytes} {name num : Bytes}

/-! ## What a call asks for -/

/-- The deadline in milliseconds, without a bound. -/
def ExpireOpt.exactMs (x : ExpireOpt) (now n : Int) : Int :=
  match x with
  | .ex => now + 1000 * n
  | .px => now + n
  | .exat => 1000 * n
  | .pxat => n

open ExpireOpt

def msetexWords (argv : Argv) : List Bytes := (argv.drop 2).drop (((parseInt (argv.getD 1 [])).getD 0).toNat * 2)

/-- The call accepts the deadline `x n`, its only one, for `key`. -/
inductive Asks (ctx : Context) (db : Keyspace) : TimedCmd → Argv → ExpireOpt → Int → Bytes → Prop
  | set {name key val : Bytes} {words : List Bytes} {o : SetOpts} {reply : Bytes} {x : ExpireOpt} {n : Int}
      (options : setOptions words {} = .ok o) (deadline : setDeadlines words = [(x, n)])
      (keepTTL : o.expiry.keepTTL = false) (compatible : ¬ o.conflict)
      (writes : setDecision ctx o ((db.live key ctx.now.ms).map Entry.val) = .write reply) :
      Asks ctx db .set (name :: key :: val :: words) x n key
  | setex {name key num val : Bytes} {n : Int} (number : parseInt num = some n)
      (inRange : ¬ (n ≤ 0 ∨ ¬ validExpireMillis ((wrap64 (n * 10 ^ 9)).tdiv (10 ^ 6)))) :
      Asks ctx db .setex [name, key, num, val] .ex n key
  | psetex {name key num val : Bytes} {n : Int} (number : parseInt num = some n)
      (inRange : ¬ (n ≤ 0 ∨ ¬ validExpireMillis ((wrap64 (n * 10 ^ 6)).tdiv (10 ^ 6)))) :
      Asks ctx db .psetex [name, key, num, val] .px n key
  | getex {name key word num b : Bytes} {x : ExpireOpt} {n exp d : Int}
      (live : db.live key ctx.now.ms = some ⟨.str b, d⟩) (option : expireOpt? (toUpper word) = some x)
      (number : parseInt num = some n) (accepted : getexDeadline ctx.now x n = some exp) :
      Asks ctx db .getex [name, key, word, num] x n key
  | msetex {argv : Argv} {pairs : List (Bytes × Bytes)} {o : MsetexOpts} {key v : Bytes} {x : ExpireOpt} {n : Int}
      (args : msetexArgs argv = .ok (pairs, o)) (deadline : setDeadlines (msetexWords argv) = [(x, n)])
      (keepTTL : o.expiry.keepTTL = false) (writes : o.refuses ctx.now db pairs = false)
      (stored : lastValue pairs key = some v) : Asks ctx db .msetex argv x n key
  | expire {name key num : Bytes} {opts : List Bytes} {n : Int} {o : ExpireOpts} {e : Entry}
      (reads : ExpireReads .ex num opts n o) (live : db.live key ctx.now.ms = some e)
      (accepted : o.refuses (currentDeadline ctx.now db key) (ExpireOpt.ex.absMs ctx.now.ms n) = false) :
      Asks ctx db .expire (name :: key :: num :: opts) .ex n key
  | pexpire {name key num : Bytes} {opts : List Bytes} {n : Int} {o : ExpireOpts} {e : Entry}
      (reads : ExpireReads .px num opts n o) (live : db.live key ctx.now.ms = some e)
      (accepted : o.refuses (currentDeadline ctx.now db key) (ExpireOpt.px.absMs ctx.now.ms n) = false) :
      Asks ctx db .pexpire (name :: key :: num :: opts) .px n key
  | expireat {name key num : Bytes} {opts : List Bytes} {n : Int} {o : ExpireOpts} {e : Entry}
      (reads : ExpireReads .exat num opts n o) (live : db.live key ctx.now.ms = some e)
      (accepted : o.refuses (currentDeadline ctx.now db key) (ExpireOpt.exat.absMs ctx.now.ms n) = false) :
      Asks ctx db .expireat (name :: key :: num :: opts) .exat n key
  | pexpireat {name key num : Bytes} {opts : List Bytes} {n : Int} {o : ExpireOpts} {e : Entry}
      (reads : ExpireReads .pxat num opts n o) (live : db.live key ctx.now.ms = some e)
      (accepted : o.refuses (currentDeadline ctx.now db key) (ExpireOpt.pxat.absMs ctx.now.ms n) = false) :
      Asks ctx db .pexpireat (name :: key :: num :: opts) .pxat n key

/-- The key has the deadline, and one that has passed hides it from every later `Get`. -/
def HasDeadline (now : Clock) (value : Int) (db : Keyspace) (key : Bytes) : Prop :=
  (db.lookup key).map Entry.expireAt = some value ∧
    (value ≤ now.ms → ∀ now' : Clock, now.ms ≤ now'.ms → (db.get now' key).2 = none)

lemma hasDeadline_iff {value : Int} {db : Keyspace} {key : Bytes} {v : Value} {d : Int}
    (h : db.lookup key = some ⟨v, d⟩) : HasDeadline now value db key ↔ d = value ∧ value ≠ 0 := by
  have hsome : (db.lookup key).map Entry.expireAt = some value ↔ d = value := by
    rw [h, map_some, some.injEq]
  rw [HasDeadline, hsome]
  constructor
  · rintro ⟨rfl, hhidden⟩
    refine ⟨rfl, ?_⟩
    rintro rfl
    -- zero stands for no deadline, so the key is there
    have hget := hhidden (Int.natCast_nonneg _) now le_rfl
    rw [get_of_live (live_of_lookup h rfl)] at hget
    cases hget
  · rintro ⟨rfl, hne⟩
    refine ⟨rfl, fun hpast now' hle => ?_⟩
    have hexpired : (⟨v, d⟩ : Entry).expired now'.ms = true := by
      simp only [Entry.expired, Bool.and_eq_true, decide_eq_true_eq]
      exact ⟨hne, hpast.trans (by exact_mod_cast hle)⟩
    have hdead : db.live key now'.ms = none := by
      rw [live_eq, h, liveEntry_some, hexpired]
      rfl
    rw [get_of_dead hdead]

/-! ## What the options come to -/

variable (e : Expiry)

lemma Expiry.option_keep (b : Bool) (x : ExpireOpt) (n : Int) :
    option { e with keepTTL := b } x n = (e.option x n).map fun e => { e with keepTTL := b } := by
  unfold option
  cases x <;> simp only [] <;> (try split_ifs) <;> rfl

def Expiry.options (ds : List (ExpireOpt × Int)) : Option Expiry :=
  ds.foldlM (fun e d => e.option d.1 d.2) e

lemma Expiry.options_keep (b : Bool) : ∀ (ds : List (ExpireOpt × Int)) (e : Expiry),
    options { e with keepTTL := b } ds = (e.options ds).map fun e => { e with keepTTL := b }
  | [], _ => rfl
  | d :: ds, e => by
    unfold options
    rw [foldlM_cons, foldlM_cons, option_keep]
    rcases e.option d.1 d.2 with _ | e'
    · rfl
    · exact options_keep b ds e'

/-- The expiry of some options is that of their deadlines, but for `KEEPTTL`. -/
def Dated (words : List Bytes) (e1 : Expiry) : Prop :=
  ∃ e', e.options (setDeadlines words) = some e' ∧ e1 = { e' with keepTTL := e1.keepTTL }

section
variable {word num : Bytes} {rest : List Bytes} {x : ExpireOpt} {n : Int} {e e1 : Expiry}

lemma Dated.nil (e : Expiry) : Dated e [] e := ⟨e, rfl, rfl⟩

lemma Dated.deadline {e' : Expiry} (hx : expireOpt? (toUpper word) = some x) (hn : parseInt num = some n)
    (ho : e.option x n = some e') (h : Dated e' rest e1) : Dated e (word :: num :: rest) e1 := by
  obtain ⟨e'', hopts, heq⟩ := h
  refine ⟨e'', ?_, heq⟩
  rw [setDeadlines_deadline hx hn, options, foldlM_cons]
  simp only [ho]
  exact hopts

lemma Dated.plain {w : Bytes} (hword : toUpper word = w) (hx : expireOpt? w = none) (hc : compareMode? w = none)
    (h : Dated e rest e1) : Dated e (word :: rest) e1 := by
  rw [Dated, setDeadlines_plain (hword ▸ hx) (hword ▸ hc)]
  exact h

lemma Dated.keep {b : Bool} (h : Dated { e with keepTTL := b } rest e1) : Dated e rest e1 := by
  obtain ⟨e', hopts, heq⟩ := h
  rw [options_keep, map_eq_some_iff] at hopts
  obtain ⟨e'', hopts, rfl⟩ := hopts
  exact ⟨e'', hopts, heq⟩

lemma Dated.compare {operand : Bytes} {mode : CompareMode} (hx : expireOpt? (toUpper word) = none)
    (hc : compareMode? (toUpper word) = some mode) (h : Dated e rest e1) : Dated e (word :: operand :: rest) e1 := by
  rw [Dated, setDeadlines_compare hx hc]
  exact h

lemma Dated.single (h : Dated {} words e1) (hd : setDeadlines words = [(x, n)])
    (hk : e1.keepTTL = false) : option {} x n = some e1 := by
  obtain ⟨e', hopts, heq⟩ := h
  rw [hd, options, foldlM_cons] at hopts
  rcases ho : option {} x n with _ | e'' <;> simp only [ho] at hopts
  · cases hopts
  obtain rfl : e'' = e' := by simpa using hopts
  have hk' : e''.keepTTL = false := option_keepTTL ho
  rw [heq, hk, ← hk']

end

lemma setOptions_dated {o o1 : SetOpts} (h : setOptions words o = .ok o1) : Dated o.expiry words o1.expiry := by
  fun_induction setOptions words o
  case case1 => cases h; exact .nil _
  case case2 | case3 | case4 | case10 | case11 | case12 => cases h
  case case5 hx _ _ _ hn _ ho ih => exact .deadline hx hn ho (ih h)
  case case6 hw ih | case7 hw ih | case8 hw ih => exact .plain hw (by decide) (by decide) (ih h)
  case case9 hw ih => exact .plain hw (by decide) (by decide) (.keep (ih h))
  case case13 hx _ _ _ _ _ hc _ _ _ ih => exact .compare hx hc (ih h)

lemma msetexOptions_dated {o o1 : MsetexOpts} (h : msetexOptions words o = .ok o1) :
    Dated o.expiry words o1.expiry := by
  fun_induction msetexOptions words o
  case case1 => cases h; exact .nil _
  case case2 hw ih | case3 hw ih => exact .plain hw (by decide) (by decide) (ih h)
  case case5 hw _ ih => exact .plain hw (by decide) (by decide) (.keep (ih h))
  case case11 hx _ _ _ _ hn _ ho ih => exact .deadline hx hn ho (ih h)
  all_goals cases h

/-! ## What is stored -/

variable {ctx : Context} {db : Keyspace} {c : TimedCmd} {argv : Argv} {x : ExpireOpt} {n : Int} {key : Bytes}

/-- The deadline that `SetWithExpire`, or `Set` and then `SetExpireAt`, stores. -/
def storedBySet (now : Clock) (x : ExpireOpt) (n : Int) : Int :=
  match x with
  | .ex => (now.ns + wrap64 (n * 10 ^ 9)) / 10 ^ 6
  | .px => (now.ns + wrap64 (n * 10 ^ 6)) / 10 ^ 6
  | .exat => max (wrap64 (n * 1000)) 0
  | .pxat => max n 0

def TimedCmd.stores (c : TimedCmd) (now : Clock) (x : ExpireOpt) (n : Int) : Int :=
  match c with
  | set | setex | psetex | msetex => storedBySet now x n
  | getex => (getexDeadline now x n).getD 0
  | _ => x.absMs now.ms n

lemma Expiry.option_deadline {e : Expiry} (h : option {} x n = some e) (now : Clock) (old : Int) :
    e.deadline now old = storedBySet now x n := by
  have hmax : ∀ m : Int, (if 0 < m then m else if false = true then old else 0) = max m 0 := by
    intro m
    rw [if_neg Bool.false_ne_true]
    split_ifs <;> omega
  cases x with
  | ex | px =>
    rw [option] at h
    split_ifs at h
    cases h
    rfl
  | exat | pxat =>
    cases h
    exact hmax _

lemma msetexArgs_options {argv : Argv} {pairs : List (Bytes × Bytes)} {o : MsetexOpts}
    (h : msetexArgs argv = .ok (pairs, o)) : msetexOptions (msetexWords argv) {} = .ok o := by
  unfold msetexArgs at h
  unfold msetexWords
  rcases hn : parseInt (argv.getD 1 []) with _ | numKeys <;> rw [hn] at h
  · cases h
  simp only at h
  split_ifs at h
  rw [getD_some]
  rcases ho : msetexOptions ((argv.drop 2).drop (numKeys.toNat * 2)) {} with e | o' <;> rw [ho] at h
  · cases h
  simp only at h
  split_ifs at h
  cases h
  rfl

lemma setex_lookup {unit : Int} {val : Bytes} (hn : parseInt num = some n)
    (hr : ¬ (n ≤ 0 ∨ ¬ validExpireMillis ((wrap64 (n * unit)).tdiv (10 ^ 6)))) :
    (setexGeneric unit ctx [name, key, num, val] db).db.lookup key =
      some ⟨.str val, (ctx.now.ns + wrap64 (n * unit)) / 10 ^ 6⟩ := by
  simp only [setexGeneric, getD_cons_succ, getD_cons_zero, hn, if_neg hr]
  exact (Becomes.insert db key _).at_key

lemma expire_lookup {cmd : String} {opts : List Bytes} {o : ExpireOpts} {e : Entry}
    (hreads : ExpireReads x num opts n o) (hlive : db.live key ctx.now.ms = some e)
    (hr : o.refuses (currentDeadline ctx.now db key) (x.absMs ctx.now.ms n) = false) :
    (expireGeneric x cmd ctx (name :: key :: num :: opts) db).db.lookup key = some ⟨e.val, x.absMs ctx.now.ms n⟩ := by
  obtain ⟨-, hset⟩ := setExpireAt_spec db ctx.now key (x.absMs ctx.now.ms n)
  rw [expireGeneric_reads hreads, has_eq, hlive, hr]
  rw [hlive] at hset
  exact hset.at_key

lemma getex_lookup {word b : Bytes} {exp d : Int} (hlive : db.live key ctx.now.ms = some ⟨.str b, d⟩)
    (hx : expireOpt? (toUpper word) = some x) (hn : parseInt num = some n) (hexp : getexDeadline ctx.now x n = some exp) :
    (getexCommand ctx [name, key, word, num] db).db.lookup key = some ⟨.str b, exp⟩ := by
  have hpersist : toUpper word ≠ ascii "PERSIST" := by
    intro h
    rw [h, show expireOpt? (ascii "PERSIST") = none by decide] at hx
    cases hx
  obtain ⟨-, hset⟩ := setExpireAt_spec db ctx.now key exp
  rw [hlive] at hset
  simp only [getexCommand, getD_cons_succ, getD_cons_zero, get_of_live hlive, drop_succ_cons,
    drop_zero, getexOptions, if_neg hpersist, hn, hx, hexp]
  exact hset.at_key

lemma Asks.lookup (h : Asks ctx db c argv x n key) :
    ∃ v, (c.handler ctx argv db).db.lookup key = some ⟨v, c.stores ctx.now x n⟩ := by
  cases h with
  | @set name _ val words o reply _ _ options deadline keepTTL compatible writes =>
    have hopt := (setOptions_dated options).single deadline keepTTL
    have hstore := o.expiry.store_spec ctx.now key val (db.get ctx.now key).1
    rw [Expiry.option_deadline hopt] at hstore
    refine ⟨.str val, ?_⟩
    show (setCommand ctx (name :: key :: val :: words) db).db.lookup key = _
    rw [setCommand_reads options compatible, writes]
    exact hstore.at_key
  | setex number inRange => exact ⟨_, setex_lookup number inRange⟩
  | psetex number inRange => exact ⟨_, setex_lookup number inRange⟩
  | @getex name _ word num b _ _ exp d live option number accepted =>
    refine ⟨.str b, ?_⟩
    rw [TimedCmd.stores, accepted, getD_some]
    exact getex_lookup live option number accepted
  | @msetex _ pairs o _ v _ _ args deadline keepTTL writes stored =>
    have hopt := (msetexOptions_dated (msetexArgs_options args)).single deadline keepTTL
    refine ⟨.str v, ?_⟩
    show (msetexCommand ctx argv db).db.lookup key = _
    rw [msetexCommand_lookup args, MsetexOpts.left, writes, if_neg Bool.false_ne_true, Expiry.stored, stored,
      Expiry.option_deadline hopt]
    rfl
  | expire reads live accepted => exact ⟨_, expire_lookup reads live accepted⟩
  | pexpire reads live accepted => exact ⟨_, expire_lookup reads live accepted⟩
  | expireat reads live accepted => exact ⟨_, expire_lookup reads live accepted⟩
  | pexpireat reads live accepted => exact ⟨_, expire_lookup reads live accepted⟩

/-! ## When it is exact -/

/-- What a command asks of the number it accepts. -/
def TimedCmd.Accepts (c : TimedCmd) (now : Clock) (x : ExpireOpt) (n : Int) : Prop :=
  match c with
  | set | setex | psetex | msetex => x = .ex ∨ x = .px → 0 < n
  | getex => (getexDeadline now x n).isSome
  | _ => x.inRange n

lemma Expiry.option_accepts {e : Expiry} (h : option {} x n = some e) : x = .ex ∨ x = .px → 0 < n := by
  rintro (rfl | rfl)
  all_goals
    rw [option] at h
    split_ifs at h with hbad
    exact not_le.1 fun hle => hbad (.inl hle)

lemma Asks.accepts (h : Asks ctx db c argv x n key) : c.Accepts ctx.now x n := by
  cases h with
  | set options deadline keepTTL compatible writes =>
    exact option_accepts ((setOptions_dated options).single deadline keepTTL)
  | setex number inRange => exact fun _ => not_le.1 fun hle => inRange (.inl hle)
  | psetex number inRange => exact fun _ => not_le.1 fun hle => inRange (.inl hle)
  | getex live option number accepted => exact isSome_iff_exists.2 ⟨_, accepted⟩
  | msetex args deadline keepTTL writes stored =>
    exact option_accepts ((msetexOptions_dated (msetexArgs_options args)).single deadline keepTTL)
  | expire reads live accepted => exact reads.inRange
  | pexpire reads live accepted => exact reads.inRange
  | expireat reads live accepted => exact reads.inRange
  | pexpireat reads live accepted => exact reads.inRange

/-- When the stored deadline is the one asked for, and not the zero that stands for none. -/
def TimedCmd.ExactWhen (c : TimedCmd) (now : Clock) (x : ExpireOpt) (n : Int) : Prop :=
  match c, x with
  | set, .exat | setex, .exat | psetex, .exat | msetex, .exat => 0 < n ∧ 1000 * n < 2 ^ 63
  | set, .pxat | setex, .pxat | psetex, .pxat | msetex, .pxat => 0 < n
  | set, .ex | setex, .ex | psetex, .ex | msetex, .ex | getex, .ex => n * 10 ^ 9 < 2 ^ 63
  | set, .px | setex, .px | psetex, .px | msetex, .px | getex, .px => n * 10 ^ 6 < 2 ^ 63
  | _, .exat => n ≠ 0 ∧ InInt64 (1000 * n)
  | _, .pxat => n ≠ 0
  | _, .ex => now.ms + 1000 * n ≠ 0
  | _, .px => now.ms + n ≠ 0

lemma storedBySet_exact_iff (now : Clock) (hpos : x = .ex ∨ x = .px → 0 < n) :
    storedBySet now x n = x.exactMs now.ms n ∧ x.exactMs now.ms n ≠ 0 ↔ TimedCmd.set.ExactWhen now x n := by
  cases x with
  | ex | px =>
    have hn := hpos (by simp)
    simp only [storedBySet, exactMs, TimedCmd.ExactWhen, wrap64, Clock.ms]
    omega
  | exat =>
    have hself := @wrap64_of_inInt64 (n * 1000)
    have hin := wrap64_inInt64 (n * 1000)
    simp only [storedBySet, exactMs, TimedCmd.ExactWhen]
    unfold InInt64 at hself hin
    omega
  | pxat =>
    simp only [storedBySet, exactMs, TimedCmd.ExactWhen]
    omega

lemma tdiv_million_cases (w : Int) :
    (0 ≤ w ∧ w.tdiv (10 ^ 6) = w / 10 ^ 6) ∨ (w < 0 ∧ w.tdiv (10 ^ 6) = -(-w / 10 ^ 6)) := by
  rcases le_or_gt 0 w with h | h
  · exact .inl ⟨h, Int.tdiv_eq_ediv_of_nonneg h⟩
  · refine .inr ⟨h, ?_⟩
    rw [← Int.tdiv_eq_ediv_of_nonneg (by omega), Int.neg_tdiv, neg_neg]

section
variable (hnow : now.ms < 2 ^ 45)
include hnow

lemma setExpire_exact_iff {m : Int} (hpos : 0 < m) :
    wrap64 (now.ms + (wrap64 (m * 10 ^ 6)).tdiv (10 ^ 6)) = now.ms + m ↔ m * 10 ^ 6 < 2 ^ 63 := by
  have hself := @wrap64_of_inInt64 (m * 10 ^ 6)
  have hin := wrap64_inInt64 (m * 10 ^ 6)
  generalize wrap64 (m * 10 ^ 6) = w at hself hin ⊢
  have hdiv := tdiv_million_cases w
  unfold InInt64 at hself hin
  -- the sum is far from the bounds of `int64`
  rw [wrap64_of_inInt64 (by unfold InInt64; omega)]
  omega

lemma getexDeadline_exact_iff {exp : Int} (h : getexDeadline now x n = some exp) :
    exp = x.exactMs now.ms n ∧ x.exactMs now.ms n ≠ 0 ↔ TimedCmd.getex.ExactWhen now x n := by
  cases x with
  | ex =>
    rw [getexDeadline] at h
    split_ifs at h with hbad
    obtain rfl := some.inj h
    have hexact := setExpire_exact_iff hnow (m := 1000 * n) (by omega)
    rw [show 1000 * n * 10 ^ 6 = n * 10 ^ 9 by ring] at hexact
    simp only [exactMs, TimedCmd.ExactWhen, hexact]
    omega
  | px =>
    rw [getexDeadline] at h
    split_ifs at h with hbad
    obtain rfl := some.inj h
    have hn : 0 < n := not_le.1 fun hle => hbad (.inl hle)
    simp only [exactMs, TimedCmd.ExactWhen, setExpire_exact_iff hnow hn]
    omega
  | exat =>
    rw [getexDeadline] at h
    split_ifs at h
    obtain rfl := some.inj h
    have hself := @wrap64_of_inInt64 (n * 1000)
    have hin := wrap64_inInt64 (n * 1000)
    simp only [exactMs, TimedCmd.ExactWhen]
    unfold InInt64 at *
    omega
  | pxat =>
    cases h
    simp [exactMs, TimedCmd.ExactWhen]

lemma absMs_exact_iff (hr : x.inRange n = true) :
    x.absMs now.ms n = x.exactMs now.ms n ∧ x.exactMs now.ms n ≠ 0 ↔ TimedCmd.expire.ExactWhen now x n := by
  cases x with
  | ex =>
    have hmax : maxExpireMillis.tdiv 1000 = 70368744177 ∧ (-maxExpireMillis).tdiv 1000 = -70368744177 := by decide
    simp only [inRange, validExpireSeconds, hmax, decide_eq_true_eq, not_or, not_lt] at hr
    simp only [absMs, exactMs, TimedCmd.ExactWhen]
    rw [wrap64_of_inInt64 (by unfold InInt64; omega)]
    omega
  | px =>
    have hmax : n ≤ 2 ^ 46 ∧ -2 ^ 46 ≤ n := of_decide_eq_true hr
    simp only [absMs, exactMs, TimedCmd.ExactWhen]
    rw [wrap64_of_inInt64 (by unfold InInt64; omega)]
    omega
  | exat =>
    have hself := @wrap64_of_inInt64 (n * 1000)
    have hin := wrap64_inInt64 (n * 1000)
    simp only [absMs, exactMs, TimedCmd.ExactWhen]
    unfold InInt64 at *
    omega
  | pxat => simp [absMs, exactMs, TimedCmd.ExactWhen]

lemma TimedCmd.stores_exact_iff (h : c.Accepts now x n) :
    c.stores now x n = x.exactMs now.ms n ∧ x.exactMs now.ms n ≠ 0 ↔ c.ExactWhen now x n := by
  cases c with
  | set => exact storedBySet_exact_iff now h
  | setex | psetex | msetex => cases x <;> exact storedBySet_exact_iff now h
  | getex =>
    obtain ⟨exp, hexp⟩ := isSome_iff_exists.1 h
    rw [TimedCmd.stores, hexp, getD_some]
    exact getexDeadline_exact_iff hnow hexp
  | _ => cases x <;> exact absMs_exact_iff hnow h

end

/-- The deadline of an accepted call is exact, and hides a key that is past it, exactly if no conversion
wraps and it does not come to zero or, for `SET` and `MSETEX`, below. -/
theorem deadline_exact_iff (hnow : ctx.now.ms < 2 ^ 45) (h : Asks ctx db c argv x n key) :
    HasDeadline ctx.now (x.exactMs ctx.now.ms n) (c.handler ctx argv db).db key ↔ c.ExactWhen ctx.now x n := by
  obtain ⟨v, hlookup⟩ := h.lookup
  rw [hasDeadline_iff hlookup]
  exact TimedCmd.stores_exact_iff hnow h.accepts

/-- `SETEX k 10 v` at the start of 1970. -/
theorem setex_ten_exact : HasDeadline Clock.zero 10000
      (setexCommand (openContext Clock.zero) [ascii "SETEX", ascii "k", ascii "10", ascii "v"] ∅).db (ascii "k") :=
  (@deadline_exact_iff (openContext Clock.zero) ∅ .setex _ .ex 10 _ (by decide) (.setex (by decide) (by decide))).2
    (show (10 : Int) * 10 ^ 9 < 2 ^ 63 by decide)

/-- `SETEX k 9223372037 v` is accepted and stores a deadline in the past; `EXPIREAT k 0` is accepted and
leaves the key without a deadline, so that it stays visible. -/
theorem deadline_wraps_or_vanishes :
    (setexCommand (openContext Clock.zero) [ascii "SETEX", ascii "k", ascii "9223372037", ascii "v"] ∅).reply = ok ∧
      ¬ HasDeadline Clock.zero (Clock.zero.ms + 1000 * 9223372037)
        (setexCommand (openContext Clock.zero) [ascii "SETEX", ascii "k", ascii "9223372037", ascii "v"] ∅).db
        (ascii "k") ∧ (expireatCommand (openContext Clock.zero) [ascii "EXPIREAT", ascii "k", ascii "0"]
        (Finmap.singleton (ascii "k") ⟨.str (ascii "v"), 0⟩)).reply = integer 1 ∧
      ¬ HasDeadline Clock.zero (1000 * 0) (expireatCommand (openContext Clock.zero)
        [ascii "EXPIREAT", ascii "k", ascii "0"] (Finmap.singleton (ascii "k") ⟨.str (ascii "v"), 0⟩)).db (ascii "k") := by
  refine ⟨by decide, ?_, by decide, ?_⟩
  · rw [setexCommand, hasDeadline_iff (setex_lookup (n := 9223372037) (by decide) (by decide))]
    decide
  · rw [hasDeadline_iff (v := .str (ascii "v")) (d := 0) (by decide)]
    decide

end Gopherdis.Command

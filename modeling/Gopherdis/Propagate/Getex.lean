/-
Replaying `GETEX`. The handler applies one option after the other and may fail after some of them; the
propagated form is made from the first option alone, and only if there was no error.
-/
import Gopherdis.Propagate.Agree

namespace Gopherdis.Command

open Lib Codec Object Store List

/-! ## The options -/

/-- How the walk over the options ends: with the last of them, at a `PERSIST`, or with an error. -/
inductive GetexEnd
  | done
  | persist
  | refused
deriving DecidableEq, Repr

/-- The deadlines the options set, in their order, and how the walk ends. -/
def getexWalk (now : Clock) : List Bytes → List Int × GetexEnd
  | [] => ([], .done)
  | word :: rest =>
    if toUpper word = ascii "PERSIST" then ([], .persist)
    else
      match rest with
      | [] => ([], .refused)
      | num :: rest =>
      match parseInt num with
      | none => ([], .refused)
      | some n =>
      match expireOpt? (toUpper word) with
      | none => ([], .refused)
      | some x =>
        match getexDeadline now x n with
        | none => ([], .refused)
        | some exp => (exp :: (getexWalk now rest).1, (getexWalk now rest).2)

/-- A key that is still live gets another deadline. -/
def redate (ms : Int) (e : Option Entry) (exp : Int) : Option Entry :=
  (liveEntry ms e).map fun e => { e with expireAt := exp }

/-- The entry after the options. -/
def getexLeft (now : Clock) (words : List Bytes) (e : Option Entry) : Option Entry :=
  let e := (getexWalk now words).1.foldl (redate now.ms) e
  if (getexWalk now words).2 = .persist then e.map fun e => if e.expired now.ms then e else { e with expireAt := 0 }
  else e

section
variable {now : Clock} {word num : Bytes} {rest words : List Bytes} {n : Int} {x : ExpireOpt} {exp : Int}

lemma getexWalk_persist (hword : toUpper word = ascii "PERSIST") : getexWalk now (word :: rest) = ([], .persist) := by
  unfold getexWalk
  rw [if_pos hword]

lemma getexWalk_cons (hword : toUpper word ≠ ascii "PERSIST") (hn : parseInt num = some n)
    (hx : expireOpt? (toUpper word) = some x) (hexp : getexDeadline now x n = some exp) :
    getexWalk now (word :: num :: rest) = (exp :: (getexWalk now rest).1, (getexWalk now rest).2) := by
  conv_lhs => unfold getexWalk
  simp [if_neg hword, hn, hx, hexp]

lemma getexLeft_cons (h : getexWalk now words = (exp :: (getexWalk now rest).1, (getexWalk now rest).2))
    (e : Option Entry) : getexLeft now words e = getexLeft now rest (redate now.ms e exp) := by
  simp [getexLeft, h, foldl_cons]

lemma getexLeft_refused (h : getexWalk now words = ([], .refused)) (e : Option Entry) : getexLeft now words e = e := by
  simp [getexLeft, h]

end

lemma getexOptions_spec (now : Clock) (key : Bytes) {out : Bytes} (hout : succeeded out = true) (words : List Bytes)
    (db : Keyspace) : Becomes db key (getexOptions now key out words db).db (getexLeft now words (db.lookup key)) ∧
      succeeded (getexOptions now key out words db).reply = decide ((getexWalk now words).2 ≠ .refused) ∧
      (getexOptions now key out words db).override = none := by
  have hrefused : ∀ {words : List Bytes} {db : Keyspace} {e : Bytes}, getexWalk now words = ([], .refused) →
      succeeded e = false → Becomes db key db (getexLeft now words (db.lookup key)) ∧
        succeeded e = decide ((getexWalk now words).2 ≠ .refused) ∧ (none : Option (Option Argv)) = none := by
    intro words db e hw he
    refine ⟨?_, by rw [he, hw]; rfl, rfl⟩
    rw [getexLeft_refused hw]
    exact Becomes.keep rfl
  fun_induction getexOptions now key out words db
  case case1 => exact ⟨Becomes.keep rfl, hout, rfl⟩
  case case2 hword =>
    refine ⟨?_, by rw [hout, getexWalk_persist hword]; rfl, rfl⟩
    simp only [getexLeft, getexWalk_persist hword, foldl_nil, if_true]
    exact persist_spec _ now key
  case case3 hword => exact hrefused (by unfold getexWalk; rw [if_neg hword]) rfl
  case case4 hword num rest hn => exact hrefused (by unfold getexWalk; simp only [if_neg hword, hn]) rfl
  case case5 hword num rest n hn hx => exact hrefused (by unfold getexWalk; simp only [if_neg hword, hn, hx]) rfl
  case case6 hword num rest n hn x hx hexp =>
    exact hrefused (by unfold getexWalk; simp only [if_neg hword, hn, hx, hexp]) rfl
  case case7 db hword num rest n hn x hx exp hexp ih =>
    obtain ⟨hdb, hs, hov⟩ := ih
    have hw := @getexWalk_cons now _ num rest n x exp hword hn hx hexp
    obtain ⟨-, hset⟩ := setExpireAt_spec db now key exp
    refine ⟨?_, by rw [hs, hw], hov⟩
    rw [getexLeft_cons hw]
    rw [hset.at_key] at hdb
    exact hset.trans hdb

/-! ## The replay -/

/-- What the propagated form shows at `now'`, where the key would have shown `e`. -/
def getexSent (now now' : Clock) (words : List Bytes) (e : Option Entry) : Option Entry :=
  match words with
  | word :: rest =>
    if toUpper word = ascii "PERSIST" then e.map fun e => { e with expireAt := 0 }
    else
      match rest with
      | [] => e
      | num :: _ =>
      match parseInt num, expireOpt? (toUpper word) with
      | some n, some x =>
        if x.absMs now.ms n ≤ now.ms then none
        else liveEntry now'.ms (e.map fun e => { e with expireAt := x.absMs now.ms n })
      | _, _ => e
  | [] => e

lemma getexSent_none (now now' : Clock) (words : List Bytes) : getexSent now now' words none = none := by
  unfold getexSent
  repeat' split
  all_goals rfl

lemma replay_propagateDeadline (E : Env) (now now' : Clock) (db : Keyspace) (key : Bytes) {n : Int} (hn : InInt64 n) :
    Shows db key now'.ms (replayOne E now' baseTable db (propagateDeadline now.ms key n)) (if n ≤ now.ms then none
        else liveEntry now'.ms ((db.live key now'.ms).map fun e => { e with expireAt := n })) := by
  unfold propagateDeadline
  split_ifs
  · exact replay_del E now' db key _
  · exact replay_pexpireat E now' db key hn

lemma replay_normalizeGetex (E : Env) (now now' : Clock) (db : Keyspace) (name key : Bytes) (words : List Bytes) :
    Shows db key now'.ms (replayAll E now' baseTable db (normalizeGetex now.ms (name :: key :: words)).toList)
      (getexSent now now' words (db.live key now'.ms)) := by
  have hself := Shows.self db key now'.ms
  rcases words with _ | ⟨word, rest⟩
  · exact hself
  simp only [normalizeGetex, getexSent]
  by_cases hword : toUpper word = ascii "PERSIST"
  · rw [if_pos hword, if_pos hword]
    exact replay_persist E now' db key
  rw [if_neg hword, if_neg hword]
  rcases rest with _ | ⟨num, rest⟩
  · exact hself
  simp only
  rcases hn : parseInt num with _ | n
  · exact hself
  rcases expireOpt? (toUpper word) with _ | x
  · exact hself
  exact replay_propagateDeadline E now now' db key (x.absMs_inInt64 now.ms (parseInt_inInt64 hn))

/-- When a `GETEX` is replayed: what the options left has run out by `now'`, or it is what the
propagated form shows, which is made from the first option; after an error there is none. -/
def GetexSafe (now now' : Clock) (db : Keyspace) (key : Bytes) (words : List Bytes) : Prop :=
  ∀ b exp, db.live key now.ms = some ⟨.str b, exp⟩ →
    let left := getexLeft now words (some ⟨.str b, exp⟩)
    let shown := liveEntry now'.ms (some ⟨.str b, exp⟩)
    left.any (·.expired now'.ms) = true ∨
      (if (getexWalk now words).2 = .refused then shown else getexSent now now' words shown) = left

lemma getex_replayed_iff {ctx : Context} {now' : Clock} {db : Keyspace} {name key : Bytes} {words : List Bytes}
    (hsinks : ctx.sinks = true) (hle : ctx.now.ms ≤ now'.ms) :
    Replayed getexCmd getexCommand ctx now' (name :: key :: words) db ↔ GetexSafe ctx.now now' db key words := by
  have hle' : (ctx.now.ms : Int) ≤ now'.ms := by exact_mod_cast hle
  obtain ⟨-, hget⟩ := get_spec db ctx.now key
  have hp : ∀ reply, succeeded reply = true → propagated ctx getexCmd (name :: key :: words) reply none =
      normalizeGetex ctx.now.ms (name :: key :: words) := fun reply hs => propagated_success rfl hsinks hs none
  have hsent := replay_normalizeGetex ctx.E ctx.now now' db name key words
  unfold GetexSafe
  rcases hlive : db.live key ctx.now.ms with _ | ⟨v, exp⟩
  · -- there is no key, now or later
    refine iff_of_true ?_ (by simp)
    have hout : getexCommand ctx (name :: key :: words) db = ⟨(db.get ctx.now key).1, nullBulkString, none⟩ := by
      simp only [getexCommand, getD_cons_succ, getD_cons_zero]
      rw [get_of_dead hlive]
    rw [hlive] at hget
    rw [live_later hle', hlive, liveEntry_none, getexSent_none] at hsent
    exact (replayed_iff hout (hp _ rfl) hget hsent).2 (.inr rfl)
  have hg := get_of_live hlive
  cases v with
  | str b =>
    have hout : getexCommand ctx (name :: key :: words) db = getexOptions ctx.now key (bulkString b) words db := by
      simp [getexCommand, hg, drop_succ_cons, drop_zero]
    obtain ⟨hdb, hs, hov⟩ := getexOptions_spec ctx.now key (succeeded_bulkString b) words db
    rw [lookup_of_live hlive] at hdb
    simp only [Option.some.injEq, Entry.mk.injEq, Value.str.injEq, and_imp, forall_eq', forall_apply_eq_imp_iff]
    by_cases hend : (getexWalk ctx.now words).2 = .refused
    · rw [if_pos hend]
      have hnone : propagated ctx getexCmd (name :: key :: words) _ _ = none :=
        propagated_error (by rw [hs, hend]; rfl) (getexOptions ctx.now key (bulkString b) words db).override
      rw [replayed_iff hout hnone hdb (Shows.self db key now'.ms), live_later hle', hlive]
    rw [if_neg hend]
    have hfed := hp _ (hs.trans (decide_eq_true hend))
    rw [← hov] at hfed
    rw [replayed_iff hout hfed hdb hsent, live_later hle', hlive]
  | _ =>
    refine iff_of_true ?_ (by simp)
    have hout : getexCommand ctx (name :: key :: words) db = ⟨db, wrongType, none⟩ := by
      simp [getexCommand, hg]
    exact replayed_error hout rfl rfl

end Gopherdis.Command

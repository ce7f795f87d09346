/-
When a replay agrees with the call: at a later clock reading every key that has not passed its
deadline on the master has the same value and deadline on the replica, or is absent from both. For a
command that touches one key only that key has to be looked at.
-/
import Gopherdis.Command.Collections

namespace Gopherdis.Command

open Lib Codec Object Store

/-! ## Agreement -/

/-- Up to the keys past their deadline on the master, `r` shows at `ms` what the master holds. -/
def Agrees (ms : Int) (db r : Keyspace) : Prop :=
  ∀ k, (db.lookup k).any (·.expired ms) = false → r.live k ms = db.lookup k

/-- `r` differs from `db` at most at `key`, where it shows `e` at `ms`. -/
structure Shows (db : Keyspace) (key : Bytes) (ms : Int) (r : Keyspace) (e : Option Entry) : Prop where
  at_key : r.live key ms = e
  frame : ∀ k, k ≠ key → r.lookup k = db.lookup k

section
variable {db db' r : Keyspace} {key : Bytes} {ms : Int} {e e' : Option Entry}

lemma Becomes.shows (h : Becomes db key r e) (ms : Int) : Shows db key ms r (liveEntry ms e) :=
  ⟨by rw [live_eq, h.at_key], h.frame⟩

lemma Shows.self (db : Keyspace) (key : Bytes) (ms : Int) : Shows db key ms db (db.live key ms) :=
  ⟨rfl, fun _ _ => rfl⟩

lemma liveEntry_of_not_expired (h : e.any (·.expired ms) = false) : liveEntry ms e = e := by
  rcases e with _ | e
  · rfl
  · rw [liveEntry_some, show e.expired ms = false from h]
    rfl

lemma liveEntry_eq_some_iff {x : Entry} (hx : x.expired ms = false) : liveEntry ms e = some x ↔ e = some x := by
  constructor
  · exact fun h => (Option.filter_eq_some_iff.1 h).1
  · rintro rfl
    rw [liveEntry_some, hx]
    rfl

lemma expired_or_shown_iff {x : Entry} :
    (some x).any (·.expired ms) = true ∨ liveEntry ms e = some x ↔ x.expired ms = true ∨ e = some x := by
  cases hx : x.expired ms with
  | true => simp [hx]
  | false => simp [hx, liveEntry_eq_some_iff hx]

lemma agrees_self (ms : Int) (db : Keyspace) : Agrees ms db db := fun _ h => liveEntry_of_not_expired h

lemma agrees_iff (h : Becomes db key db' e) (h' : Shows db key ms r e') :
    Agrees ms db' r ↔ e.any (·.expired ms) = true ∨ e' = e := by
  constructor
  · intro hagrees
    have hkey := hagrees key
    rw [h.at_key, h'.at_key] at hkey
    cases hx : e.any (·.expired ms) with
    | true => exact .inl rfl
    | false => exact .inr (hkey hx)
  · rintro hkey k hk
    by_cases heq : k = key
    · subst heq
      rw [h.at_key] at hk ⊢
      rw [h'.at_key]
      exact hkey.resolve_left (by simp [hk])
    · rw [live_eq, h'.frame k heq, ← h.frame k heq]
      exact liveEntry_of_not_expired hk

variable {ms' : Int}

lemma liveEntry_later (hle : ms ≤ ms') (e : Option Entry) : liveEntry ms' e = liveEntry ms' (liveEntry ms e) := by
  rcases e with _ | e
  · rfl
  cases hx : e.expired ms with
  | true => simp [liveEntry_some, hx, Entry.expired_mono hle hx]
  | false => simp [liveEntry_some, hx]

lemma live_later (hle : ms ≤ ms') (db : Keyspace) (key : Bytes) :
    db.live key ms' = liveEntry ms' (db.live key ms) := liveEntry_later hle _

lemma agrees_live (hle : ms ≤ ms') (h : Becomes db key db' (db.live key ms)) : Agrees ms' db' db := by
  rw [agrees_iff h (Shows.self db key ms'), live_later hle]
  cases hx : (db.live key ms).any (·.expired ms') with
  | true => exact .inl rfl
  | false => exact .inr (liveEntry_of_not_expired hx)

end

/-! ## The replay of a call -/

/-- The replay at `now'` of what a command propagates agrees with the command. -/
def Replayed (c : Command) (f : Context → Argv → Keyspace → Outcome) (ctx : Context) (now' : Clock) (argv : Argv)
    (db : Keyspace) : Prop :=
  Agrees now'.ms (f ctx argv db).db (replayAll ctx.E now' baseTable db
    (propagated ctx c argv (f ctx argv db).reply (f ctx argv db).override).toList)

section
variable {c : Command} {f : Context → Argv → Keyspace → Outcome} {ctx : Context} {argv : Argv} {db : Keyspace}
  {now' : Clock}

lemma execute_replayed {tx : Option TxState} (hrun : dispatch ctx baseTable argv (.start db tx) = .inr c)
    (hf : c.handler = onKeyspace f) : Agrees now'.ms (execute ctx baseTable argv (.start db tx)).2.db
        (replayAll ctx.E now' baseTable db (execute ctx baseTable argv (.start db tx)).2.fed) ↔
      Replayed c f ctx now' argv db := by
  obtain ⟨-, hdb, hfed⟩ := run_onKeyspace hf ctx argv db tx
  rw [execute_inr hrun, hdb, hfed, Replayed]

variable {out : Outcome}

lemma replayed_not_fed (hout : f ctx argv db = out) (hp : propagated ctx c argv out.reply out.override = none) :
    Replayed c f ctx now' argv db ↔ Agrees now'.ms out.db db := by
  rw [Replayed, hout, hp]
  rfl

lemma propagated_error {reply : Bytes} (h : succeeded reply = false) (override : Option (Option Argv)) :
    propagated ctx c argv reply override = none := by
  rw [propagated, h, if_neg (by simp)]

lemma replayed_error (hout : f ctx argv db = out) (h : succeeded out.reply = false) (hdb : out.db = db) :
    Replayed c f ctx now' argv db := by
  rw [replayed_not_fed hout (propagated_error h _), hdb]
  exact agrees_self _ _

lemma replayed_iff (hout : f ctx argv db = out) {key : Bytes} {e e' : Option Entry} {p : Option Argv}
    (hp : propagated ctx c argv out.reply out.override = p) (h : Becomes db key out.db e)
    (h' : Shows db key now'.ms (replayAll ctx.E now' baseTable db p.toList) e') :
    Replayed c f ctx now' argv db ↔ e.any (·.expired now'.ms) = true ∨ e' = e := by
  rw [Replayed, hout, hp]
  exact agrees_iff h h'

lemma replayed_fed (hout : f ctx argv db = out) {key : Bytes} {e e' : Option Entry} {p : Argv}
    (hp : propagated ctx c argv out.reply out.override = some p) (h : Becomes db key out.db e)
    (h' : Shows db key now'.ms (replayOne ctx.E now' baseTable db p) e') :
    Replayed c f ctx now' argv db ↔ e.any (·.expired now'.ms) = true ∨ e' = e := replayed_iff hout hp h h'

lemma propagated_success {reply : Bytes} (hw : c.isWrite = true) (hsinks : ctx.sinks = true)
    (hs : succeeded reply = true) (override : Option (Option Argv)) : propagated ctx c argv reply override =
      override.getD (normalizeForPropagation ctx.E ctx.now.ms c.name argv reply) := by
  rw [propagated, if_pos ⟨hw, hs, hsinks⟩]

end

/-! ## The commands other commands are propagated as -/

section
variable (E : Env) (now : Clock) (db : Keyspace) (key : Bytes)

lemma delCommand_becomes (ctx : Context) (name : Bytes) : Becomes db key (delCommand ctx [name, key] db).db none :=
  del_spec db ctx.now key

lemma replay_del (ms : Int) : Shows db key ms (replayOne E now baseTable db [ascii "DEL", key]) none := by
  rw [replayOne_eq rfl rfl (List.cons_ne_nil _ _) rfl]
  exact Becomes.shows (delCommand_becomes db key _ _) ms

lemma replay_serverDel (ms : Int) : Shows db key ms (replayOne E now baseTable db [serverDelVerb E, key]) none := by
  unfold serverDelVerb
  split_ifs
  · rw [replayOne_eq rfl rfl (List.cons_ne_nil _ _) rfl]
    exact Becomes.shows (delCommand_becomes db key _ _) ms
  · exact replay_del E now db key ms

lemma replay_pexpireat {n : Int} (hn : InInt64 n) :
    Shows db key now.ms (replayOne E now baseTable db [ascii "PEXPIREAT", key, formatInt n])
      (liveEntry now.ms ((db.live key now.ms).map fun e => { e with expireAt := n })) := by
  rw [replayOne_pexpireat E now db key hn, has_eq]
  rcases hlive : db.live key now.ms with _ | e
  · exact ⟨hlive, fun _ _ => rfl⟩
  have h := Becomes.shows (setExpireAt_spec db now key n).2 now.ms
  rw [hlive] at h
  exact h

lemma replay_persist : Shows db key now.ms (replayOne E now baseTable db [ascii "PERSIST", key])
      ((db.live key now.ms).map fun e => { e with expireAt := 0 }) := by
  have h := Becomes.shows (persist_spec db now key) now.ms
  refine ⟨?_, h.frame⟩
  refine h.at_key.trans ?_
  rw [live_eq]
  rcases db.lookup key with _ | e
  · rfl
  · cases hx : e.expired now.ms <;> simp [liveEntry_some, hx]

end

end Gopherdis.Command

/-
When the string and expiry commands are replayed faithfully: for each of them a condition on its
arguments, the keyspace before the call and the two clock readings.
-/
import Gopherdis.Propagate.Expire
import Gopherdis.Propagate.Getex
import Gopherdis.Propagate.Msetex
import Gopherdis.Propagate.Restore
import Gopherdis.Propagate.Set

namespace Gopherdis.Command

open Lib Codec Object Store

variable {argv : Argv} {c : Command}

/-- The string and expiry commands. -/
inductive TimedCmd
  | set
  | setex
  | psetex
  | getex
  | getdel
  | expire
  | pexpire
  | expireat
  | pexpireat
  | msetex
  | restore
deriving DecidableEq, Repr

namespace TimedCmd

def command : TimedCmd → Command
  | set => setCmd
  | setex => setexCmd
  | psetex => psetexCmd
  | getex => getexCmd
  | getdel => getdelCmd
  | expire => expireCmd
  | pexpire => pexpireCmd
  | expireat => expireatCmd
  | pexpireat => pexpireatCmd
  | msetex => msetexCmd
  | restore => restoreCmd

def handler : TimedCmd → Context → Argv → Keyspace → Outcome
  | set => setCommand
  | setex => setexCommand
  | psetex => psetexCommand
  | getex => getexCommand
  | getdel => getdelCommand
  | expire => expireCommand
  | pexpire => pexpireCommand
  | expireat => expireatCommand
  | pexpireat => pexpireatCommand
  | msetex => msetexCommand
  | restore => restoreCommand

lemma command_handler (c : TimedCmd) : c.command.handler = onKeyspace c.handler := by
  cases c <;> rfl

/-- When a replay at `now'` agrees with the call. -/
def Safe (c : TimedCmd) (ctx : Context) (now' : Clock) (db : Keyspace) (argv : Argv) : Prop :=
  let arg (i : Nat) : Bytes := argv.getD i []
  match c with
  | set => SetSafe ctx now' db (arg 1) (arg 2) (argv.drop 3)
  | setex => SetexSafe .ex (10 ^ 9) ctx.now now' (arg 2)
  | psetex => SetexSafe .px (10 ^ 6) ctx.now now' (arg 2)
  | getex => GetexSafe ctx.now now' db (arg 1) (argv.drop 2)
  | getdel => True
  | expire => ExpireSafe .ex ctx.now now' db (arg 1) (arg 2) (argv.drop 3)
  | pexpire => ExpireSafe .px ctx.now now' db (arg 1) (arg 2) (argv.drop 3)
  | expireat => ExpireSafe .exat ctx.now now' db (arg 1) (arg 2) (argv.drop 3)
  | pexpireat => ExpireSafe .pxat ctx.now now' db (arg 1) (arg 2) (argv.drop 3)
  | msetex => MsetexSafe ctx.now now' db argv
  | restore => RestoreSafe ctx.E ctx.now now' db (arg 1) (arg 2) (arg 3) (argv.drop 4)

end TimedCmd

/-! ## Arity -/

lemma exists_two (h : 2 ≤ argv.length) : ∃ name key rest, argv = name :: key :: rest := by
  obtain _ | ⟨name, _ | ⟨key, rest⟩⟩ := argv
  · simp at h
  · simp at h
  · exact ⟨name, key, rest, rfl⟩

lemma exists_three (h : 3 ≤ argv.length) : ∃ name key num rest, argv = name :: key :: num :: rest := by
  obtain ⟨name, key, rest, rfl⟩ := exists_two (Nat.le_of_succ_le h)
  obtain _ | ⟨num, rest⟩ := rest
  · simp at h
  · exact ⟨name, key, num, rest, rfl⟩

lemma exists_four (h : 4 ≤ argv.length) : ∃ name key num val rest, argv = name :: key :: num :: val :: rest := by
  obtain ⟨name, key, num, rest, rfl⟩ := exists_three (Nat.le_of_succ_le h)
  obtain _ | ⟨val, rest⟩ := rest
  · simp at h
  · exact ⟨name, key, num, val, rest, rfl⟩

lemma arityOk_min {n : Nat} (h : c.arityOk n = true) (k : Nat) (hc : c.arity = -(k + 1 : Nat)) : k + 1 ≤ n := by
  simp only [Command.arityOk, hc, decide_eq_true_eq] at h
  omega

lemma arityOk_exact {n : Nat} (h : c.arityOk n = true) (k : Nat) (hc : c.arity = (k + 1 : Nat)) : n = k + 1 := by
  simp only [Command.arityOk, hc, decide_eq_true_eq] at h
  omega

/-! ## The commands together -/

section
variable {ctx : Context} {now' : Clock} {argv : Argv} {db : Keyspace}

lemma expireCmd_replayed_iff {x : ExpireOpt} {cmd : String} (hsinks : ctx.sinks = true)
    (hle : ctx.now.ms ≤ now'.ms) (hw : c.isWrite = true) (hf : c.handler = onKeyspace (expireGeneric x cmd))
    (hnorm : ∀ argv reply, normalizeForPropagation ctx.E ctx.now.ms c.name argv reply =
      some (normalizeExpire x ctx.now.ms argv reply)) (hc : c.arity = -3)
    (hl : baseTable.lookup (argv.headD []) = some c) (ha : c.arityOk argv.length = true) :
    Replayed c (expireGeneric x cmd) ctx now' argv db ↔
      ExpireSafe x ctx.now now' db (argv.getD 1 []) (argv.getD 2 []) (argv.drop 3) := by
  obtain ⟨name, key, num, opts, rfl⟩ := exists_three (arityOk_min ha 2 hc)
  exact expire_replayed_iff hsinks hle hw hf hnorm hl ha

lemma setexCmd_replayed_iff {x : ExpireOpt} {unit : Int} (hsinks : ctx.sinks = true)
    (hw : c.isWrite = true) (hnorm : ∀ argv reply, normalizeForPropagation ctx.E ctx.now.ms c.name argv reply =
      some (normalizeSetex x ctx.now.ms argv)) (hc : c.arity = 4) (ha : c.arityOk argv.length = true) :
    Replayed c (setexGeneric unit) ctx now' argv db ↔ SetexSafe x unit ctx.now now' (argv.getD 2 []) := by
  have hlen := arityOk_exact ha 3 hc
  obtain ⟨name, key, num, val, rest, rfl⟩ := exists_four hlen.ge
  obtain rfl : rest = [] := List.length_eq_zero_iff.1 (by simpa using hlen)
  exact setex_replayed_iff hsinks hw hnorm

lemma replayed_iff_safe (c : TimedCmd) (hsinks : ctx.sinks = true) (hle : ctx.now.ms ≤ now'.ms)
    (hl : baseTable.lookup (argv.headD []) = some c.command) (ha : c.command.arityOk argv.length = true) (hne : argv ≠ []) :
    Replayed c.command c.handler ctx now' argv db ↔ c.Safe ctx now' db argv := by
  cases c with
  | set =>
    obtain ⟨name, key, val, words, rfl⟩ := exists_three (arityOk_min ha 2 rfl)
    exact set_replayed_iff hsinks hle hl
  | setex | psetex => exact setexCmd_replayed_iff hsinks rfl (fun _ _ => rfl) rfl ha
  | getex =>
    obtain ⟨name, key, words, rfl⟩ := exists_two (arityOk_min ha 1 rfl)
    exact getex_replayed_iff hsinks hle
  | getdel => exact iff_of_true (getdel_replayed hsinks hle argv) trivial
  | expire | pexpire | expireat => exact expireCmd_replayed_iff hsinks hle rfl rfl (fun _ _ => rfl) rfl hl ha
  | pexpireat => exact expireCmd_replayed_iff hsinks hle rfl rfl (fun _ _ => rfl) rfl hl ha
  | msetex => exact msetex_replayed_iff hsinks hl ha hne
  | restore =>
    obtain ⟨name, key, num, payload, opts, rfl⟩ := exists_four (arityOk_min ha 3 rfl)
    exact restore_replayed_iff hsinks hle hl

/-- A string or expiry command is replayed at a later clock exactly if, where it is run, it is safe. -/
theorem timed_propagation_iff {tx : Option TxState} (c : TimedCmd) (hsinks : ctx.sinks = true)
    (hle : ctx.now.ns ≤ now'.ns) (hl : baseTable.lookup (argv.headD []) = some c.command) :
    Agrees now'.ms (execute ctx baseTable argv (.start db tx)).2.db
        (replayAll ctx.E now' baseTable db (execute ctx baseTable argv (.start db tx)).2.fed) ↔
      (dispatch ctx baseTable argv (.start db tx) = .inr c.command → c.Safe ctx now' db argv) := by
  rcases hrun : dispatch ctx baseTable argv (.start db tx) with r | c'
  · obtain ⟨hfed, hdb⟩ := dispatch_inl hrun
    refine ⟨fun _ h => (by cases h), fun _ => ?_⟩
    rw [execute, hrun]
    show Agrees _ r.2.db (replayAll _ _ _ db r.2.fed)
    rw [hdb, hfed]
    exact agrees_self _ _
  · obtain ⟨hl', ha, hne⟩ := dispatch_inr hrun
    obtain rfl := Option.some.inj (hl'.symm.trans hl)
    rw [execute_replayed hrun c.command_handler,
      replayed_iff_safe c hsinks (Nat.div_le_div_right hle) hl ha hne]
    exact ⟨fun h _ => h, fun h => h rfl⟩

end

/-- `SET k v EX 10`, replayed a second later. -/
theorem set_ex_replayed : Agrees (Clock.ms ⟨2 * 10 ^ 9, by decide⟩)
      (execute (openContext ⟨10 ^ 9, by decide⟩) baseTable [ascii "SET", ascii "k", ascii "v", ascii "EX", ascii "10"]
        (.start ∅ none)).2.db (replayAll Env.bits ⟨2 * 10 ^ 9, by decide⟩ baseTable ∅
        (execute (openContext ⟨10 ^ 9, by decide⟩) baseTable
          [ascii "SET", ascii "k", ascii "v", ascii "EX", ascii "10"] (.start ∅ none)).2.fed) := by
  refine (timed_propagation_iff .set rfl (by decide) rfl).2 fun _ o ho _ => ?_
  have hread : setOptions [ascii "EX", ascii "10"] {} = .ok ⟨⟨some (10 ^ 10), 0, false⟩, false, false, false, none⟩ := by
    rw [setOptions, show expireOpt? (toUpper (ascii "EX")) = some .ex by decide]
    simp [show parseInt (ascii "10") = some 10 by decide, show Expiry.option {} .ex 10 = some ⟨some (10 ^ 10), 0, false⟩ by decide, setOptions]
  obtain rfl := Except.ok.inj (hread.symm.trans ho)
  exact .inr (by decide)

/-- A `SET k w NX` that was refused overwrites the key on replay. -/
theorem refused_set_nx_not_replayed : ¬ Agrees (Clock.ms ⟨0, by decide⟩)
      (execute (openContext ⟨0, by decide⟩) baseTable [ascii "SET", ascii "k", ascii "w", ascii "NX"]
        (.start (Finmap.singleton (ascii "k") ⟨.str (ascii "v"), 0⟩) none)).2.db
      (replayAll Env.bits ⟨0, by decide⟩ baseTable (Finmap.singleton (ascii "k") ⟨.str (ascii "v"), 0⟩)
        (execute (openContext ⟨0, by decide⟩) baseTable [ascii "SET", ascii "k", ascii "w", ascii "NX"]
          (.start (Finmap.singleton (ascii "k") ⟨.str (ascii "v"), 0⟩) none)).2.fed) := by
  have hread : setOptions [ascii "NX"] {} = .ok ⟨{}, true, false, false, none⟩ := by
    simp [setOptions]
    decide
  rw [show Env.bits = (openContext ⟨0, by decide⟩).E from rfl, execute_replayed rfl rfl,
    set_replayed_iff rfl (by decide) rfl]
  intro h
  exact absurd (h _ hread (by simp [SetOpts.conflict]) rfl rfl) (by decide)

end Gopherdis.Command

/-
`Execute`: a command is looked up, checked, queued inside a transaction or else run, and what it did
is fed to the append-only file and the replicas. A handler changes the session; a script's handler
does so by executing commands itself, on the same session.
-/
import Gopherdis.Propagate.Normalize

namespace Gopherdis.Command

open Lib Codec Object Store List

/-- What a call reads and does not change: the environment and the clock, the protocol of the
connection, the permissions of its user, the cluster's redirections, and whether there is an
append-only file or replication to feed. -/
structure Context where
  E : Env
  now : Clock
  resp3 : Bool
  canExecute : Bytes → Bool
  moved : Bytes → Option Bytes
  sinks : Bool

variable (E : Env) (now : Clock)

/-- The context replayed commands run in: `Context{DB: db}`. -/
def replayContext : Context := ⟨E, now, false, fun _ => true, fun _ => none, false⟩

/-- A context that lets every command through and feeds what it does. -/
def openContext : Context := ⟨Env.bits, now, false, fun _ => true, fun _ => none, true⟩

structure TxState where
  inMulti : Bool
  queuedCmds : List Argv
  dirtyCAS : Bool
deriving DecidableEq, Repr

/-- What a call changes: the keyspace, the transaction, what the handler wants propagated in place of
the command (if it says so), and the commands fed so far. -/
structure Session where
  db : Keyspace
  tx : Option TxState
  override : Option (Option Argv)
  fed : List Argv

def Session.start (db : Keyspace) (tx : Option TxState) : Session := ⟨db, tx, none, []⟩

/-- A command of the table; `arity` as the source has it, negative for a minimum. -/
structure Command where
  name : Bytes
  arity : Int
  isWrite : Bool
  handler : Context → Argv → Session → Bytes × Session

abbrev Table := List Command

def Table.lookup (t : Table) (name : Bytes) : Option Command := t.find? fun c => c.name = toLowerASCII name

def Command.arityOk (c : Command) (argc : Nat) : Bool :=
  ¬ (0 < c.arity ∧ (argc : Int) ≠ c.arity) ∧ ¬ (c.arity < 0 ∧ (argc : Int) < -c.arity)

/-! ## The checks -/

variable (s : Session)

def Session.inMulti : Bool := s.tx.any TxState.inMulti

/-- A command that could not be queued spoils the transaction. -/
def Session.spoil : Session :=
  if s.inMulti then { s with tx := s.tx.map fun t => { t with dirtyCAS := true } } else s

def Session.enqueue (argv : Argv) : Session :=
  { s with tx := s.tx.map fun t => { t with queuedCmds := t.queuedCmds ++ [argv] } }

def txControl : List Bytes := [ascii "exec", ascii "discard", ascii "multi", ascii "watch"]

def clusterExempt : List Bytes := [ascii "cluster", ascii "auth", ascii "ping", ascii "info", ascii "quit"]

variable (ctx : Context)

def Context.permits (c : Command) : Bool := c.name = ascii "auth" || ctx.canExecute c.name

def Context.redirect (c : Command) (argv : Argv) : Option Bytes :=
  if c.name ∈ clusterExempt then none else (argv.drop 1).head?.bind ctx.moved

/-- The reply of a command that is not run, with the session it leaves; otherwise the command. -/
def dispatch (t : Table) (argv : Argv) (s : Session) : (Bytes × Session) ⊕ Command :=
  match argv with
  | [] => .inl (error (ascii "empty command"), s)
  | name :: _ =>
  match t.lookup name with
  | none => .inl (error (ascii "unknown command '" ++ name ++ ascii "'"), s.spoil)
  | some c =>
  if ¬ c.arityOk argv.length then
    .inl (error (ascii "wrong number of arguments for '" ++ c.name ++ ascii "' command"), s.spoil)
  else if ¬ ctx.permits c then
    .inl (ascii "-NOPERM this user has no permissions to run the '" ++ c.name ++ ascii "' command\r\n", s)
  else
    match ctx.redirect c argv with
    | some reply => .inl (reply, s)
    | none => if s.inMulti ∧ c.name ∉ txControl then .inl (queued, s.enqueue argv) else .inr c

/-! ## Running and feeding -/

/-- What reaches the sinks after the handler of a write command has replied. -/
def propagated (c : Command) (argv : Argv) (reply : Bytes) (override : Option (Option Argv)) :
    Option Argv :=
  if c.isWrite ∧ succeeded reply ∧ ctx.sinks then
    override.getD (normalizeForPropagation ctx.E ctx.now.ms c.name argv reply)
  else none

def Command.run (c : Command) (argv : Argv) (s : Session) : Bytes × Session :=
  let r := c.handler ctx argv { s with override := none }
  (r.1, { r.2 with fed := r.2.fed ++ (propagated ctx c argv r.1 r.2.override).toList })

def execute (t : Table) (argv : Argv) (s : Session) : Bytes × Session :=
  match dispatch ctx t argv s with
  | .inl r => r
  | .inr c => c.run ctx argv s

/-! ## Handlers of the keyspace -/

/-- What a handler that only touches the keyspace does: the keyspace, the reply, and its override. -/
structure Outcome where
  db : Keyspace
  reply : Bytes
  override : Option (Option Argv) := none

def onKeyspace (f : Context → Argv → Keyspace → Outcome) (ctx : Context) (argv : Argv) (s : Session) :
    Bytes × Session :=
  let o := f ctx argv s.db
  (o.reply, { s with db := o.db, override := o.override.orElse fun _ => s.override })

/-! ## Replaying -/

def replayOne (t : Table) (db : Keyspace) (argv : Argv) : Keyspace :=
  (execute (replayContext E now) t argv (.start db none)).2.db

def replayAll (t : Table) (db : Keyspace) (cmds : List Argv) : Keyspace :=
  cmds.foldl (replayOne E now t) db

/-! ## What is run, and what is fed -/

section
variable {ctx : Context} {t : Table} {argv : Argv} {s : Session} {c : Command}

section
variable (hlookup : t.lookup (argv.headD []) = some c) (hargs : argv ≠ []) (harity : c.arityOk argv.length = true)
include hlookup hargs harity

lemma dispatch_permitted (hperm : ctx.permits c = true) :
    (∀ reply, ctx.redirect c argv = some reply → dispatch ctx t argv s = .inl (reply, s)) ∧
      (ctx.redirect c argv = none → dispatch ctx t argv s =
          if s.inMulti ∧ c.name ∉ txControl then .inl (queued, s.enqueue argv) else .inr c) := by
  obtain ⟨name, rest, rfl⟩ := exists_cons_of_ne_nil hargs
  have hl : t.lookup name = some c := hlookup
  simp only [dispatch, hl, harity, hperm, not_true_eq_false, if_false]
  constructor
  · intro reply hr
    rw [hr]
  · intro hr
    rw [hr]

end

lemma dispatch_inr (h : dispatch ctx t argv s = .inr c) :
    t.lookup (argv.headD []) = some c ∧ c.arityOk argv.length = true ∧ argv ≠ [] := by
  unfold dispatch at h
  cases argv with
  | nil => cases h
  | cons name rest =>
  simp only at h
  cases hl : t.lookup name with
  | none => rw [hl] at h; cases h
  | some c' =>
  rw [hl] at h
  simp only at h
  by_cases ha : c'.arityOk (name :: rest).length = true
  · have hc : c' = c := by
      split_ifs at h <;> split at h <;> first | exact Sum.inr.inj h | cases h
    exact hc ▸ ⟨hl, ha, cons_ne_nil _ _⟩
  · rw [if_pos ha] at h
    cases h

lemma dispatch_inl {r : Bytes × Session} (h : dispatch ctx t argv s = .inl r) : r.2.fed = s.fed ∧ r.2.db = s.db := by
  have hspoil : s.spoil.fed = s.fed ∧ s.spoil.db = s.db := by
    unfold Session.spoil
    split_ifs <;> exact ⟨rfl, rfl⟩
  unfold dispatch at h
  (repeat' split at h) <;> first
    | (cases h; exact hspoil)
    | (cases h; exact ⟨rfl, rfl⟩)
    | cases h

lemma execute_inr (h : dispatch ctx t argv s = .inr c) : execute ctx t argv s = c.run ctx argv s := by
  rw [execute, h]

lemma dispatch_replay (hl : t.lookup (argv.headD []) = some c) (ha : c.arityOk argv.length = true)
    (hne : argv ≠ []) (E : Env) (now : Clock) (db : Keyspace) :
    dispatch (replayContext E now) t argv (.start db none) = .inr c := by
  obtain ⟨name, rest, rfl⟩ := exists_cons_of_ne_nil hne
  rw [headD_cons] at hl
  have hredirect : (replayContext E now).redirect c (name :: rest) = none := by
    unfold Context.redirect
    split_ifs
    · rfl
    · cases rest <;> rfl
  simp only [dispatch, hl, ha, hredirect]
  simp [Context.permits, replayContext, Session.inMulti, Session.start]

variable {f : Context → Argv → Keyspace → Outcome}

lemma replayOne_eq (hl : t.lookup (argv.headD []) = some c)
    (ha : c.arityOk argv.length = true) (hne : argv ≠ []) (hf : c.handler = onKeyspace f) (E : Env) (now : Clock)
    (db : Keyspace) : replayOne E now t db argv = (f (replayContext E now) argv db).db := by
  rw [replayOne, execute_inr (dispatch_replay hl ha hne E now db), Command.run, hf]
  rfl

lemma run_onKeyspace (hf : c.handler = onKeyspace f) (ctx : Context)
    (argv : Argv) (db : Keyspace) (tx : Option TxState) : (c.run ctx argv (.start db tx)).1 = (f ctx argv db).reply ∧
      (c.run ctx argv (.start db tx)).2.db = (f ctx argv db).db ∧ (c.run ctx argv (.start db tx)).2.fed =
        (propagated ctx c argv (f ctx argv db).reply (f ctx argv db).override).toList := by
  rw [Command.run, hf]
  refine ⟨rfl, rfl, ?_⟩
  simp only [onKeyspace, Session.start, nil_append]
  cases (f ctx argv db).override <;> rfl

end

end Gopherdis.Command

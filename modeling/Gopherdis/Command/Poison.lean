/-
Rejected commands and their transaction. Between `MULTI` and `EXEC` a request is queued, or answered
with an error at once. An unknown command and a wrong number of arguments mark the transaction, and
`EXEC` then refuses it; a missing permission and a redirection leave no mark.
-/
import Gopherdis.Command.TxLock

namespace Gopherdis.Command

open Lib Codec Object Store Gopherdis.Stream List Registered

variable {r : Registered} {d : Bool}

/-! ## Refusals -/

inductive Refusal
  | unknown
  | arity
  | noperm
  | moved
deriving DecidableEq, Repr

/-- Why a request is answered with an error before it comes to be queued or run. -/
def refusal (t : List PlainCommand) (ctx : Context) (argv : Argv) : Option Refusal :=
  match argv with
  | [] => none
  | name :: _ =>
  match lookupRegistered (txTable t) name with
  | none => some .unknown
  | some r =>
    if ¬ r.command.arityOk argv.length then some .arity
    else if ¬ ctx.permits r.command then some .noperm
    else (ctx.redirect r.command argv).map fun _ => .moved

/-- The refusals that `Execute` notes in the transaction. -/
def Refusal.noted : Refusal → Bool
  | .unknown | .arity => true
  | .noperm | .moved => false

section
variable {t : List PlainCommand} {ctx : Context} {argv : Argv} {s : Session}

lemma dispatchTx_inMulti (t : List PlainCommand) (ctx : Context) (argv : Argv) (hm : s.inMulti = true) :
    (∃ f reply, refusal t ctx argv = some f ∧ dispatchTx t ctx argv s = .inl (reply, if f.noted then s.spoil else s)) ∨
      (refusal t ctx argv = none ∧ dispatchTx t ctx argv s = .inl (queued, s.enqueue argv)) ∨
      (refusal t ctx argv = none ∧ ∃ r, dispatchTx t ctx argv s = .inr r ∧ r.name ∈ txControl) ∨
      (refusal t ctx argv = none ∧ dispatchTx t ctx argv s = .inl (error (ascii "empty command"), s)) := by
  cases argv with
  | nil => exact .inr (.inr (.inr ⟨rfl, rfl⟩))
  | cons name rest =>
  simp only [refusal, dispatchTx, dispatch, lookup_map_command, headD_cons]
  cases hl : lookupRegistered (txTable t) name with
  | none => exact .inl ⟨.unknown, _, rfl, rfl⟩
  | some r =>
  simp only [Option.map_some, Option.getD_some]
  by_cases ha : r.command.arityOk (name :: rest).length = true
  · rw [if_neg (not_not.2 ha), if_neg (not_not.2 ha)]
    by_cases hp : ctx.permits r.command = true
    · rw [if_neg (not_not.2 hp), if_neg (not_not.2 hp)]
      cases hr : ctx.redirect r.command (name :: rest) with
      | some reply => exact .inl ⟨.moved, reply, rfl, rfl⟩
      | none =>
      by_cases hc : r.name ∈ txControl
      · have hc' : ¬ (s.inMulti = true ∧ r.command.name ∉ txControl) := fun h => h.2 hc
        simp only [if_neg hc']
        exact .inr (.inr (.inl ⟨rfl, r, rfl, hc⟩))
      have hc' : s.inMulti = true ∧ r.command.name ∉ txControl := ⟨hm, hc⟩
      simp only [if_pos hc']
      exact .inr (.inl ⟨rfl, trivial⟩)
    · rw [if_pos hp, if_pos hp]
      exact .inl ⟨.noperm, _, rfl, rfl⟩
  · rw [if_pos ha, if_pos ha]
    exact .inl ⟨.arity, _, rfl, rfl⟩

end

/-! ## A mark is made only inside a transaction -/

/-- A transaction that is marked is open. -/
def Session.Clean (s : Session) : Prop := ∀ tx, s.tx = some tx → tx.dirtyCAS = true → tx.inMulti = true

section
variable {t : List PlainCommand} {ctx : TxContext} {argv : Argv} {s : Session} {c c' : Conn} {reply : Bytes}
  {eng : Engine} {call : Argv → Conn → CallResult} {h : Halt}

lemma Session.Clean.tx (hs : c.session.Clean) : c.tx.dirtyCAS = true → c.tx.inMulti = true := by
  unfold Conn.tx
  cases htx : c.session.tx with
  | none => exact nofun
  | some tx => exact hs tx htx

lemma clean_setTx {tx : TxState} (h : tx.dirtyCAS = true → tx.inMulti = true) : (c.setTx tx).session.Clean := by
  intro tx' htx'
  cases htx'
  exact h

lemma clean_reset : c.reset.session.Clean := clean_setTx nofun

lemma Session.Clean.spoil (hs : s.Clean) : s.spoil.Clean := by
  unfold Session.spoil
  split_ifs with hm
  · intro tx htx _
    obtain ⟨tx0, htx0, rfl⟩ := Option.map_eq_some_iff.1 htx
    simpa [Session.inMulti, htx0] using hm
  · exact hs

lemma Session.Clean.enqueue (hs : s.Clean) : (s.enqueue argv).Clean := by
  intro tx htx hd
  obtain ⟨tx0, htx0, rfl⟩ := Option.map_eq_some_iff.1 htx
  exact hs tx0 htx0 hd

lemma dispatch_inl_clean {ctx : Context} {t : Table} {r : Bytes × Session} (hs : s.Clean)
    (hd : dispatch ctx t argv s = .inl r) : r.2.Clean := by
  unfold dispatch at hd
  (repeat' split at hd) <;> first
    | (cases hd; exact hs)
    | (cases hd; exact hs.spoil)
    | (cases hd; exact hs.enqueue)
    | cases hd

lemma Session.Clean.of_tx {s' : Session} (hs : s.Clean) (h : s'.tx = s.tx) : s'.Clean := fun tx htx =>
  hs tx (h ▸ htx)

lemma xreadWait_tx (q : XreadQuery) : ∀ (wakes : List (Clock × Keyspace)) {c : Conn},
    xreadWait q wakes c = .ok (reply, c') → c'.session.tx = c.session.tx
  | [], c, hr => by
    rw [xreadWait] at hr
    split_ifs at hr
    cases acquire_then_ok hr
    rfl
  | (now, db) :: wakes, c, hr => by
    have hr := acquire_then_ok hr
    rcases hf : xreadFetch now q.count q.streams db with ⟨db', results⟩
    simp only [hf] at hr
    split_ifs at hr
    · have := xreadWait_tx q wakes hr
      exact this
    · cases hr
      rfl

lemma xreadCommand_tx (hr : xreadCommand ctx argv c = .ok (reply, c')) : c'.session.tx = c.session.tx := by
  rcases hq : xreadQuery ctx.now argv c.session.db with ⟨db, (_ | e) | q⟩
  · simp only [xreadCommand, hq] at hr
    cases hr
  · simp only [xreadCommand, hq] at hr
    cases hr
    rfl
  rcases hf : xreadFetch ctx.now q.count q.streams db with ⟨db', results⟩
  simp only [xreadCommand, hq, hf] at hr
  split_ifs at hr
  · cases hr
    rfl
  · cases hr
    rfl
  · have := xreadWait_tx q ctx.wakes hr
    exact this

/-- Calls that return leave a clean session clean. -/
def KeepsClean (call : Argv → Conn → CallResult) : Prop :=
  ∀ argv c reply c', c.session.Clean → call argv c = .ok (reply, c') → c'.session.Clean

lemma callAll_clean (hcall : KeepsClean call) : ∀ (cmds : List Argv) {c c' : Conn} {replies : List Bytes},
    c.session.Clean → callAll call c cmds = .ok (replies, c') → c'.session.Clean
  | [], c, c', replies, hc, hr => by
    cases hr
    exact hc
  | argv :: rest, c, c', replies, hc, hr => by
    cases hcr : call argv c with
    | error h =>
      rw [callAll_cons_error hcr] at hr
      cases hr
    | ok x =>
      rw [callAll_cons_ok hcr] at hr
      obtain ⟨y, hrest, hy⟩ := map_eq_ok hr
      cases hy
      exact callAll_clean hcall rest (hcall argv c x.1 x.2 hc hcr) hrest

lemma scriptCommand_clean (hcall : KeepsClean call) {cmd : String} {find : Argv → Except Bytes Script}
    (hc : c.session.Clean) (hr : scriptCommand cmd find call argv c = .ok (reply, c')) : c'.session.Clean := by
  unfold scriptCommand at hr
  cases hargs : scriptArgs cmd argv with
  | error e =>
    rw [hargs] at hr
    cases hr
    exact hc
  | ok a =>
  rw [hargs] at hr
  have hr := acquire_then_ok hr
  cases hf : find argv with
  | error e =>
    rw [hf] at hr
    cases hr
    exact hc
  | ok script =>
  rw [hf] at hr
  obtain ⟨x, hall, hx⟩ := map_eq_ok hr
  cases hx
  have := callAll_clean hcall script.calls (c := { c with lock := .exclusive, inTxExecution := true }) hc hall
  exact this.of_tx rfl

section
variable (hc : c.session.Clean)
include hc

lemma execCommand_clean (hr : execCommand call ctx c = .ok (reply, c')) : c'.session.Clean := by
  unfold execCommand at hr
  split_ifs at hr
  · have hr := acquire_then_ok hr
    cases hv : execVerdict ctx.version { c with lock := .exclusive } with
    | inl e =>
      rw [hv] at hr
      cases hr
      exact clean_reset
    | inr queued =>
      rw [hv] at hr
      obtain ⟨x, -, hx⟩ := map_eq_ok hr
      cases hx
      exact clean_reset
  · cases hr
    exact hc

lemma multiCommand_clean : (multiCommand c).2.session.Clean := by
  unfold multiCommand
  split_ifs
  · exact clean_setTx hc.tx
  · exact clean_setTx fun _ => rfl

lemma discardCommand_clean : (discardCommand c).2.session.Clean := by
  unfold discardCommand
  split_ifs
  · exact clean_reset
  · exact hc

lemma watchCommand_clean : (watchCommand ctx.version argv c).2.session.Clean := by
  unfold watchCommand
  split_ifs <;> exact clean_setTx hc.tx

lemma unwatchCommand_clean : (unwatchCommand c).2.session.Clean := by
  unfold unwatchCommand
  split
  · exact hc
  · exact clean_setTx nofun

end

lemma handle_clean (hcall : KeepsClean call) {b : Body} (hc : c.session.Clean)
    (hr : b.handle call eng ctx argv c = .ok (reply, c')) : c'.session.Clean := by
  have hsnd : ∀ {x : Bytes × Conn}, x.2.session.Clean → (.ok x : CallResult) = .ok (reply, c') → c'.session.Clean := by
    rintro x hx ⟨⟩
    exact hx
  cases b with
  | plain run locks =>
    rw [Body.handle] at hr
    split_ifs at hr
    cases hr
    exact hc.of_tx rfl
  | multi => exact hsnd (multiCommand_clean hc) hr
  | discard => exact hsnd (discardCommand_clean hc) hr
  | watch => exact hsnd (watchCommand_clean hc) hr
  | unwatch => exact hsnd (unwatchCommand_clean hc) hr
  | exec => exact execCommand_clean hc hr
  | eval | evalsha => exact scriptCommand_clean hcall hc hr
  | xread => exact hc.of_tx (xreadCommand_tx hr)

lemma run_clean (hcall : KeepsClean call) (hc : c.session.Clean)
    (hr : r.run call eng ctx argv c = .ok (reply, c')) : c'.session.Clean := by
  have hfeed : ∀ {c₁ c₂ : Conn} {reply₂}, c₁.session.Clean → r.handleAndFeed call eng ctx argv c₁ = .ok (reply₂, c₂) →
      c₂.session.Clean := by
    intro c₁ c₂ reply₂ h1 hr2
    obtain ⟨x, hh, hx⟩ := map_eq_ok hr2
    cases hx
    have hx : x.2.session.Clean := handle_clean hcall (c := c₁.fresh) (h1.of_tx rfl) hh
    exact hx.of_tx rfl
  rw [run] at hr
  split_ifs at hr
  · exact hfeed hc hr
  obtain ⟨x, hh, hx⟩ := map_eq_ok (acquire_then_ok hr)
  cases hx
  have hx : x.2.session.Clean := @hfeed { c with lock := .shared } x.2 x.1 hc hh
  exact hx.of_tx rfl

lemma executeTx_clean : ∀ n, KeepsClean (executeTx eng t n ctx)
  | 0 => by
    intro argv c reply c' _ hr
    cases hr
  | n + 1 => by
    intro argv c reply c' hc hr
    rw [executeTx] at hr
    cases hd : dispatchTx t ctx.toContext argv c.session with
    | inl x =>
      rw [hd] at hr
      cases hr
      exact dispatch_inl_clean hc (dispatchTx_inl.1 hd)
    | inr r =>
      rw [hd] at hr
      exact run_clean (executeTx_clean n) hc hr

lemma serveAll_clean : ∀ (reqs : List Request) {c c' : Conn}, c.session.Clean → c.serveAll eng t reqs = .ok c' →
    c'.session.Clean
  | [], c, c', hc, hr => by
    cases hr
    exact hc
  | r :: rs, c, c', hc, hr => by
    obtain ⟨reply, c₁, hs, hr⟩ := serveAll_cons_ok hr
    exact serveAll_clean rs (executeTx_clean 2 r.argv (c.setDB r.db) reply c₁ (hc.of_tx rfl) hs) hr

/-! ## Between MULTI and EXEC -/

/-- A connection between requests, inside a transaction that is marked or not. -/
structure Conn.Open (c : Conn) (dirty : Bool) : Prop where
  idle : c.Idle
  tx : ∃ tx, c.session.tx = some tx ∧ tx.inMulti = true ∧ tx.dirtyCAS = dirty

open Conn

/-- The request is refused, and that is noted. -/
def poisons (t : List PlainCommand) (ctx : Context) (argv : Argv) : Bool := (refusal t ctx argv).any Refusal.noted

/-- The request is an `EXEC` or a `DISCARD` that is not refused. -/
def Closes (t : List PlainCommand) (ctx : Context) (argv : Argv) : Prop :=
  refusal t ctx argv = none ∧ toLowerASCII (argv.headD []) ∈ [ascii "exec", ascii "discard"]

lemma Conn.Open.inMulti (ho : c.Open d) : c.session.inMulti = true := by
  obtain ⟨tx, htx, hm, -⟩ := ho.tx
  simp [Session.inMulti, htx, hm]

lemma Conn.Open.spoil (ho : c.Open d) : { c with session := c.session.spoil }.Open true := by
  obtain ⟨tx, htx, hm, -⟩ := ho.tx
  refine ⟨ho.idle.withSession _, { tx with dirtyCAS := true }, ?_, hm, rfl⟩
  rw [Session.spoil, if_pos ho.inMulti, htx]
  rfl

lemma control_body (hr : r ∈ ownTable) (hc : r.name ∈ txControl)
    (hn : r.name ∉ [ascii "exec", ascii "discard"]) : r.body = .multi ∨ r.body = .watch := by
  simp only [ownTable, mem_cons, not_mem_nil, or_false] at hr
  rcases hr with rfl | rfl | rfl | rfl | rfl | rfl | rfl | rfl <;> first
    | exact .inl rfl
    | exact .inr rfl
    | exact absurd hc (by decide)
    | exact absurd (by decide) hn

lemma run_control (ho : c.Open d) {name : Bytes}
    (hl : lookupRegistered (txTable t) name = some r) (hc : r.name ∈ txControl)
    (hn : toLowerASCII name ∉ [ascii "exec", ascii "discard"]) :
    ∃ reply c', r.run call eng ctx argv c = .ok (reply, c') ∧ c'.Open d := by
  obtain ⟨tx, htx, hm, hd⟩ := ho.tx
  have htx' : (fresh { c with lock := .shared }).tx = tx := by simp [Conn.tx, fresh, htx]
  obtain ⟨hr, hname⟩ | ⟨p, -, rfl, hp⟩ := lookup_txTable hl
  · obtain hb | hb := control_body hr hc (hname ▸ hn)
    · have hh : r.body.handle call eng ctx argv (fresh { c with lock := .shared }) =
          .ok (nestedMulti, (fresh { c with lock := .shared }).setTx tx) := by
        rw [hb, Body.handle, multiCommand, htx', if_pos hm]
      rw [run_operating_eq ho.idle hl (by rw [hb]; rfl), hh]
      exact ⟨_, _, rfl, ⟨rfl, ho.idle.inTx⟩, tx, rfl, hm, hd⟩
    have hh : r.body.handle call eng ctx argv (fresh { c with lock := .shared }) =
        .ok (watchInsideMulti, (fresh { c with lock := .shared }).setTx tx) := by
      rw [hb, Body.handle, watchCommand, htx', if_pos hm]
    rw [run_operating_eq ho.idle hl (by rw [hb]; rfl), hh]
    exact ⟨_, _, rfl, ⟨rfl, ho.idle.inTx⟩, tx, rfl, hm, hd⟩
  · have hown : ∀ n ∈ txControl, n ∈ ownTable.map Registered.name := by decide
    exact absurd (hown _ hc) hp

lemma executeTx_open (eng : Engine) (ho : c.Open d) (hn : ¬ Closes t ctx.toContext argv) :
    ∃ reply c', executeTx eng t 2 ctx argv c = .ok (reply, c') ∧ c'.Open (d || poisons t ctx.toContext argv) := by
  rw [executeTx]
  obtain ⟨f, reply, hf, hd⟩ | ⟨hf, hd⟩ | ⟨hf, r, hd, hr⟩ | ⟨hf, hd⟩ :=
    dispatchTx_inMulti t ctx.toContext argv ho.inMulti
  · refine ⟨reply, { c with session := if f.noted then c.session.spoil else c.session }, by rw [hd], ?_⟩
    have hp : poisons t ctx.toContext argv = f.noted := by simp [poisons, hf]
    rw [hp]
    cases f.noted with
    | true =>
      rw [Bool.or_true]
      exact ho.spoil
    | false =>
      rw [Bool.or_false]
      exact ho
  · have hp : poisons t ctx.toContext argv = false := by simp [poisons, hf]
    rw [hp, Bool.or_false]
    obtain ⟨tx, htx, hm, hdirty⟩ := ho.tx
    refine ⟨queued, { c with session := c.session.enqueue argv }, by rw [hd], ho.idle.withSession _,
      { tx with queuedCmds := tx.queuedCmds ++ [argv] }, ?_, hm, hdirty⟩
    rw [Session.enqueue, htx]
    rfl
  · have hp : poisons t ctx.toContext argv = false := by simp [poisons, hf]
    rw [hp, Bool.or_false, hd]
    exact run_control ho (dispatchTx_inr hd).2 hr fun hmem => hn ⟨hf, hmem⟩
  · have hp : poisons t ctx.toContext argv = false := by simp [poisons, hf]
    rw [hp, Bool.or_false]
    exact ⟨_, c, by rw [hd], ho⟩

lemma serveAll_open (eng : Engine) : ∀ (reqs : List Request) {c : Conn} {d : Bool}, c.Open d →
    (∀ r ∈ reqs, ¬ Closes t r.ctx.toContext r.argv) →
    ∃ c', c.serveAll eng t reqs = .ok c' ∧ c'.Open (d || reqs.any fun r => poisons t r.ctx.toContext r.argv)
  | [], c, d, ho, _ => ⟨c, rfl, by simpa using ho⟩
  | r :: rs, c, d, ho, hn => by
    have ho' : (c.setDB r.db).Open d := ⟨ho.idle.withSession _, ho.tx⟩
    obtain ⟨reply, c₁, hr, h1⟩ := executeTx_open eng ho' (hn r mem_cons_self)
    obtain ⟨c₂, hr2, h2⟩ := serveAll_open eng rs h1 fun r' h' => hn r' (mem_cons_of_mem _ h')
    refine ⟨c₂, ?_, by rwa [any_cons, ← Bool.or_assoc]⟩
    rw [serveAll, serve, hr]
    exact hr2

/-! ## MULTI and EXEC themselves -/

def noPermission (name : Bytes) : Bytes :=
  ascii "-NOPERM this user has no permissions to run the '" ++ name ++ ascii "' command\r\n"

lemma dispatchTx_control {name : Bytes} (hl : lookupRegistered (txTable t) name = some r)
    (ha : r.command.arityOk 1 = true) (hc : r.name ∈ txControl) : dispatchTx t ctx.toContext [name] s =
      if ctx.permits r.command then .inr r else .inl (noPermission r.name, s) := by
  have hred : ctx.redirect r.command [name] = none := by
    unfold Context.redirect
    split_ifs <;> rfl
  have hq : ¬ (s.inMulti = true ∧ r.command.name ∉ txControl) := fun h => h.2 hc
  simp only [dispatchTx, dispatch, lookup_map_command, hl, Option.map_some, length_singleton, ha,
    not_true_eq_false, if_false, hred, if_neg hq, headD_cons, Option.getD_some]
  by_cases hp : ctx.permits r.command = true
  · rw [if_neg (not_not.2 hp), if_pos hp]
  · rw [if_pos hp, if_neg hp]
    rfl

lemma lookup_multi : lookupRegistered (txTable t) (ascii "MULTI") = some ⟨ascii "multi", 1, false, .multi⟩ := rfl

lemma multi_open (hc : c.Idle) (hs : c.session.Clean)
    (hr : executeTx eng t 2 ctx [ascii "MULTI"] c = .ok (ok, c')) : c'.Open false := by
  have hnested : nestedMulti ≠ ok := by decide
  have hperm : noPermission (ascii "multi") ≠ ok := by decide
  rw [executeTx, dispatchTx_control lookup_multi rfl (by decide)] at hr
  split_ifs at hr with hp
  · have htx : (fresh { c with lock := .shared }).tx = c.tx := rfl
    simp only [run_operating_eq hc (lookup_multi (t := t)) rfl, Body.handle, multiCommand, htx] at hr
    split_ifs at hr with hm
    · exact absurd (congrArg Prod.fst (Except.ok.inj hr)) hnested
    cases hr
    refine ⟨⟨rfl, hc.inTx⟩, _, rfl, rfl, ?_⟩
    exact Bool.eq_false_iff.2 fun hd => hm (hs.tx hd)
  · exact absurd (congrArg Prod.fst (Except.ok.inj hr)) hperm

/-- `EXEC` refuses the transaction: it runs nothing, and the state is as before `MULTI`. -/
def Aborts (res : CallResult) (c : Conn) : Prop :=
  ∃ c', res = .ok (execAbort, c') ∧ c'.session.db = c.session.db ∧ c'.session.tx = some ⟨false, [], false⟩ ∧
    c'.watched = []

lemma executeTx_exec : executeTx eng t 2 ctx [ascii "EXEC"] c = if ctx.canExecute (ascii "exec") then
        (execCommand (executeTx eng t 1 ctx) ctx c.fresh).map fun x =>
          (x.1, feed ⟨ascii "exec", 1, false, .exec⟩ ctx.toContext [ascii "EXEC"] x.1 x.2)
      else .ok (noPermission (ascii "exec"), c) := by
  have hp : ctx.permits (command ⟨ascii "exec", 1, false, .exec⟩) = ctx.canExecute (ascii "exec") := by
    have hauth : ascii "exec" ≠ ascii "auth" := by decide
    simp [Context.permits, command, hauth]
  rw [executeTx, dispatchTx_control (r := ⟨ascii "exec", 1, false, .exec⟩) rfl rfl (by decide), hp]
  split_ifs with he
  · simp only [run, if_pos (show c.inTxExecution = true ∨ ascii "exec" ∈ selfLocking from .inr (by decide))]
    rfl
  · rfl

lemma array_ne_execAbort (replies : List Bytes) : array replies ≠ execAbort := fun h =>
  absurd (List.cons.inj h).1 (by decide)

lemma execVerdict_unmarked (hd : c.tx.dirtyCAS = false) (hv : execVerdict ctx.version c = .inl reply) :
    reply ≠ execAbort := by
  have hnull : nullArray ≠ execAbort := by decide
  rw [execVerdict, if_neg (by simp [hd])] at hv
  split_ifs at hv <;> cases hv
  · exact hnull
  · exact array_ne_execAbort []

lemma exec_aborts (ho : c.Open d) :
    Aborts (executeTx eng t 2 ctx [ascii "EXEC"] c) c ↔ d = true ∧ ctx.canExecute (ascii "exec") = true := by
  have hperm : noPermission (ascii "exec") ≠ execAbort := by decide
  obtain ⟨tx, htx, hm, hd⟩ := ho.tx
  have hin : c.fresh.session.inMulti = true := ho.inMulti
  have hdirty : ({ c.fresh with lock := .exclusive }).tx.dirtyCAS = d := by simp [Conn.tx, fresh, htx, hd]
  rw [executeTx_exec]
  split_ifs with he
  · rw [execCommand, if_pos hin, ho.idle.fresh.acquire]
    cases d with
    | true =>
      have hv : execVerdict ctx.version { c.fresh with lock := .exclusive } = .inl execAbort := if_pos hdirty
      simp only [hv]
      exact ⟨fun _ => ⟨trivial, he⟩, fun _ => ⟨_, rfl, rfl, rfl, rfl⟩⟩
    | false =>
    constructor
    · rintro ⟨c', hr, -⟩
      cases hv : execVerdict ctx.version { c.fresh with lock := .exclusive } with
      | inl reply =>
        simp only [hv] at hr
        exact absurd (congrArg Prod.fst (Except.ok.inj hr)) (execVerdict_unmarked hdirty hv)
      | inr queued =>
      simp only [hv] at hr
      cases hall : callAll (executeTx eng t 1 ctx) (running { c.fresh with lock := .exclusive }) queued with
      | error h =>
        rw [hall] at hr
        cases hr
      | ok x =>
        rw [hall] at hr
        exact absurd (congrArg Prod.fst (Except.ok.inj hr)) (array_ne_execAbort x.1)
    · rintro ⟨h, -⟩
      cases h
  · constructor
    · rintro ⟨c', hr, -⟩
      exact absurd (congrArg Prod.fst (Except.ok.inj hr)) hperm
    · rintro ⟨-, h⟩
      exact absurd h he

/-- A transaction opened by `MULTI`, some requests that do not end it, and `EXEC`. That one of them was refused
makes `EXEC` refuse the transaction exactly if one was refused as unknown or for its number of arguments, and
the user may run `EXEC`. -/
theorem refused_aborts_iff (eng : Engine) (t : List PlainCommand) (db db₁ db₂ : Keyspace) (pre reqs : List Request)
    (ctx₁ ctx₂ : TxContext) (c₀ c₁ : Conn) (hpre : Conn.serveAll eng t pre (.start db) = .ok c₀)
    (hmulti : c₀.serve eng t ⟨ctx₁, db₁, [ascii "MULTI"]⟩ = .ok (ok, c₁))
    (hopen : ∀ r ∈ reqs, ¬ Closes t r.ctx.toContext r.argv) : ∃ c₂, c₁.serveAll eng t reqs = .ok c₂ ∧
      (((∃ r ∈ reqs, refusal t r.ctx.toContext r.argv ≠ none) →
          Aborts (c₂.serve eng t ⟨ctx₂, db₂, [ascii "EXEC"]⟩) (c₂.setDB db₂)) ↔
        ((∃ r ∈ reqs, refusal t r.ctx.toContext r.argv ≠ none) →
          (∃ r ∈ reqs, poisons t r.ctx.toContext r.argv = true) ∧ ctx₂.canExecute (ascii "exec") = true)) := by
  have hclean : (Conn.start db).session.Clean := fun tx htx hd => by
    cases htx
    cases hd
  have hidle : (c₀.setDB db₁).Idle := (serveAll_idle pre (idle_start db) hpre).withSession _
  have hclean1 : (c₀.setDB db₁).session.Clean := (serveAll_clean pre hclean hpre).of_tx rfl
  have ho := multi_open hidle hclean1 hmulti
  obtain ⟨c₂, hr2, h2⟩ := serveAll_open eng reqs ho hopen
  have h2' : (c₂.setDB db₂).Open (reqs.any fun r => poisons t r.ctx.toContext r.argv) :=
    ⟨h2.idle.withSession _, by rw [Bool.false_or] at h2; exact h2.tx⟩
  refine ⟨c₂, hr2, ?_⟩
  rw [Conn.serve, exec_aborts h2', any_eq_true]

/-- `MULTI`, a command that does not exist, `EXEC`. -/
theorem unknown_aborts : ∃ c₁ c₂, Conn.serve idleEngine [] (ask ["MULTI"]) (.start ∅) = .ok (ok, c₁) ∧
    c₁.serveAll idleEngine [] [ask ["NOSUCH"]] = .ok c₂ ∧
    Aborts (c₂.serve idleEngine [] (ask ["EXEC"])) (c₂.setDB ∅) := by
  have hopen : ∀ r ∈ [ask ["NOSUCH"]], ¬ Closes [] r.ctx.toContext r.argv := by
    rintro r hr ⟨hn, -⟩
    obtain rfl := mem_singleton.1 hr
    cases hn
  obtain ⟨c₂, hr, hiff⟩ := refused_aborts_iff idleEngine [] ∅ ∅ ∅ [] [ask ["NOSUCH"]] quietContext quietContext
    (.start ∅) _ rfl rfl hopen
  exact ⟨_, c₂, rfl, hr, hiff.2 (fun _ => ⟨⟨_, mem_singleton_self _, rfl⟩, rfl⟩) ⟨_, mem_singleton_self _, nofun⟩⟩

def noStreams : TxContext := { quietContext with canExecute := fun name => name ≠ ascii "xread" }

def askStreams : Request := ⟨noStreams, ∅, ["XREAD", "STREAMS", "s", "0"].map ascii⟩

/-- A command refused for a missing permission does not keep `EXEC` from running the rest. -/
theorem noperm_not_aborts : ∃ c₁ c₂ c₃, Conn.serve idleEngine [] (ask ["MULTI"]) (.start ∅) = .ok (ok, c₁) ∧
    refusal [] noStreams.toContext askStreams.argv = some .noperm ∧
    c₁.serveAll idleEngine [] [askStreams, ask ["UNWATCH"]] = .ok c₂ ∧
    c₂.serve idleEngine [] (ask ["EXEC"]) = .ok (array [ok], c₃) := ⟨_, _, _, rfl, rfl, rfl, rfl⟩

end

end Gopherdis.Command

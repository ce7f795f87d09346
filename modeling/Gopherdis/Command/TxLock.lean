/-
The transaction lock over nested calls. With the lock held exclusively a command either returns, the
lock still held, or it stops for good: at a second acquisition of the lock, at a stripe it holds
already, or parked in `XREAD`. From that follows which `EXEC` and which scripts return, and that the
lock is free again whenever a reply is.
-/
import Gopherdis.Command.Transaction

namespace Gopherdis.Command

open Lib Codec Object Store Gopherdis.Stream Registered

variable {c c0 : Conn} {b : Body} {cmds : List Argv} {name : Bytes} {r : Registered}

/-! ## Results -/

section
variable {α β : Type} {res : Except Halt α} {f : α → β} {y : β} {h : Halt}

lemma map_eq_ok (hr : res.map f = .ok y) : ∃ x, res = .ok x ∧ f x = y := by
  cases res with
  | error h => cases hr
  | ok x => exact ⟨x, rfl, Except.ok.inj hr⟩

lemma map_eq_error_iff : res.map f = .error h ↔ res = .error h := by
  cases res with
  | error h' => exact ⟨fun he => by cases he; rfl, fun he => by cases he; rfl⟩
  | ok x => exact ⟨nofun, nofun⟩

end

lemma acquire_ok {c' : Conn} {mode : TxLock} (ha : c.acquire mode = .ok c') : c' = { c with lock := mode } := by
  unfold Conn.acquire at ha
  split_ifs at ha
  exact (Except.ok.inj ha).symm

lemma acquire_then_ok {mode : TxLock} {k : Conn → CallResult} {x : Bytes × Conn}
    (hr : (match c.acquire mode with | .error h => .error h | .ok c => k c : CallResult) = .ok x) :
    k { c with lock := mode } = .ok x := by
  cases ha : c.acquire mode with
  | error h =>
    rw [ha] at hr
    cases hr
  | ok c1 =>
    obtain rfl := acquire_ok ha
    rw [ha] at hr
    exact hr

lemma serveAll_cons_ok {eng : Engine} {t : List PlainCommand} {r : Request} {rs : List Request} {c' : Conn}
    (hr : c.serveAll eng t (r :: rs) = .ok c') :
    ∃ reply c1, c.serve eng t r = .ok (reply, c1) ∧ c1.serveAll eng t rs = .ok c' := by
  rw [Conn.serveAll] at hr
  cases hs : c.serve eng t r with
  | error h =>
    rw [hs] at hr
    cases hr
  | ok x =>
    rw [hs] at hr
    exact ⟨x.1, x.2, rfl, hr⟩

/-! ## Where the lock is -/

/-- Inside `EXEC` or a script. -/
structure Conn.Held (c : Conn) : Prop where
  lock : c.lock = .exclusive
  inTx : c.inTxExecution = true

/-- Between requests. -/
structure Conn.Idle (c : Conn) : Prop where
  lock : c.lock = .free
  inTx : c.inTxExecution = false

section
variable {c c' : Conn} {reply : Bytes} {argv : Argv} {eng : Engine} {ctx : TxContext} {t : List PlainCommand}
  {call call' : Argv → Conn → CallResult} {h : Halt}

lemma Conn.Held.withSession (hc : c.Held) (s : Session) : { c with session := s }.Held := ⟨hc.lock, hc.inTx⟩

lemma Conn.Held.acquire (hc : c.Held) (mode : TxLock) : c.acquire mode = .error .txMu := by
  simp [Conn.acquire, hc.lock]

/-- A step that leaves the lock as it is. -/
def Conn.KeepsLock (c c' : Conn) : Prop := c'.lock = c.lock ∧ c'.inTxExecution = c.inTxExecution

lemma Conn.Held.of_keepsLock (hc : c.Held) (hk : c.KeepsLock c') : c'.Held :=
  ⟨hk.1.trans hc.lock, hk.2.trans hc.inTx⟩

/-! ## One handler -/

/-- The handlers that look at the session alone. -/
lemma handle_keepsLock {P : Conn → Prop} (hb : b = .multi ∨ b = .discard ∨ b = .watch ∨ b = .unwatch)
    (hP : ∀ {c'}, c.KeepsLock c' → P c') : ∃ reply c', b.handle call eng ctx argv c = .ok (reply, c') ∧ P c' := by
  rcases hb with rfl | rfl | rfl | rfl
  · refine ⟨_, (multiCommand c).2, rfl, hP ?_⟩
    unfold multiCommand
    split_ifs <;> exact ⟨rfl, rfl⟩
  · refine ⟨_, (discardCommand c).2, rfl, hP ?_⟩
    unfold discardCommand
    split_ifs <;> exact ⟨rfl, rfl⟩
  · refine ⟨_, (watchCommand ctx.version argv c).2, rfl, hP ?_⟩
    unfold watchCommand
    split_ifs <;> exact ⟨rfl, rfl⟩
  · refine ⟨_, (unwatchCommand c).2, rfl, hP ?_⟩
    unfold unwatchCommand
    split <;> exact ⟨rfl, rfl⟩

lemma execCommand_held (hc : c.Held) :
    execCommand call ctx c = if c.session.inMulti then .error .txMu else .ok (execWithoutMulti, c) := by
  rw [execCommand, hc.acquire]

lemma scriptCommand_held (hc : c.Held) (cmd : String) (find : Argv → Except Bytes Script) :
    scriptCommand cmd find call argv c = match scriptArgs cmd argv with
      | .error reply => .ok (reply, c)
      | .ok _ => .error .txMu := by
  cases hs : scriptArgs cmd argv with
  | error reply => simp [scriptCommand, hs]
  | ok a => simp [scriptCommand, hs, hc.acquire]

/-- What makes a handler stop when it is called with the lock held. -/
def Body.Stops (b : Body) (ctx : TxContext) (argv : Argv) (c : Conn) : Halt → Prop
  | .txMu =>
    (b = .exec ∧ c.session.inMulti = true) ∨ (b = .eval ∧ ∃ a, scriptArgs "eval" argv = .ok a) ∨
      (b = .evalsha ∧ ∃ a, scriptArgs "evalsha" argv = .ok a)
  | .keyLock => ∃ run locks, b = .plain run locks ∧ ¬ (locks argv).Nodup
  | .parked =>
    b = .xread ∧ ∃ db q, xreadQuery ctx.now argv c.session.db = (db, .ok q) ∧ q.blockMs = 0 ∧
      (xreadFetch ctx.now q.count q.streams db).2 = []
  | .panicked => b = .xread ∧ ∃ db, xreadQuery ctx.now argv c.session.db = (db, .error none)

lemma handle_held_call (call call' : Argv → Conn → CallResult) (hc : c.Held) (b : Body) :
    b.handle call eng ctx argv c = b.handle call' eng ctx argv c := by
  cases b with
  | exec => simp [Body.handle, execCommand_held hc]
  | eval | evalsha => simp [Body.handle, scriptCommand_held hc]
  | _ => rfl

lemma xreadCommand_held (ctx : TxContext) (argv : Argv) (hc : c.Held) :
    (∃ reply db, xreadCommand ctx argv c = .ok (reply, c.setDB db)) ∨
      (xreadCommand ctx argv c = .error .parked ∧ Body.xread.Stops ctx argv c .parked) ∨
      (xreadCommand ctx argv c = .error .panicked ∧ Body.xread.Stops ctx argv c .panicked) := by
  have hin : ∀ db, (c.setDB db).inTxExecution = true := fun _ => hc.inTx
  rcases hq : xreadQuery ctx.now argv c.session.db with ⟨db, (_ | reply) | q⟩
  · exact .inr (.inr ⟨by simp [xreadCommand, hq], rfl, db, hq⟩)
  · exact .inl ⟨reply, db, by simp [xreadCommand, hq]⟩
  rcases hf : xreadFetch ctx.now q.count q.streams db with ⟨db', results⟩
  by_cases hres : results ≠ [] ∨ q.blockMs < 0
  · exact .inl ⟨array results, db', by simp [xreadCommand, hq, hf, if_pos hres]⟩
  by_cases hb : 0 < q.blockMs
  · exact .inl ⟨nullArray, db', by simp [xreadCommand, hq, hf, if_neg hres, hin, if_pos hb]⟩
  obtain ⟨hnil, hle⟩ := not_or.1 hres
  refine .inr (.inl ⟨by simp [xreadCommand, hq, hf, if_neg hres, hin, if_neg hb], rfl, db, q, hq,
    by omega, ?_⟩)
  rw [hf]
  exact not_not.1 hnil

lemma handle_held (call : Argv → Conn → CallResult) (eng : Engine) (ctx : TxContext) (argv : Argv)
    (hc : c.Held) (b : Body) : (∃ reply c', b.handle call eng ctx argv c = .ok (reply, c') ∧ c'.Held) ∨
      ∃ h, b.handle call eng ctx argv c = .error h ∧ b.Stops ctx argv c h := by
  cases b with
  | plain run locks =>
    by_cases hl : (locks argv).Nodup
    · exact .inl ⟨_, _, if_pos hl, hc.withSession _⟩
    · exact .inr ⟨.keyLock, if_neg hl, run, locks, rfl, hl⟩
  | multi | discard | watch | unwatch => exact .inl (handle_keepsLock (by simp) hc.of_keepsLock)
  | exec =>
    rw [Body.handle, execCommand_held hc]
    by_cases hm : c.session.inMulti = true
    · exact .inr ⟨.txMu, if_pos hm, .inl ⟨rfl, hm⟩⟩
    · exact .inl ⟨_, _, if_neg hm, hc⟩
  | eval =>
    rw [Body.handle, scriptCommand_held hc]
    cases ha : scriptArgs "eval" argv with
    | error reply => exact .inl ⟨reply, c, rfl, hc⟩
    | ok a => exact .inr ⟨.txMu, rfl, .inr (.inl ⟨rfl, a, ha⟩)⟩
  | evalsha =>
    rw [Body.handle, scriptCommand_held hc]
    cases ha : scriptArgs "evalsha" argv with
    | error reply => exact .inl ⟨reply, c, rfl, hc⟩
    | ok a => exact .inr ⟨.txMu, rfl, .inr (.inr ⟨rfl, a, ha⟩)⟩
  | xread =>
    obtain ⟨reply, db, hr⟩ | ⟨hr, hs⟩ | ⟨hr, hs⟩ := xreadCommand_held ctx argv hc
    · exact .inl ⟨reply, _, hr, hc.withSession _⟩
    · exact .inr ⟨.parked, hr, hs⟩
    · exact .inr ⟨.panicked, hr, hs⟩

lemma handle_of_stops (hc : c.Held) (hs : b.Stops ctx argv c h) : b.handle call eng ctx argv c = .error h := by
  cases h with
  | txMu =>
    obtain ⟨rfl, hm⟩ | ⟨rfl, a, ha⟩ | ⟨rfl, a, ha⟩ := hs
    · rw [Body.handle, execCommand_held hc, if_pos hm]
    all_goals simp only [Body.handle, scriptCommand_held hc, ha]
  | keyLock =>
    obtain ⟨run, locks, rfl, hl⟩ := hs
    exact if_neg hl
  | parked =>
    obtain ⟨rfl, db, q, hq, hb, hf⟩ := hs
    have hin : ∀ db, (c.setDB db).inTxExecution = true := fun _ => hc.inTx
    simp [Body.handle, xreadCommand, hq, hb, hf, hin]
  | panicked =>
    obtain ⟨rfl, db, hq⟩ := hs
    simp [Body.handle, xreadCommand, hq]

/-! ## One command -/

lemma run_held_eq (hc : c.Held) (r : Registered) :
    r.run call eng ctx argv c = r.handleAndFeed call eng ctx argv c := if_pos (.inl hc.inTx)

lemma Conn.Held.fresh (hc : c.Held) : c.fresh.Held := ⟨hc.lock, hc.inTx⟩

lemma run_held (call : Argv → Conn → CallResult) (eng : Engine) (ctx : TxContext) (argv : Argv)
    (hc : c.Held) (r : Registered) : (∃ reply c', r.run call eng ctx argv c = .ok (reply, c') ∧ c'.Held) ∨
      ∃ h, r.run call eng ctx argv c = .error h ∧ r.body.Stops ctx argv c h := by
  rw [run_held_eq hc, handleAndFeed]
  obtain ⟨reply, c1, hr, hh⟩ | ⟨h, hr, hs⟩ := handle_held call eng ctx argv hc.fresh r.body
  · rw [hr]
    exact .inl ⟨reply, _, rfl, hh.withSession _⟩
  · rw [hr]
    exact .inr ⟨h, rfl, by cases h <;> exact hs⟩

lemma run_held_call (hc : c.Held) (r : Registered) : r.run call eng ctx argv c = r.run call' eng ctx argv c := by
  rw [run_held_eq hc, run_held_eq hc, handleAndFeed, handle_held_call call call' hc.fresh]
  rfl

/-- A command that is called with the lock held, and what makes it stop. -/
def Stops (t : List PlainCommand) (ctx : TxContext) (argv : Argv) (c : Conn) (h : Halt) : Prop :=
  ∃ r, dispatchTx t ctx.toContext argv c.session = .inr r ∧ r.body.Stops ctx argv c h

lemma executeTx_held (eng : Engine) (t : List PlainCommand) (ctx : TxContext) (argv : Argv) (hc : c.Held) (n : Nat) :
    (∃ reply c', executeTx eng t (n + 1) ctx argv c = .ok (reply, c') ∧ c'.Held) ∨
      ∃ h, executeTx eng t (n + 1) ctx argv c = .error h ∧ Stops t ctx argv c h := by
  rw [executeTx]
  cases hd : dispatchTx t ctx.toContext argv c.session with
  | inl r => exact .inl ⟨r.1, _, rfl, hc.withSession _⟩
  | inr r =>
    obtain ⟨reply, c', hr, hh⟩ | ⟨h, hr, hs⟩ := run_held (executeTx eng t n ctx) eng ctx argv hc r
    · exact .inl ⟨reply, c', hr, hh⟩
    · exact .inr ⟨h, hr, r, hd, hs⟩

lemma executeTx_held_error_iff (hc : c.Held) (n : Nat) :
    executeTx eng t (n + 1) ctx argv c = .error h ↔ Stops t ctx argv c h := by
  constructor
  · intro he
    obtain ⟨reply, c', hr, -⟩ | ⟨h', hr, hs⟩ := executeTx_held eng t ctx argv hc n
    · rw [he] at hr
      cases hr
    rw [he] at hr
    cases hr
    exact hs
  · rintro ⟨r, hd, hs⟩
    have hs' : r.body.Stops ctx argv c.fresh h := by
      cases h <;> exact hs
    simp only [executeTx, hd, run_held_eq hc, handleAndFeed, handle_of_stops hc.fresh hs']
    rfl

lemma executeTx_held_depth (hc : c.Held) (m n : Nat) :
    executeTx eng t (m + 1) ctx argv c = executeTx eng t (n + 1) ctx argv c := by
  rw [executeTx, executeTx]
  cases dispatchTx t ctx.toContext argv c.session with
  | inl r => rfl
  | inr r => exact run_held_call hc r

/-! ## One command after the other -/

/-- A command of the list is reached, in a state, when all before it have returned. -/
inductive Reached (call : Argv → Conn → CallResult) : Conn → List Argv → Argv → Conn → Prop
  | here {c : Conn} {argv : Argv} {rest : List Argv} : Reached call c (argv :: rest) argv c
  | there {c c' c'' : Conn} {argv argv' : Argv} {rest : List Argv} {reply : Bytes} :
    call argv c = .ok (reply, c') → Reached call c' rest argv' c'' → Reached call c (argv :: rest) argv' c''

lemma callAll_cons_error {rest : List Argv} (he : call argv c = .error h) :
    callAll call c (argv :: rest) = .error h := by
  rw [callAll, he]

lemma callAll_cons_ok {rest : List Argv} (hr : call argv c = .ok (reply, c')) :
    callAll call c (argv :: rest) = (callAll call c' rest).map fun r => (reply :: r.1, r.2) := by
  simp only [callAll, hr]
  cases callAll call c' rest <;> rfl

lemma callAll_error_iff : ∀ (cmds : List Argv) (c : Conn),
    callAll call c cmds = .error h ↔ ∃ argv c', Reached call c cmds argv c' ∧ call argv c' = .error h
  | [], c => by
    constructor
    · intro he
      cases he
    · rintro ⟨argv, c', hr, -⟩
      cases hr
  | argv :: rest, c => by
    cases hc : call argv c with
    | error h' =>
      rw [callAll_cons_error hc]
      constructor
      · intro he
        cases he
        exact ⟨argv, c, .here, hc⟩
      rintro ⟨argv', c', hr, he⟩
      cases hr with
      | here =>
        cases hc.symm.trans he
        rfl
      | there hok _ => cases hc.symm.trans hok
    | ok r =>
      rw [callAll_cons_ok hc, map_eq_error_iff]
      have ih := callAll_error_iff rest r.2
      constructor
      · intro he
        obtain ⟨argv', c', hr, he⟩ := ih.1 he
        exact ⟨argv', c', .there hc hr, he⟩
      rintro ⟨argv', c', hr, he⟩
      cases hr with
      | here => cases hc.symm.trans he
      | there hok hrest =>
        cases hc.symm.trans hok
        exact ih.2 ⟨argv', c', hrest, he⟩

/-- Calls that return keep the lock held. -/
def KeepsHeld (call : Argv → Conn → CallResult) : Prop :=
  ∀ argv c reply c', c.Held → call argv c = .ok (reply, c') → c'.Held

lemma executeTx_keepsHeld (n : Nat) : KeepsHeld (executeTx eng t (n + 1) ctx) := by
  intro argv c reply c' hc hr
  obtain ⟨_, _, hr', hh⟩ | ⟨_, hr', -⟩ := executeTx_held eng t ctx argv hc n
  · cases hr.symm.trans hr'
    exact hh
  · cases hr.symm.trans hr'

lemma Reached.held (hcall : KeepsHeld call) (hr : Reached call c cmds argv c') (hc : c.Held) : c'.Held := by
  induction hr with
  | here => exact hc
  | there hok _ ih => exact ih (hcall _ _ _ _ hc hok)

lemma callAll_congr (hcall : KeepsHeld call) (heq : ∀ argv c, c.Held → call argv c = call' argv c) :
    ∀ (cmds : List Argv) {c : Conn}, c.Held → callAll call c cmds = callAll call' c cmds
  | [], _, _ => rfl
  | argv :: rest, c, hc => by
    cases hr : call argv c with
    | error h' => rw [callAll_cons_error hr, callAll_cons_error (heq argv c hc ▸ hr)]
    | ok r =>
      rw [callAll_cons_ok hr, callAll_cons_ok (heq argv c hc ▸ hr), callAll_congr hcall heq rest (hcall _ _ _ _ hc hr)]

lemma callAll_held_error_iff (n : Nat) (hc : c.Held) : callAll (executeTx eng t (n + 1) ctx) c cmds = .error h ↔
      ∃ argv c', Reached (executeTx eng t (n + 1) ctx) c cmds argv c' ∧ Stops t ctx argv c' h := by
  rw [callAll_error_iff]
  constructor
  · rintro ⟨argv, c', hr, he⟩
    exact ⟨argv, c', hr, (executeTx_held_error_iff (hr.held (executeTx_keepsHeld n) hc) n).1 he⟩
  · rintro ⟨argv, c', hr, hs⟩
    exact ⟨argv, c', hr, (executeTx_held_error_iff (hr.held (executeTx_keepsHeld n) hc) n).2 hs⟩

/-! ## A request -/

/-- The connection as its command has taken the lock. -/
def Conn.locked (c : Conn) : Conn := { c with lock := .exclusive }

/-- The commands an `EXEC` runs under the lock, with the connection as they start. -/
def execCalls (ctx : TxContext) (c : Conn) : Option (Conn × List Argv) :=
  if c.session.inMulti then (execVerdict ctx.version c).elim (fun _ => none) fun queued => some (c.locked.running, queued)
  else none

/-- The commands a script runs, if the arguments are right and the script is found. -/
def scriptCalls (cmd : String) (find : Argv → Except Bytes Script) (argv : Argv) (c : Conn) :
    Option (Conn × List Argv) :=
  match scriptArgs cmd argv, find argv with
  | .ok _, .ok script => some ({ c.locked with inTxExecution := true }, script.calls)
  | _, _ => none

/-- The commands a handler runs under the lock. -/
def Body.calls (b : Body) (eng : Engine) (ctx : TxContext) (argv : Argv) (c : Conn) : Option (Conn × List Argv) :=
  match b with
  | .exec => execCalls ctx c
  | .eval => scriptCalls "eval" eng.evalScript argv c
  | .evalsha => scriptCalls "evalsha" eng.evalshaScript argv c
  | _ => none

lemma calls_held (hi : b.calls eng ctx argv c = some (c0, cmds)) : c0.Held := by
  have hscript : ∀ {cmd find}, scriptCalls cmd find argv c = some (c0, cmds) → c0.Held := by
    intro cmd find hs
    unfold scriptCalls at hs
    split at hs
    · cases hs
      exact ⟨rfl, rfl⟩
    · cases hs
  cases b with
  | exec =>
    rw [Body.calls, execCalls] at hi
    split_ifs at hi
    cases hv : execVerdict ctx.version c <;> rw [hv] at hi <;> cases hi
    exact ⟨rfl, rfl⟩
  | eval | evalsha => exact hscript hi
  | _ => cases hi

lemma calls_eq_none (hb : b.runsOthers = false) : b.calls eng ctx argv c = none := by
  cases b <;> first | rfl | cases hb

/-! ### Handlers that lock themselves -/

/-- What a command leaves that ran others: the lock is free again, and it stopped only where one of them did. -/
structure Inner (call : Argv → Conn → CallResult) (inner : Option (Conn × List Argv)) (res : CallResult) : Prop where
  ok : ∀ reply c', res = .ok (reply, c') → c'.Idle
  error : ∀ h, res = .error h ↔ ∃ c0 cmds, inner = some (c0, cmds) ∧ callAll call c0 cmds = .error h

lemma Inner.none_of_ok (hc : c.Idle) : Inner call none (.ok (reply, c)) where
  ok reply' c' hr := by
    cases hr
    exact hc
  error h := by
    constructor
    · intro he
      cases he
    · rintro ⟨_, _, he, -⟩
      cases he

lemma Inner.some_of_map {f : List Bytes × Conn → Bytes × Conn}
    (hf : ∀ r, (f r).2.Idle) : Inner call (some (c0, cmds)) ((callAll call c0 cmds).map f) where
  ok reply' c' hr := by
    obtain ⟨r, -, hr⟩ := map_eq_ok hr
    have hidle := hf r
    rw [hr] at hidle
    exact hidle
  error h := by
    rw [map_eq_error_iff]
    constructor
    · intro he
      exact ⟨_, _, rfl, he⟩
    · rintro ⟨_, _, he, hcall⟩
      cases he
      exact hcall

lemma Inner.feed {inner : Option (Conn × List Argv)} {res : CallResult} (hi : Inner call inner res) (r : Registered)
    (ctx : Context) (argv : Argv) : Inner call inner (res.map fun x => (x.1, r.feed ctx argv x.1 x.2)) where
  ok reply c' hr := by
    obtain ⟨x, hres, hx⟩ := map_eq_ok hr
    cases hx
    have hidle := hi.ok x.1 x.2 hres
    exact ⟨hidle.lock, hidle.inTx⟩
  error h := by rw [← hi.error h, map_eq_error_iff]

lemma Conn.Idle.acquire (hc : c.Idle) (mode : TxLock) : c.acquire mode = .ok { c with lock := mode } :=
  if_pos hc.lock

lemma Conn.Idle.withSession (hc : c.Idle) (s : Session) : { c with session := s }.Idle := ⟨hc.lock, hc.inTx⟩

lemma execCommand_inner (hc : c.Idle) : Inner call (execCalls ctx c) (execCommand call ctx c) := by
  have hv : execVerdict ctx.version c.locked = execVerdict ctx.version c := rfl
  rw [execCalls, execCommand, hc.acquire]
  by_cases hm : c.session.inMulti = true
  · rw [if_pos hm, if_pos hm, ← hv]
    cases hq : execVerdict ctx.version c.locked with
    | inl reply =>
      simp only [show execVerdict ctx.version { c with lock := .exclusive } = .inl reply from hq]
      exact .none_of_ok ⟨rfl, hc.inTx⟩
    | inr queued =>
      simp only [show execVerdict ctx.version { c with lock := .exclusive } = .inr queued from hq]
      exact .some_of_map fun r => ⟨rfl, rfl⟩
  · rw [if_neg hm, if_neg hm]
    exact .none_of_ok hc

lemma scriptCommand_inner (hc : c.Idle) (cmd : String) (find : Argv → Except Bytes Script) :
    Inner call (scriptCalls cmd find argv c) (scriptCommand cmd find call argv c) := by
  unfold scriptCommand scriptCalls
  cases scriptArgs cmd argv with
  | error reply => exact .none_of_ok hc
  | ok a =>
    simp only [hc.acquire]
    cases find argv with
    | error reply => exact .none_of_ok ⟨rfl, rfl⟩
    | ok script => exact .some_of_map fun r => ⟨rfl, rfl⟩

/-! ### Handlers that `Execute` locks for -/

/-- Under the shared lock of `Execute`. -/
structure Conn.Operating (c : Conn) : Prop where
  lock : c.lock = .shared
  inTx : c.inTxExecution = false

lemma Conn.Operating.of_keepsLock (hc : c.Operating) (hk : c.KeepsLock c') : c'.Operating :=
  ⟨hk.1.trans hc.lock, hk.2.trans hc.inTx⟩

lemma xreadWait_idle (q : XreadQuery) : ∀ (wakes : List (Clock × Keyspace)) {c : Conn}, c.Idle →
    (∃ reply c', xreadWait q wakes c = .ok (reply, c') ∧ c'.Operating) ∨ xreadWait q wakes c = .error .parked
  | [], c, hc => by
    rw [xreadWait, hc.acquire]
    split_ifs
    · exact .inl ⟨_, _, rfl, rfl, hc.inTx⟩
    · exact .inr rfl
  | (now, db) :: wakes, c, hc => by
    rw [xreadWait, hc.acquire]
    rcases xreadFetch now q.count q.streams db with ⟨db', results⟩
    have hc' : ((Conn.setDB { c with lock := .shared } db').release).Idle := ⟨rfl, hc.inTx⟩
    by_cases hres : results = []
    · simp only [if_pos hres]
      exact xreadWait_idle q wakes hc'
    · simp only [if_neg hres, hc'.acquire]
      exact .inl ⟨_, _, rfl, rfl, hc.inTx⟩

lemma xreadCommand_operating (ctx : TxContext) (argv : Argv) (hc : c.Operating) :
    (∃ reply c', xreadCommand ctx argv c = .ok (reply, c') ∧ c'.Operating) ∨
      xreadCommand ctx argv c = .error .parked ∨ xreadCommand ctx argv c = .error .panicked := by
  rcases hq : xreadQuery ctx.now argv c.session.db with ⟨db, (_ | reply) | q⟩
  · exact .inr (.inr (by simp [xreadCommand, hq]))
  · exact .inl ⟨reply, c.setDB db, by simp [xreadCommand, hq], hc.lock, hc.inTx⟩
  rcases hf : xreadFetch ctx.now q.count q.streams db with ⟨db', results⟩
  have hin : (c.setDB db').inTxExecution = false := hc.inTx
  by_cases hres : results ≠ [] ∨ q.blockMs < 0
  · exact .inl ⟨array results, c.setDB db', by simp [xreadCommand, hq, hf, if_pos hres], hc.lock, hc.inTx⟩
  have hwait : xreadCommand ctx argv c = xreadWait q ctx.wakes (c.setDB db').release := by
    simp [xreadCommand, hq, hf, if_neg hres, hin, Bool.false_eq_true]
  rw [hwait]
  obtain h | h := xreadWait_idle q ctx.wakes (c := (c.setDB db').release) ⟨rfl, hc.inTx⟩
  · exact .inl h
  · exact .inr (.inl h)

lemma handle_operating (call : Argv → Conn → CallResult) (eng : Engine) (ctx : TxContext) (argv : Argv)
    (hc : c.Operating) (hb : b.runsOthers = false) :
    (∃ reply c', b.handle call eng ctx argv c = .ok (reply, c') ∧ c'.Operating) ∨
      ∃ h, b.handle call eng ctx argv c = .error h ∧ h ≠ .txMu := by
  cases b with
  | plain run locks =>
    by_cases hl : (locks argv).Nodup
    · exact .inl ⟨_, _, if_pos hl, hc.lock, hc.inTx⟩
    · exact .inr ⟨.keyLock, if_neg hl, nofun⟩
  | multi | discard | watch | unwatch => exact .inl (handle_keepsLock (by simp) hc.of_keepsLock)
  | exec | eval | evalsha => cases hb
  | xread =>
    obtain h | h | h := xreadCommand_operating ctx argv hc
    · exact .inl h
    all_goals exact .inr ⟨_, h, nofun⟩

/-! ### Every command -/

lemma selfLocking_iff (hl : lookupRegistered (txTable t) name = some r) :
    r.name ∈ selfLocking ↔ r.body.runsOthers = true := by
  obtain ⟨hr, -⟩ | ⟨p, -, rfl, hn⟩ := lookup_txTable hl
  · simp only [ownTable, List.mem_cons, List.not_mem_nil, or_false] at hr
    rcases hr with rfl | rfl | rfl | rfl | rfl | rfl | rfl | rfl <;> decide
  have hown : ∀ name ∈ selfLocking, name ∈ ownTable.map Registered.name := by decide
  constructor
  · intro hmem
    exact absurd (hown _ hmem) hn
  · intro hr
    cases hr

lemma handle_inner (hc : c.Idle) (hb : b.runsOthers = true) :
    Inner call (b.calls eng ctx argv c) (b.handle call eng ctx argv c) := by
  cases b with
  | exec => exact execCommand_inner hc
  | eval | evalsha => exact scriptCommand_inner hc _ _
  | _ => cases hb

lemma Conn.Idle.fresh (hc : c.Idle) : c.fresh.Idle := ⟨hc.lock, hc.inTx⟩

lemma run_inner (hc : c.Idle) (hl : lookupRegistered (txTable t) name = some r)
    (hb : r.body.runsOthers = true) : Inner call (r.body.calls eng ctx argv c.fresh) (r.run call eng ctx argv c) := by
  rw [run, if_pos (.inr ((selfLocking_iff hl).2 hb))]
  exact (handle_inner hc.fresh hb).feed r ctx.toContext argv

lemma run_operating_eq (hc : c.Idle)
    (hl : lookupRegistered (txTable t) name = some r) (hb : r.body.runsOthers = false) :
    r.run call eng ctx argv c = (r.body.handle call eng ctx argv (Conn.fresh { c with lock := .shared })).map
      fun x => (x.1, (r.feed ctx.toContext argv x.1 x.2).release) := by
  have hno : ¬ (c.inTxExecution = true ∨ r.name ∈ selfLocking) := by
    rw [selfLocking_iff hl, hb, hc.inTx]
    exact fun h => h.elim nofun nofun
  rw [run, if_neg hno, hc.acquire]
  simp only [handleAndFeed]
  cases r.body.handle call eng ctx argv (Conn.fresh { c with lock := .shared }) <;> rfl

lemma run_operating (call : Argv → Conn → CallResult) (eng : Engine) (ctx : TxContext) (argv : Argv) (hc : c.Idle)
    (hl : lookupRegistered (txTable t) name = some r) (hb : r.body.runsOthers = false) :
    (∃ reply c', r.run call eng ctx argv c = .ok (reply, c') ∧ c'.Idle) ∨
      ∃ h, r.run call eng ctx argv c = .error h ∧ h ≠ .txMu := by
  have hop : (Conn.fresh { c with lock := .shared }).Operating := ⟨rfl, hc.inTx⟩
  rw [run_operating_eq hc hl hb]
  obtain ⟨reply, c', hr, hc'⟩ | ⟨h, hr, hne⟩ := handle_operating call eng ctx argv hop hb
  · rw [hr]
    exact .inl ⟨_, _, rfl, rfl, hc'.inTx⟩
  · rw [hr]
    exact .inr ⟨h, rfl, hne⟩

/-! ## Requests -/

/-- The commands a request runs under the exclusive lock, with the connection as they start. -/
def innerCalls (eng : Engine) (t : List PlainCommand) (ctx : TxContext) (argv : Argv) (c : Conn) :
    Option (Conn × List Argv) :=
  match dispatchTx t ctx.toContext argv c.session with
  | .inl _ => none
  | .inr r => r.body.calls eng ctx argv c.fresh

lemma innerCalls_held (hi : innerCalls eng t ctx argv c = some (c0, cmds)) : c0.Held := by
  unfold innerCalls at hi
  split at hi
  · cases hi
  · exact calls_held hi

/-- A command is called with the lock held, and stops there. -/
def StopsInside (eng : Engine) (t : List PlainCommand) (ctx : TxContext) (argv : Argv) (c : Conn) (h : Halt) : Prop :=
  ∃ c0 cmds argv' c', innerCalls eng t ctx argv c = some (c0, cmds) ∧
    Reached (executeTx eng t 1 ctx) c0 cmds argv' c' ∧ Stops t ctx argv' c' h

lemma stopsInside_iff : StopsInside eng t ctx argv c h ↔
    ∃ c0 cmds, innerCalls eng t ctx argv c = some (c0, cmds) ∧ callAll (executeTx eng t 1 ctx) c0 cmds = .error h := by
  constructor
  · rintro ⟨c0, cmds, argv', c', hi, hr, hs⟩
    exact ⟨c0, cmds, hi, (callAll_held_error_iff 0 (innerCalls_held hi)).2 ⟨argv', c', hr, hs⟩⟩
  · rintro ⟨c0, cmds, hi, he⟩
    obtain ⟨argv', c', hr, hs⟩ := (callAll_held_error_iff 0 (innerCalls_held hi)).1 he
    exact ⟨c0, cmds, argv', c', hi, hr, hs⟩

lemma executeTx_inner (hc : c.Idle) (hd : dispatchTx t ctx.toContext argv c.session = .inr r)
    (hb : r.body.runsOthers = true) : executeTx eng t 2 ctx argv c = .error h ↔ StopsInside eng t ctx argv c h := by
  have hi : innerCalls eng t ctx argv c = r.body.calls eng ctx argv c.fresh := by rw [innerCalls, hd]
  rw [stopsInside_iff, hi, executeTx, hd]
  exact (run_inner hc (dispatchTx_inr hd).2 hb).error h

lemma executeTx_idle (hc : c.Idle) (hr : executeTx eng t 2 ctx argv c = .ok (reply, c')) : c'.Idle := by
  rw [executeTx] at hr
  cases hd : dispatchTx t ctx.toContext argv c.session with
  | inl r =>
    rw [hd] at hr
    cases hr
    exact hc.withSession _
  | inr r =>
  simp only [hd] at hr
  have hl := (dispatchTx_inr hd).2
  cases hb : r.body.runsOthers with
  | true => exact (run_inner hc hl hb).ok _ _ hr
  | false =>
    obtain ⟨reply', c1, hr', hc1⟩ | ⟨h, hr', -⟩ := run_operating (executeTx eng t 1 ctx) eng ctx argv hc hl hb
    · cases hr.symm.trans hr'
      exact hc1
    · cases hr.symm.trans hr'

lemma executeTx_idle_txMu (hc : c.Idle) :
    executeTx eng t 2 ctx argv c = .error .txMu ↔ StopsInside eng t ctx argv c .txMu := by
  cases hd : dispatchTx t ctx.toContext argv c.session with
  | inl r =>
    rw [stopsInside_iff, innerCalls, executeTx, hd]
    exact ⟨nofun, fun ⟨_, _, h, _⟩ => by cases h⟩
  | inr r =>
  cases hb : r.body.runsOthers with
  | true => exact executeTx_inner hc hd hb
  | false =>
  have hi : innerCalls eng t ctx argv c = none := by
    rw [innerCalls, hd]
    exact calls_eq_none hb
  rw [stopsInside_iff, hi, executeTx, hd]
  constructor
  · intro he
    obtain ⟨reply', c1, hr', -⟩ | ⟨h, hr', hne⟩ :=
      run_operating (executeTx eng t 1 ctx) eng ctx argv hc (dispatchTx_inr hd).2 hb
    · cases he.symm.trans hr'
    · cases he.symm.trans hr'
      exact absurd rfl hne
  · rintro ⟨_, _, h, -⟩
    cases h

lemma handle_congr (hc : c.Idle) (hcall : ∀ cmds c0, c0.Held → callAll call c0 cmds = callAll call' c0 cmds)
    (b : Body) : b.handle call eng ctx argv c = b.handle call' eng ctx argv c := by
  have hscript : ∀ cmd find, scriptCommand cmd find call argv c = scriptCommand cmd find call' argv c := by
    intro cmd find
    unfold scriptCommand
    rw [hc.acquire]
    cases scriptArgs cmd argv with
    | error reply => rfl
    | ok a =>
      cases find argv with
      | error reply => rfl
      | ok script => simp [hcall script.calls { c with lock := .exclusive, inTxExecution := true } ⟨rfl, rfl⟩]
  cases b with
  | exec =>
    simp only [Body.handle, execCommand, hc.acquire]
    cases execVerdict ctx.version { c with lock := .exclusive } with
    | inl reply => rfl
    | inr queued => simp [hcall queued (Conn.running { c with lock := .exclusive }) ⟨rfl, rfl⟩]
  | eval | evalsha => exact hscript _ _
  | _ => rfl

lemma executeTx_depth (hc : c.Idle) (n : Nat) : executeTx eng t (n + 2) ctx argv c = executeTx eng t 2 ctx argv c := by
  have hcall : ∀ cmds c0, c0.Held →
      callAll (executeTx eng t (n + 1) ctx) c0 cmds = callAll (executeTx eng t 1 ctx) c0 cmds := fun cmds c0 h0 =>
    callAll_congr (executeTx_keepsHeld n) (fun _ _ h => executeTx_held_depth h n 0) cmds h0
  rw [executeTx, executeTx]
  cases hd : dispatchTx t ctx.toContext argv c.session with
  | inl r => rfl
  | inr r =>
  cases hb : r.body.runsOthers with
  | true =>
    have hself : c.inTxExecution = true ∨ r.name ∈ selfLocking := .inr ((selfLocking_iff (dispatchTx_inr hd).2).2 hb)
    simp [run, if_pos hself, handleAndFeed, handle_congr hc.fresh hcall]
  | false =>
  have hsame : ∀ c, r.body.handle (executeTx eng t (n + 1) ctx) eng ctx argv c =
      r.body.handle (executeTx eng t 1 ctx) eng ctx argv c := by
    intro c
    revert hb
    cases r.body <;> intro hb <;> first | rfl | cases hb
  simp [run, handleAndFeed, hsame]

/-! ## Self-deadlock -/

lemma idle_start (db : Keyspace) : (Conn.start db).Idle := ⟨rfl, rfl⟩

lemma serveAll_idle : ∀ (reqs : List Request) {c c' : Conn}, c.Idle → c.serveAll eng t reqs = .ok c' → c'.Idle
  | [], c, c', hc, hr => by
    cases hr
    exact hc
  | r :: rs, c, c', hc, hr => by
    obtain ⟨reply, c1, hs, hr⟩ := serveAll_cons_ok hr
    exact serveAll_idle rs (executeTx_idle (hc.withSession _) hs) hr

/-- Whatever a connection was asked before, a request never takes `txMu` while the connection holds it, and
the lock is free when the reply is there, exactly if no `EVAL`, `EVALSHA` or `EXEC` that would take it is
reached inside the `EXEC` or the script it runs. -/
theorem txMu_never_retaken_iff (eng : Engine) (t : List PlainCommand) (db : Keyspace) (reqs : List Request) (c : Conn)
    (r : Request) (hreach : Conn.serveAll eng t reqs (.start db) = .ok c) :
    (c.serve eng t r ≠ .error .txMu ∧ ∀ reply c', c.serve eng t r = .ok (reply, c') → c'.lock = .free) ↔
      ¬ StopsInside eng t r.ctx r.argv (c.setDB r.db) .txMu := by
  have hc : (c.setDB r.db).Idle := (serveAll_idle reqs (idle_start db) hreach).withSession _
  rw [← executeTx_idle_txMu hc]
  constructor
  · rintro ⟨hne, -⟩
    exact hne
  · intro hne
    exact ⟨hne, fun reply c' hr => (executeTx_idle hc hr).lock⟩

/-- A context that lets every command through while nothing happens elsewhere. -/
def quietContext : TxContext := { openContext .zero with version := fun _ => 0, wakes := [] }

/-- An engine for which every text is a script that calls nothing. -/
def idleEngine : Engine := ⟨fun _ _ _ => .ok ⟨[], fun _ => .ok ok⟩, fun _ _ _ => none⟩

/-- A request on the empty keyspace. -/
def ask (words : List String) : Request := ⟨quietContext, ∅, words.map ascii⟩

/-- `MULTI`, `UNWATCH`, `EXEC`. -/
theorem exec_unwatch_txMu : ∃ c, Conn.serveAll idleEngine [] [ask ["MULTI"], ask ["UNWATCH"]] (.start ∅) = .ok c ∧
    c.serve idleEngine [] (ask ["EXEC"]) ≠ .error .txMu ∧
    ∀ reply c', c.serve idleEngine [] (ask ["EXEC"]) = .ok (reply, c') → c'.lock = .free := by
  refine ⟨_, rfl, (txMu_never_retaken_iff idleEngine [] ∅ [ask ["MULTI"], ask ["UNWATCH"]] _ (ask ["EXEC"]) rfl).2 ?_⟩
  intro hs
  cases (executeTx_idle_txMu ⟨rfl, rfl⟩).2 hs

/-- A script queued in a transaction waits for the lock that its `EXEC` holds. -/
theorem exec_eval_txMu :
    Conn.serveAll idleEngine [] [ask ["MULTI"], ask ["EVAL", "", "0"], ask ["EXEC"]] (.start ∅) = .error .txMu := rfl

/-! ## Waiting under the lock -/

/-- The command comes to its end without anybody else: it returns, or the process does. -/
def Ends (res : CallResult) : Prop := (∃ reply c', res = .ok (reply, c')) ∨ res = .error .panicked

/-- An `EXEC` or a script comes to its end exactly if it reaches no command that waits: for `txMu`, for a
stripe it holds itself, or for an entry that nobody can add. -/
theorem exec_ends_iff (eng : Engine) (t : List PlainCommand) (ctx : TxContext) (argv : Argv) (c : Conn) (r : Registered)
    (hc : c.Idle) (hd : dispatchTx t ctx.toContext argv c.session = .inr r) (hb : r.body.runsOthers = true) :
    Ends (executeTx eng t 2 ctx argv c) ↔ ¬ ∃ h, h ≠ .panicked ∧ StopsInside eng t ctx argv c h := by
  constructor
  · rintro hends ⟨h, hne, hs⟩
    have he := (executeTx_inner hc hd hb).2 hs
    obtain ⟨reply, c', hr⟩ | hr := hends
    · cases he.symm.trans hr
    · cases he.symm.trans hr
      exact hne rfl
  intro hno
  cases hr : executeTx eng t 2 ctx argv c with
  | ok x => exact .inl ⟨x.1, x.2, rfl⟩
  | error h =>
    by_cases hp : h = .panicked
    · exact .inr (hp ▸ rfl)
    · exact absurd ⟨h, hp, (executeTx_inner hc hd hb).1 hr⟩ hno

/-- An `XREAD` with a time limit, queued in a transaction: it gives up under the lock, and the transaction ends. -/
theorem exec_xread_timed_out : ∃ c, Conn.serveAll idleEngine []
      [ask ["MULTI"], ask ["XREAD", "BLOCK", "5", "STREAMS", "s", "0"]] (.start ∅) = .ok c ∧
    (innerCalls idleEngine [] quietContext [ascii "EXEC"] c).map Prod.snd =
      some [["XREAD", "BLOCK", "5", "STREAMS", "s", "0"].map ascii] ∧
    Ends (executeTx idleEngine [] 2 quietContext [ascii "EXEC"] c) := by
  refine ⟨_, rfl, rfl, (exec_ends_iff idleEngine [] quietContext [ascii "EXEC"] _ _ ⟨rfl, rfl⟩ rfl rfl).2 ?_⟩
  rintro ⟨h, -, hs⟩
  obtain ⟨c0, cmds, hi, he⟩ := stopsInside_iff.1 hs
  cases hi
  cases he

/-- An `XREAD` without a time limit, queued in a transaction, waits for an entry that no other client can add
as long as the transaction holds the lock. -/
theorem exec_xread_parked :
    Conn.serveAll idleEngine [] [ask ["MULTI"], ask ["XREAD", "BLOCK", "0", "STREAMS", "s", "0"], ask ["EXEC"]]
      (.start ∅) = .error .parked := rfl

end

end Gopherdis.Command

/-
Replicas of a server with a memory limit. What is propagated is decided by the reply, and the reply does not tell
whether a value was refused; an evicted key is propagated by nobody. While every value finds room, the replica
shows what the master shows.
-/
import Gopherdis.Encoded.SetReplay
import Gopherdis.Propagate.Equivalence

namespace Gopherdis.Replication

open Lib Codec Object Store Command Encoded Traced List

variable {name : Bytes} {ms : Int}

/-! ## What is fed and replayed -/

/-- What `Execute` feeds after a command of this name. -/
def fedForm (S : Settings) (c : Call) (name : Bytes) (argv : Argv) (a : Answer) : Option Argv :=
  if succeeded a.reply then a.override.getD (normalizeForPropagation S.E c.now.ms name argv a.reply) else none

/-- The fed commands are run in order on a keyspace without a limit. -/
def replayFed (S : Settings) (sv : Store.Server) (c : Call) (db : MemDB) (feed : List Argv) : MemDB :=
  feed.foldl (fun db argv => (runCommand commandTable (S.under sv.unlimited) c argv).after db) db

section
variable {S : Settings} {sv : Store.Server} {c c' : Call} {db r : MemDB} {argv : Argv}

/-- The replica shows, at its clock, what the master shows then. -/
abbrev Replayed (S : Settings) (sv : Store.Server) (c c' : Call) (name : Bytes) (argv : Argv) (r : MemDB) (a : Answer)
    (d : MemDB) : Prop :=
  ∀ k, shown d k c'.now.ms = shown (replayFed S sv c' r (fedForm S c name argv a).toList) k c'.now.ms

lemma replayed_of_untouched {a : Answer} {d : MemDB} (h : Beside c.now.ms c'.now.ms db r)
    (hle : c.now.ms ≤ c'.now.ms) (hd : Untouched c.now db d) (hfed : fedForm S c name argv a = none) :
    Replayed S sv c c' name argv r a d := by
  intro k
  rw [hfed]
  exact (hd.shown (Int.ofNat_le.2 hle) k).trans (h.later k)

lemma replayed_plain {f : (S : Settings) → Call → Argv → MemM S.E Bytes} (hsteady : Steady f)
    (hinert : (f (S.under sv.unlimited) c argv).Ends db (Inert c.now db))
    (hnorm : ∀ reply, normalizeForPropagation S.E c.now.ms name argv reply = some argv)
    (hrun : runCommand commandTable (S.under sv.unlimited) c' argv = answering f (S.under sv.unlimited) c' argv)
    (h : Beside c.now.ms c'.now.ms db r) (hle : c.now.ms ≤ c'.now.ms) :
    (answering f (S.under sv.unlimited) c argv).Ends db (Replayed S sv c c' name argv r) := by
  have hboth : Both (answering f (S.under sv.unlimited) c argv) (answering f (S.under sv.unlimited) c' argv) db r
      fun _ d d' => Beside c.now.ms c'.now.ms d d' := (hsteady h).bind fun _ _ _ h1 => both_pure h1
  have herr : (answering f (S.under sv.unlimited) c argv).Ends db fun a d => a.override = none ∧ Inert c.now db a.reply d :=
    hinert.bind fun _ _ h1 => ⟨rfl, h1⟩
  generalize answering f (S.under sv.unlimited) c argv = m at hboth herr ⊢
  obtain ⟨hoverride, herr⟩ := herr
  cases hs : succeeded (m.result db).reply with
  | false =>
    refine replayed_of_untouched h hle (herr hs) ?_
    rw [fedForm, hs]
    rfl
  | true =>
  have hfed : fedForm S c name argv (m.result db) = some argv := by
    rw [fedForm, if_pos hs, hoverride, Option.getD_none, hnorm]
  intro k
  rw [hfed, Option.toList_some, replayFed, foldl_cons, foldl_nil, hrun]
  exact hboth.2.later k

lemma replayed_set {key val : Bytes} {words : List Bytes} (hname : toLowerASCII name = ascii "set")
    (h : Beside c.now.ms c'.now.ms db r) (hle : c.now.ms ≤ c'.now.ms)
    (hfaithful : FaithfulSet S c c' db (name :: key :: val :: words)) :
    (Encoded.setCommand (S.under sv.unlimited) c (name :: key :: val :: words)).Ends db
      (Replayed S sv c c' (ascii "set") (name :: key :: val :: words) r) := by
  by_cases hread : ∃ o, setOptions words {} = .ok o ∧ ¬ o.conflict
  · obtain ⟨o, ho, hc⟩ := hread
    have hsafe := hfaithful o ho hc
    refine (setDone ho hc).mono fun a d hdone => ?_
    unfold SetDone at hdone
    simp only [getD_cons_succ, getD_cons_zero, drop_succ_cons, drop_zero] at hsafe
    cases hdec : setDecision (c.context S) o ((db.live key c.now.ms).map fun s => s.obj.val) with
    | leave reply override =>
      rw [hdec] at hdone hsafe
      obtain ⟨rfl, hlooked⟩ := hdone
      refine replayed_of_untouched h hle hlooked.lookup ?_
      unfold fedForm
      split_ifs with hs
      · rcases setDecision_leave hdec with ho' | ho'
        · exact absurd ho' (hsafe hs)
        · rw [ho']
          rfl
      · rfl
    | write reply =>
      rw [hdec] at hdone hsafe
      obtain ⟨rfl, hholds⟩ := hdone
      have hfed : fedForm S c (ascii "set") (name :: key :: val :: words) ⟨reply, none⟩ =
          some (normalizeSet S.E c.now.ms (name :: key :: val :: words)) := by
        rw [fedForm, if_pos (setDecision_write hdec)]
        rfl
      have hreplay := @ends_replay_set S sv c c' r key val name words o hname ho
      rw [h.deadlineAt key] at hreplay
      intro k
      rw [hfed]
      exact shown_replayed h.later hholds hreplay hsafe k
  · push Not at hread
    refine (set_refused hread).mono fun a d hd => ?_
    obtain ⟨hs, rfl⟩ := hd
    refine replayed_of_untouched h hle (fun _ => .inl rfl) ?_
    rw [fedForm, hs]
    rfl

end

/-! ## The commands -/

/-- The commands of a run. -/
inductive Write
  | set
  | mset
  | incr
  | append
  | hset
  | rpush
  | sadd
  | zadd
  | del
deriving DecidableEq, Repr

namespace Write

def handler : Write → Handler
  | set => ⟨ascii "set", -3, Encoded.setCommand⟩
  | mset => Encoded.handler "mset" (-3) msetCommand
  | incr => Encoded.handler "incr" 2 incrCommand
  | append => Encoded.handler "append" 3 appendCommand
  | hset => Encoded.handler "hset" (-4) Encoded.hsetCommand
  | rpush => Encoded.handler "rpush" (-3) rpushCommand
  | sadd => Encoded.handler "sadd" (-3) saddCommand
  | zadd => Encoded.handler "zadd" (-4) Encoded.zaddCommand
  | del => Encoded.handler "del" (-2) Encoded.delCommand

variable {S : Settings} {sv : Store.Server} {c c' : Call} {db r : MemDB} {argv : Argv} (u : Write)

lemma found (h : toLowerASCII name = u.handler.name) : findHandler commandTable name = some u.handler := by
  unfold findHandler
  rw [h]
  cases u <;> rfl

lemma unhindered : Unhindered S sv fun S => u.handler.run S c argv := by
  cases u with
  | set => exact unhindered_set S sv c argv
  | mset => exact (unhindered_mset S sv c argv).bind fun _ => .refl _ _
  | incr => exact (unhindered_incr S sv c argv).bind fun _ => .refl _ _
  | append => exact (unhindered_append S sv c argv).bind fun _ => .refl _ _
  | hset => exact (unhindered_hset S sv c argv).bind fun _ => .refl _ _
  | rpush => exact (unhindered_rpush S sv c argv).bind fun _ => .refl _ _
  | sadd => exact (unhindered_sadd S sv c argv).bind fun _ => .refl _ _
  | zadd => exact (unhindered_zadd S sv c argv).bind fun _ => .refl _ _
  | del => exact (unhindered_del S sv c argv).bind fun _ => .refl _ _

lemma replayed (hname : toLowerASCII (argv.headD []) = u.handler.name)
    (ha : u.handler.arityOk argv.length = true) (hargs : argv ≠ []) (h : Beside c.now.ms c'.now.ms db r)
    (hle : c.now.ms ≤ c'.now.ms) (hset : u = .set → FaithfulSet S c c' db argv) :
    (u.handler.run (S.under sv.unlimited) c argv).Ends db (Replayed S sv c c' u.handler.name argv r) := by
  have hrun := fun S => @runCommand_eq commandTable S c' argv u.handler (u.found hname) hargs ha
  cases u with
  | set =>
    obtain ⟨name, key, val, words, rfl⟩ := exists_three (Handler.argc_le rfl ha)
    exact replayed_set hname h hle (hset rfl)
  | mset => exact replayed_plain steady_mset inert_mset (fun _ => rfl) (hrun _) h hle
  | incr => exact replayed_plain steady_incr inert_incr (fun _ => rfl) (hrun _) h hle
  | append => exact replayed_plain steady_append inert_append (fun _ => rfl) (hrun _) h hle
  | hset => exact replayed_plain steady_hset inert_hset (fun _ => rfl) (hrun _) h hle
  | rpush => exact replayed_plain steady_rpush inert_rpush (fun _ => rfl) (hrun _) h hle
  | sadd => exact replayed_plain steady_sadd inert_sadd (fun _ => rfl) (hrun _) h hle
  | zadd => exact replayed_plain steady_zadd inert_zadd (fun _ => rfl) (hrun _) h hle
  | del => exact replayed_plain steady_del inert_del (fun _ => rfl) (hrun _) h hle

end Write

/-! ## Runs -/

/-- A command on the master and the replay of what it fed. `Get` reports a key that it finds past its deadline,
and a `DEL` is fed for it. -/
structure Exchange where
  cmd : Write
  argv : Argv
  named : toLowerASCII (argv.headD []) = cmd.handler.name
  call : Call
  reported : List Bytes
  replay : Call

variable {e : Exchange}

variable (S : Settings) (sv : Store.Server)

namespace Exchange

/-- The command under the limit. -/
def run (e : Exchange) : MemM S.E Answer := runCommand commandTable (S.under sv) e.call e.argv

def feed (e : Exchange) (db : MemDB) : List Argv :=
  e.reported.map (fun k => [ascii "DEL", k]) ++
    (fedForm S e.call e.cmd.handler.name e.argv ((e.run S sv).result db)).toList

/-- The master and the replica after the exchange. -/
def apply (p : MemDB × MemDB) (e : Exchange) : MemDB × MemDB :=
  ((e.run S sv).after p.1, replayFed S sv e.replay p.2 (e.feed S sv p.1))

/-- When the exchange is replayed faithfully, on a replica that read `ms` before. Clocks run forward, and what is
reported is past its deadline. No deadline passes between the call and the replay; every value finds room that
would be stored without a limit; and a `SET` is propagated as what it did. -/
structure Clear (ms : Int) (db : MemDB) (e : Exchange) : Prop where
  forward : ms ≤ e.replay.now.ms
  after : e.call.now.ms ≤ e.replay.now.ms
  reported : ∀ k ∈ e.reported, db.isExpired e.call.now k = true
  between : ∀ k s, db.lookup k = some s → s.expired e.call.now.ms = s.expired e.replay.now.ms
  room : Allowed (RoomFor S.E sv) (MemOp.apply S.E) db ((e.run S sv.unlimited).ops db)
  set : e.cmd = .set → FaithfulSet S e.call e.replay db e.argv

variable {S sv}

lemma beside {db r : MemDB} (hc : e.Clear S sv ms db) (h : ∀ k, shown db k ms = shown r k ms) :
    Beside e.call.now.ms e.replay.now.ms db r := by
  have hlater : ∀ k, shown db k e.replay.now.ms = shown r k e.replay.now.ms := by
    intro k
    have hk := h k
    unfold Encoded.shown at hk ⊢
    rw [shownSlot_later hc.forward, hk, ← shownSlot_later hc.forward]
  refine ⟨fun k => ?_, hlater⟩
  rw [← hlater k]
  unfold Encoded.shown
  cases hs : db.lookup k with
  | none => rfl
  | some s =>
    have hsame := hc.between k s hs
    cases hx : s.expired e.replay.now.ms with
    | true => rw [shownSlot_expired hx, shownSlot_expired (hsame.trans hx)]
    | false => rw [shownSlot_some hx, shownSlot_some (hsame.trans hx)]

lemma beside_reported {c c' : Call} {db : MemDB} : ∀ (keys : List Bytes) {r : MemDB}, Beside c.now.ms c'.now.ms db r →
    (∀ k ∈ keys, db.isExpired c.now k = true) →
    Beside c.now.ms c'.now.ms db (replayFed S sv c' r (keys.map fun k => [ascii "DEL", k]))
  | [], _, h, _ => h
  | k :: keys, r, h, hkeys => by
    refine beside_reported keys ?_ fun k' hk' => hkeys k' (mem_cons_of_mem _ hk')
    have hdel : Leaves r k _ none := @ends_replay_del (S.under sv.unlimited) c' r k
    obtain ⟨s, hs, hx⟩ := (Option.any_eq_true _ _).1 (hkeys k mem_cons_self)
    have hnow : shown db k c.now.ms = none := by
      rw [Encoded.shown, hs]
      exact shownSlot_expired hx
    have hlater : shown db k c'.now.ms = none := (h.later k).trans ((h.now k).symm.trans hnow)
    exact h.change (.refl db k) hdel hnow hlater

lemma argv_ne_nil (e : Exchange) : e.argv ≠ [] := by
  intro hnil
  have hname := e.named
  rw [hnil] at hname
  cases hcmd : e.cmd <;> rw [hcmd] at hname <;> exact absurd hname (by decide)

lemma run_eq (ha : e.cmd.handler.arityOk e.argv.length = true) (sv : Store.Server) :
    e.run S sv = e.cmd.handler.run (S.under sv) e.call e.argv :=
  runCommand_eq (e.cmd.found e.named) e.argv_ne_nil ha

lemma run_refused (ha : ¬ e.cmd.handler.arityOk e.argv.length = true) (sv : Store.Server) :
    ∃ msg, e.run S sv = pure ⟨error msg, none⟩ := by
  rcases runCommand_cases commandTable (S.under sv) e.call e.argv with ⟨h, -, hok, hf, -⟩ | hmsg
  · rw [e.cmd.found e.named] at hf
    cases hf
    exact absurd hok ha
  · exact hmsg

lemma replayed {ms : Int} {db r : MemDB} {e : Exchange} (hc : e.Clear S sv ms db)
    (h : Beside e.call.now.ms e.replay.now.ms db r) :
    (e.run S sv).Ends db (Replayed S sv e.call e.replay e.cmd.handler.name e.argv r) := by
  by_cases ha : e.cmd.handler.arityOk e.argv.length = true
  · have hroom := hc.room
    rw [run_eq ha] at hroom
    have hreplayed := @Write.replayed S sv _ _ db r _ e.cmd e.named ha e.argv_ne_nil h hc.after hc.set
    rw [run_eq ha]
    exact e.cmd.unhindered.ends hroom hreplayed
  · obtain ⟨msg, hmsg⟩ := run_refused ha sv
    rw [hmsg]
    exact replayed_of_untouched h hc.after (fun _ => .inl rfl) rfl

lemma clear_step {p : MemDB × MemDB} (hc : e.Clear S sv ms p.1) (h : ∀ k, shown p.1 k ms = shown p.2 k ms) (k : Bytes) :
    shown (e.apply S sv p).1 k e.replay.now.ms = shown (e.apply S sv p).2 k e.replay.now.ms := by
  have hbeside := @beside_reported S sv _ _ _ e.reported _ (beside hc h) hc.reported
  unfold apply feed replayFed
  rw [foldl_append]
  exact replayed hc hbeside k

end Exchange

def exchangeAll (p : MemDB × MemDB) (es : List Exchange) : MemDB × MemDB := es.foldl (Exchange.apply S sv) p

/-- The clock of the replica after the exchanges. -/
def clockAfter (ms : Int) (es : List Exchange) : Int := es.foldl (fun _ e => e.replay.now.ms) ms

/-- Every exchange is clear in the state the master is in by then. -/
def AllClear : Int → MemDB → List Exchange → Prop
  | _, _, [] => True
  | ms, db, e :: es => e.Clear S sv ms db ∧ AllClear e.replay.now.ms ((e.run S sv).after db) es

/-- From the same keyspace, master and replica show the same keys with the same values and deadlines, from the last
replay on, if every exchange is clear. -/
theorem replica_shows_master (ms : Int) (db : MemDB) (es : List Exchange) (hes : AllClear S sv ms db es) (k : Bytes)
    (ms' : Int) (hms : clockAfter ms es ≤ ms') :
    shown (exchangeAll S sv (db, db) es).1 k ms' = shown (exchangeAll S sv (db, db) es).2 k ms' := by
  have hrun : ∀ (es : List Exchange) (ms : Int) (p : MemDB × MemDB), AllClear S sv ms p.1 es →
      (∀ k, shown p.1 k ms = shown p.2 k ms) → ∀ k,
      shown (exchangeAll S sv p es).1 k (clockAfter ms es) = shown (exchangeAll S sv p es).2 k (clockAfter ms es) := by
    intro es
    induction es with
    | nil => exact fun ms p _ h => h
    | cons e es ih => exact fun ms p hes h => ih _ _ hes.2 (Exchange.clear_step hes.1 h)
  have hlast := hrun es ms (db, db) hes (fun _ => rfl) k
  unfold shown at hlast ⊢
  rw [shownSlot_later hms, hlast, ← shownSlot_later hms]

/-- A command when time begins, replayed at once. -/
def Exchange.atOnce (cmd : Write) (argv : Argv) (named : toLowerASCII (argv.headD []) = cmd.handler.name) : Exchange :=
  ⟨cmd, argv, named, .zero, [], .zero⟩

lemma Exchange.clear_atOnce {S : Settings} {sv : Store.Server} {db : MemDB} {cmd : Write} {argv : Argv}
    {named : toLowerASCII (argv.headD []) = cmd.handler.name} (forward : ms ≤ 0)
    (room : Allowed (RoomFor S.E sv) (MemOp.apply S.E) db (((atOnce cmd argv named).run S sv.unlimited).ops db))
    (set : cmd = .set → FaithfulSet S .zero .zero db argv) : (atOnce cmd argv named).Clear S sv ms db where
  forward := forward.trans (Int.natCast_nonneg _)
  after := Nat.le_refl _
  reported _ hk := absurd hk not_mem_nil
  between _ _ _ := rfl
  room := room
  set := set

/-- Three commands that find room. -/
def roomyRun : List Exchange :=
  [.atOnce .set [ascii "SET", ascii "k", ascii "v"] rfl, .atOnce .rpush [ascii "RPUSH", ascii "l", ascii "a"] rfl,
    .atOnce .append [ascii "APPEND", ascii "k", ascii "w"] rfl]

theorem three_commands_replicated :
    shown (exchangeAll .bits { maxMemory := 1000 } (.empty, .empty) roomyRun).1 (ascii "k") 0 =
      shown (exchangeAll .bits { maxMemory := 1000 } (.empty, .empty) roomyRun).2 (ascii "k") 0 := by
  refine replica_shows_master .bits { maxMemory := 1000 } 0 .empty roomyRun ?_ (ascii "k") 0 (Int.le_refl 0)
  refine ⟨Exchange.clear_atOnce (Int.le_refl 0) (by decide +kernel) fun _ => ?_,
    Exchange.clear_atOnce (Int.le_refl 0) (by decide +kernel) (fun h => by cases h),
    Exchange.clear_atOnce (Int.le_refl 0) (by decide +kernel) (fun h => by cases h), trivial⟩
  rintro o ho -
  cases ho
  rfl

def tight : Store.Server := { maxMemory := 10 }

def tightEvicting : Store.Server := { maxMemory := 10, policy := .allKeysRandom, pick := fun _ => some (ascii "a") }

def lossyRun : List Exchange :=
  [.atOnce .set [ascii "SET", ascii "a", ascii "1"] rfl, .atOnce .set [ascii "SET", ascii "b", ascii "2"] rfl]

/-- A value that was refused is fed and replayed; a key that was evicted stays on the replica. -/
theorem refused_and_evicted_are_replicated :
    (exchangeAll .bits tight (.empty, .empty) lossyRun).1.lookup (ascii "a") = none ∧
    (exchangeAll .bits tight (.empty, .empty) lossyRun).2.lookup (ascii "a") ≠ none ∧
    (exchangeAll .bits tightEvicting (.empty, .empty) lossyRun).1.lookup (ascii "a") = none ∧
    (exchangeAll .bits tightEvicting (.empty, .empty) lossyRun).1.lookup (ascii "b") ≠ none ∧
    (exchangeAll .bits tightEvicting (.empty, .empty) lossyRun).2.lookup (ascii "a") ≠ none := by
  decide +kernel

end Gopherdis.Replication

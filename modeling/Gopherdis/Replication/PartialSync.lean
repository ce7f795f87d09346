/-
Streaming, disconnecting and reconnecting. The master numbers the bytes of its command stream; a replica asks to
continue from the offset it has recorded, and gets the backlog from there on. `syncWithMaster` does not advance
that offset while it executes the stream. As long as it is, at each partial resynchronisation, that of the last
command executed, the commands executed and on their way are the master's stream since the snapshot; otherwise
commands are repeated.
-/
import Gopherdis.Codec.Request
import Gopherdis.Lib.Runs
import Gopherdis.Replication.Backlog

namespace Gopherdis.Replication

open Lib Codec List

def selectArgv : Argv := [ascii "SELECT", ascii "0"]

def selectPreamble : Bytes := encodeCommand selectArgv

def msgChSize : Nat := 1024

/-- The manager of the master, with the session of the replica: the messages in its channel and
whether commands are still fanned out to it. -/
structure Master where
  masterReplID : Bytes
  masterReplOffset : Nat
  backlog : Backlog
  msgCh : List Bytes
  registered : Bool

variable (m : Master)

def Master.feedCommand (argv : Argv) : Master :=
  if argv = [] then m
  else
    let data := encodeCommand argv
    -- a replica whose channel is full is dropped
    let fits := m.registered && m.msgCh.length < msgChSize
    { m with
      backlog := m.backlog.feed data
      masterReplOffset := m.masterReplOffset + data.length
      msgCh := if fits then m.msgCh ++ [data] else m.msgCh
      registered := fits }

/-- `+CONTINUE` with the backlog from the offset, or `+FULLRESYNC` with a snapshot. -/
inductive PsyncReply
  | continued (diff : Bytes)
  | fullResync (replID : Bytes) (offset : Nat)

def Master.partialOk (replID : Bytes) (offset : Int) : Bool :=
  replID ≠ [] && replID = m.masterReplID && m.backlog.canPartialSync offset

def Master.handlePSync (replID : Bytes) (offset : Int) : Master × PsyncReply :=
  ({ m with msgCh := [selectPreamble], registered := true },
    if m.partialOk replID offset then .continued (m.backlog.readFromOffset offset)
    else .fullResync m.masterReplID m.masterReplOffset)

/-- What the replica has recorded, and the bytes of its connection it has still to read. -/
structure Replica where
  masterReplID : Bytes
  masterReplOffset : Nat
  conn : Option Bytes

/-- The run ID and offset the replica asks for. -/
def Replica.psyncArgs (r : Replica) : Bytes × Int :=
  if r.masterReplID = [] then (ascii "?", -1) else (r.masterReplID, r.masterReplOffset)

/-- Master and replica, and the account of the run: the commands fed so far, how many of them the
snapshot of the last full resynchronisation covers, and those the replica has executed since. -/
structure LinkState where
  master : Master
  replica : Replica
  stream : List Argv
  snapshotAt : Option Nat
  executed : List Argv

variable {s : LinkState}

inductive LinkAct
  | feed (argv : Argv)
  | deliver
  | execute
  | ownFeed (argv : Argv)
  | disconnect
  | sync

def LinkState.start (capacity : Int) (masterID replicaID : Bytes) (masterOffset replicaOffset : Nat) : LinkState where
  master := ⟨masterID, masterOffset, newBacklog capacity, [], false⟩
  replica := ⟨replicaID, replicaOffset, none⟩
  stream := []
  snapshotAt := none
  executed := []

def LinkState.sync (s : LinkState) : LinkState :=
  let (replID, offset) := s.replica.psyncArgs
  match s.master.handlePSync replID offset with
  | (master, .continued diff) => { s with master, replica := { s.replica with conn := some diff } }
  | (master, .fullResync newReplID newOffset) =>
  { s with
    master
    -- `SetMasterInfo` keeps the old ID when it is given an empty one
    replica := ⟨if newReplID = [] then s.replica.masterReplID else newReplID, newOffset, some []⟩
    snapshotAt := some s.stream.length
    executed := [] }

def linkStep (s : LinkState) : LinkAct → Option LinkState
  | .feed argv =>
    -- what `Execute` feeds came through the request reader, and `SELECT` is no write command
    if Framed argv ∧ argv ≠ selectArgv then
      some { s with master := s.master.feedCommand argv, stream := s.stream ++ [argv] }
    else none
  | .deliver =>
    match s.master.msgCh, s.replica.conn with
    | msg :: msgs, some b =>
      some { s with
        master := { s.master with msgCh := msgs }
        replica := { s.replica with conn := some (b ++ msg) } }
    | _, _ => none
  | .execute =>
    match s.replica.conn with
    | some b =>
      match parseRequest b with
      | .ok (argv, rest) =>
        some { s with
          replica := { s.replica with conn := some rest }
          executed := if argv = [] then s.executed else s.executed ++ [argv] }
      | .error _ => none
    | none => none
  | .ownFeed argv =>
    -- the replica's own `FeedCommand`: a key it expires, or a client's write
    some { s with
      replica := { s.replica with masterReplOffset := s.replica.masterReplOffset + (encodeCommand argv).length } }
  | .disconnect =>
    match s.replica.conn with
    | some _ =>
      some { s with
        master := { s.master with msgCh := [], registered := false }
        replica := { s.replica with conn := none } }
    | none => none
  | .sync =>
    match s.replica.conn with
    | some _ => none
    | none => some s.sync

/-- The commands that are not a stream's opening `SELECT`. -/
def writes (cmds : List Argv) : List Argv := cmds.filter (· ≠ selectArgv)

/-- Nothing is repeated or skipped: the commands executed and those the replica will receive, in
its connection and its channel, are the master's stream since the snapshot. -/
def LinkState.Exact (s : LinkState) : Prop :=
  ∀ n b, s.snapshotAt = some n → s.master.registered = true → s.replica.conn = some b →
    ∃ coming : List Argv, (∀ c ∈ coming, Framed c) ∧ b ++ s.master.msgCh.flatten = coming.flatMap encodeCommand ∧
      writes (s.executed ++ coming) = s.stream.drop n

/-- At a partial resynchronisation the recorded offset is the one the stream had after the last
command the replica executed. -/
def OffsetFollows (s : LinkState) : LinkAct → Prop
  | .sync => ∀ n, s.snapshotAt = some n → s.master.partialOk s.replica.psyncArgs.1 s.replica.psyncArgs.2 = true →
    s.replica.psyncArgs.2 = ((s.stream.take n ++ writes s.executed).flatMap encodeCommand).length
  | _ => True

/-! ## The invariant -/

/-- The commands of the connection and of the channel, and those fed since the replica was dropped
or disconnected, complete the stream. -/
structure Link (s : LinkState) (n : Nat) : Prop where
  covered : n ≤ s.stream.length
  account : ∃ inConn inCh missed : List Argv,
    (∀ c ∈ inConn ++ inCh, Framed c) ∧ s.replica.conn.getD [] = inConn.flatMap encodeCommand ∧
    s.master.msgCh = inCh.map encodeCommand ∧
    writes (s.executed ++ (inConn ++ inCh)) ++ missed = s.stream.drop n ∧
    (s.master.registered = true → missed = [])

structure LinkInv (s : LinkState) : Prop where
  backlog : s.master.backlog.Fed (s.stream.flatMap encodeCommand)
  stream : ∀ c ∈ s.stream, Framed c ∧ c ≠ selectArgv
  link : ∀ n, s.snapshotAt = some n → Link s n

lemma writes_append (as bs : List Argv) : writes (as ++ bs) = writes as ++ writes bs := filter_append ..

lemma writes_eq_self {cmds : List Argv} (h : ∀ c ∈ cmds, c ≠ selectArgv) : writes cmds = cmds :=
  filter_eq_self.2 fun c hc => decide_eq_true (h c hc)

lemma framed_selectArgv : Framed selectArgv := by decide

lemma LinkInv.start (capacity : Int) (masterID replicaID : Bytes) (masterOffset replicaOffset : Nat) :
    LinkInv (.start capacity masterID replicaID masterOffset replicaOffset) :=
  ⟨newBacklog_fed capacity, by simp [LinkState.start], nofun⟩

lemma LinkInv.feed (h : LinkInv s) {argv : Argv} (hf : Framed argv) (hsel : argv ≠ selectArgv) :
    LinkInv { s with master := s.master.feedCommand argv, stream := s.stream ++ [argv] } := by
  have hwr : writes [argv] = [argv] := writes_eq_self fun c hc => by rwa [mem_singleton.1 hc]
  unfold Master.feedCommand
  rw [if_neg hf.1]
  refine ⟨?_, ?_, fun n hn => ?_⟩
  · rw [flatMap_append, flatMap_singleton]; exact h.backlog.feed (encodeCommand argv)
  · intro c hc
    obtain hc | hc := mem_append.1 hc
    · exact h.stream c hc
    · rw [mem_singleton.1 hc]; exact ⟨hf, hsel⟩
  · obtain ⟨hcov, inConn, inCh, missed, hfr, hconn, hch, hacc, hreg⟩ := h.link n hn
    refine ⟨le_trans hcov (by simp), ?_⟩
    have hdrop : (s.stream ++ [argv]).drop n = s.stream.drop n ++ [argv] := drop_append_of_le_length hcov
    by_cases hfits : (s.master.registered && decide (s.master.msgCh.length < msgChSize)) = true
    · have hnil := hreg (Bool.and_eq_true _ _ ▸ hfits).1
      subst hnil
      refine ⟨inConn, inCh ++ [argv], [], ?_, hconn, ?_, ?_, fun _ => rfl⟩
      · intro c hc
        rw [← append_assoc, mem_append, mem_singleton] at hc
        obtain hc | rfl := hc
        · exact hfr c hc
        · exact hf
      · simp only
        rw [if_pos hfits, hch, map_append]; rfl
      · rw [hdrop, ← hacc, ← append_assoc inConn, ← append_assoc s.executed, writes_append, hwr,
          append_nil, append_nil]
    · -- dropped: from here on the replica misses what is fed
      refine ⟨inConn, inCh, missed ++ [argv], hfr, hconn, ?_, ?_, fun hr => absurd hr hfits⟩
      · simp only
        rw [if_neg hfits, hch]
      · rw [hdrop, ← hacc, append_assoc]

lemma LinkInv.deliver (h : LinkInv s) {msg b : Bytes} {msgs : List Bytes}
    (hch : s.master.msgCh = msg :: msgs) (hconn : s.replica.conn = some b) : LinkInv { s with
      master := { s.master with msgCh := msgs }
      replica := { s.replica with conn := some (b ++ msg) } } := by
  refine ⟨h.backlog, h.stream, fun n hn => ?_⟩
  obtain ⟨hcov, inConn, inCh, missed, hfr, hc, hm, hacc, hreg⟩ := h.link n hn
  rw [hconn] at hc
  rw [hch] at hm
  cases inCh with
  | nil => cases hm
  | cons c inCh =>
  obtain ⟨rfl, rfl⟩ := List.cons.inj hm
  have hassoc : inConn ++ c :: inCh = inConn ++ [c] ++ inCh := by simp
  rw [hassoc] at hfr hacc
  refine ⟨hcov, inConn ++ [c], inCh, missed, hfr, ?_, rfl, hacc, hreg⟩
  rw [flatMap_append, flatMap_singleton, ← hc]; rfl

lemma LinkInv.execute (h : LinkInv s) {b rest : Bytes} {argv : Argv}
    (hconn : s.replica.conn = some b) (hp : parseRequest b = .ok (argv, rest)) : LinkInv { s with
      replica := { s.replica with conn := some rest }
      executed := if argv = [] then s.executed else s.executed ++ [argv] } := by
  refine ⟨h.backlog, h.stream, fun n hn => ?_⟩
  obtain ⟨hcov, inConn, inCh, missed, hfr, hc, hm, hacc, hreg⟩ := h.link n hn
  rw [hconn] at hc
  cases inConn with
  | nil => rw [show b = [] from hc] at hp; cases hp
  | cons c inConn =>
  have hfc : Framed c := hfr c (by simp)
  rw [show b = encodeCommand c ++ inConn.flatMap encodeCommand from hc, parseRequest_encodeCommand hfc] at hp
  cases hp
  refine ⟨hcov, inConn, inCh, missed, fun d hd => hfr d (by simp at hd ⊢; tauto), rfl, hm, ?_, hreg⟩
  rw [if_neg hfc.1, append_assoc]
  exact hacc

lemma LinkInv.disconnect (h : LinkInv s) : LinkInv { s with
      master := { s.master with msgCh := [], registered := false }
      replica := { s.replica with conn := none } } := by
  refine ⟨h.backlog, h.stream, fun n hn => ?_⟩
  obtain ⟨hcov, inConn, inCh, missed, -, -, -, hacc, -⟩ := h.link n hn
  refine ⟨hcov, [], [], writes (inConn ++ inCh) ++ missed, by simp, rfl, rfl, ?_, nofun⟩
  show writes (s.executed ++ []) ++ _ = _
  rw [append_nil, ← append_assoc, ← writes_append]
  exact hacc

lemma LinkInv.sync (h : LinkInv s) (hg : OffsetFollows s .sync) : LinkInv s.sync := by
  have hsel : writes [selectArgv] = [] := by decide
  unfold LinkState.sync Master.handlePSync
  by_cases hok : s.master.partialOk s.replica.psyncArgs.1 s.replica.psyncArgs.2 = true
  · simp only [hok, if_true]
    refine ⟨h.backlog, h.stream, fun n hn => ?_⟩
    obtain ⟨hcov, inConn, inCh, missed, -, -, -, hacc, -⟩ := h.link n hn
    have hcan : s.master.backlog.canPartialSync s.replica.psyncArgs.2 = true := by
      exact (Bool.and_eq_true _ _ ▸ hok).2
    simp only [Backlog.canPartialSync, Bool.and_eq_true, decide_eq_true_eq] at hcan
    rw [writes_append, append_assoc] at hacc
    set r := writes (inConn ++ inCh) ++ missed with hr
    have hsplit : s.stream = (s.stream.take n ++ writes s.executed) ++ r := by
      rw [append_assoc, hacc, take_append_drop]
    have hsub : ∀ c ∈ r, Framed c ∧ c ≠ selectArgv := fun c hc =>
      h.stream c (by rw [hsplit]; exact mem_append_right _ hc)
    refine ⟨hcov, r, [selectArgv], [], ?_, ?_, rfl, ?_, fun _ => rfl⟩
    · intro c hc
      obtain hc | hc := mem_append.1 hc
      · exact (hsub c hc).1
      · rw [mem_singleton.1 hc]; exact framed_selectArgv
    · show s.master.backlog.readFromOffset _ = _
      have hbytes : s.stream.flatMap encodeCommand =
          (s.stream.take n ++ writes s.executed).flatMap encodeCommand ++ r.flatMap encodeCommand := by
        rw [← flatMap_append, ← hsplit]
      rw [h.backlog.read hcan.1.2 hcan.2, hg n hn hok, Int.toNat_natCast, hbytes, drop_left]
    · rw [append_nil, writes_append, writes_append, hsel, append_nil,
        writes_eq_self fun c hc => (hsub c hc).2]
      exact hacc
  · simp only [hok]
    refine ⟨h.backlog, h.stream, fun n hn => ?_⟩
    cases hn
    refine ⟨le_rfl, [], [selectArgv], [], ?_, rfl, rfl, ?_, fun _ => rfl⟩
    · intro c hc
      rw [mem_singleton.1 hc]; exact framed_selectArgv
    · simp [hsel]

lemma linkStep_inv {s' : LinkState} {a : LinkAct} (h : LinkInv s) (hg : OffsetFollows s a)
    (hs : linkStep s a = some s') : LinkInv s' := by
  cases a with
  | feed argv =>
    rw [linkStep] at hs
    split_ifs at hs with hf
    cases hs; exact h.feed hf.1 hf.2
  | deliver =>
    rw [linkStep] at hs
    split at hs <;> cases hs
    exact h.deliver ‹_› ‹_›
  | execute =>
    rw [linkStep] at hs
    split at hs
    · split at hs
      · rw [← Option.some.inj hs]
        exact h.execute ‹_› ‹_›
      · cases hs
    · cases hs
  | ownFeed argv =>
    cases hs
    exact ⟨h.backlog, h.stream, fun n hn => ⟨(h.link n hn).covered, (h.link n hn).account⟩⟩
  | disconnect =>
    rw [linkStep] at hs
    split at hs <;> cases hs
    exact h.disconnect
  | sync =>
    rw [linkStep] at hs
    split at hs <;> cases hs
    exact h.sync hg

/-! ## Whole runs -/

/-- In every run in which the recorded offset follows the commands executed, whatever the order of
streaming, disconnects, reconnects and full resynchronisations, the replica repeats and skips
nothing. -/
theorem partial_sync_exact {capacity : Int} {masterID replicaID : Bytes} {masterOffset replicaOffset : Nat}
    {as : List LinkAct} {s : LinkState}
    (h : Run linkStep OffsetFollows (.start capacity masterID replicaID masterOffset replicaOffset) as s) :
    s.Exact := by
  have hi : LinkInv s := h.inv linkStep_inv (.start ..)
  intro n b hn hreg hconn
  obtain ⟨-, inConn, inCh, missed, hfr, hc, hm, hacc, hmiss⟩ := hi.link n hn
  rw [hconn] at hc
  refine ⟨inConn ++ inCh, hfr, ?_, ?_⟩
  · rw [hm, flatMap_append, ← hc, flatMap_def]; rfl
  · rw [← hacc, hmiss hreg, append_nil]

def incrArgv : Argv := [ascii "INCR", ascii "k"]

/-- A replica that is cut off after its full resynchronisation, before it executes anything, and
comes back. -/
def cutOffUnstarted : List LinkAct := [.sync, .feed incrArgv, .disconnect, .feed incrArgv, .sync, .execute]

lemma cutOffUnstarted_run : ∃ s,
    Run linkStep OffsetFollows (.start (1024 * 1024) (ascii "m") (ascii "r") 0 0) cutOffUnstarted s ∧
      s.executed = [incrArgv] := by
  refine ⟨_, .cons nofun rfl <| .cons trivial rfl <| .cons trivial rfl <| .cons trivial rfl <| .cons ?_ rfl <|
    .cons trivial rfl <| .nil _, by decide⟩
  intro n hn _
  cases hn; rfl

theorem partial_sync_exact_unstarted : ∃ s,
    Run linkStep OffsetFollows (.start (1024 * 1024) (ascii "m") (ascii "r") 0 0) cutOffUnstarted s ∧
      s.executed = [incrArgv] ∧ s.Exact := by
  obtain ⟨s, hrun, hex⟩ := cutOffUnstarted_run
  exact ⟨s, hrun, hex, partial_sync_exact hrun⟩

/-- A replica that is cut off after one command: the backlog gives it that command again. -/
theorem partial_sync_repeats : ∃ s, Run linkStep Free (.start (1024 * 1024) (ascii "m") (ascii "r") 0 0)
      [.sync, .feed incrArgv, .deliver, .deliver, .execute, .execute, .disconnect, .sync] s ∧
    s.stream = [incrArgv] ∧ s.executed = [selectArgv, incrArgv] ∧
    s.replica.conn = some (encodeCommand incrArgv) ∧ ¬ s.Exact := by
  refine ⟨_, .of_runAll rfl, by decide, by decide, by decide, fun hex => ?_⟩
  obtain ⟨coming, hfr, hb, hw⟩ := hex 0 _ rfl rfl rfl
  have hb' : encodeCommand incrArgv ++ selectPreamble = coming.flatMap encodeCommand := hb
  have hw' : incrArgv :: writes coming = [incrArgv] := by rw [writes_append] at hw; exact hw
  cases coming with
  | nil => exact absurd hb' (by decide)
  | cons c cs =>
    obtain ⟨rfl, -⟩ := encodeCommand_append_inj (by decide) (hfr c (mem_cons_self ..)) hb'
    exact absurd (congrArg List.length hw') (by simp [writes, show incrArgv ≠ selectArgv by decide])

end Gopherdis.Replication

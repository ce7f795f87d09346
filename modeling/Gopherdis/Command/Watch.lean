/-
`WATCH` over whole runs: connections that watch keys, queue commands and execute them, others that write, and
the expiry and eviction of keys. Every operation that goes through the store counts the version of its key up; a
collection changed in place is counted only through the first argument of the command, so a key changed as the
second key of a command, or evicted, is changed without a trace.
-/
import Gopherdis.Command.Transaction
import Gopherdis.Command.TwoKeys
import Gopherdis.Lib.Runs
import Gopherdis.Lib.Shares

namespace Gopherdis.Command

open Lib Codec Object Store List Function Option VersionedDB

/-! ## The world -/

/-- A registered command, as the operations it performs. -/
structure StoreCommand where
  isWrite : Bool
  run : StoreContext → Argv → StoreM Bytes

/-- `Execute` touches the first argument. -/
def StoreCommand.announces (cmd : StoreCommand) (argv : Argv) (reply : Bytes) : Bool :=
  cmd.isWrite && succeeded reply && decide (2 ≤ argv.length)

/-- The store, the clock and the connections. The keyspace in the session of a connection is not used.
`ops` counts the operations performed so far. -/
structure World (ι : Type) where
  store : VersionedDB
  now : Clock
  conn : ι → Conn
  ops : Nat

variable {ι : Type}

namespace World

def start (now : Clock) (db : Keyspace) : World ι := ⟨⟨db, .start⟩, now, fun _ => .start db, 0⟩

variable (w : World ι)

def setVersions (vs : Versions) : World ι := { w with store := { w.store with versions := vs } }

def perform (w : World ι) (o : DBOp) : World ι := { w with store := w.store.perform o, ops := w.ops + 1 }

/-- What a client would find at the key. -/
def value (key : Bytes) : Option Value := (w.store.db.live key w.now.ms).map Entry.val

/-- `clearWatch`, as far as the number of watched keys goes. -/
def dropWatched (c : ι) : World ι :=
  if (w.conn c).watched = [] then w
  else w.setVersions (w.store.versions.removeWatchers (w.conn c).watched.length)

end World

/-- The command the words of a request name, and where the n-th operation makes a collection outgrow its
encoding. -/
structure Server where
  command : Argv → StoreCommand
  promotes : Nat → Bytes → Bool

namespace World

variable (sv : Server)

/-- What a command does and answers in this state. -/
def call (w : World ι) (argv : Argv) : Bytes × List DBOp :=
  (sv.command argv).run ⟨w.now, sv.promotes w.ops⟩ argv w.store.db

/-- `Execute` of a command that is run. -/
def execute (w : World ι) (argv : Argv) : Bytes × World ι :=
  let (reply, ops) := w.call sv argv
  let store := w.store.performAll ops
  let store := if (sv.command argv).announces argv reply then store.touch (argv.getD 1 []) else store
  (reply, { w with store, ops := w.ops + ops.length + 1 })

end World

section
variable {sv : Server} {w : World ι} {c : ι} {argv : Argv}

@[simp] lemma dropWatched_conn : (w.dropWatched c).conn = w.conn := by
  unfold World.dropWatched
  split_ifs <;> rfl

@[simp] lemma dropWatched_now : (w.dropWatched c).now = w.now := by
  unfold World.dropWatched
  split_ifs <;> rfl

@[simp] lemma dropWatched_ops : (w.dropWatched c).ops = w.ops := by
  unfold World.dropWatched
  split_ifs <;> rfl

@[simp] lemma dropWatched_db : (w.dropWatched c).store.db = w.store.db := by
  unfold World.dropWatched
  split_ifs <;> rfl

lemma dropWatched_watchers (w : World ι) (c : ι) :
    (w.dropWatched c).store.versions.watchers = w.store.versions.watchers - (w.conn c).watched.length := by
  unfold World.dropWatched
  split_ifs with h
  · simp [h]
  · exact Versions.removeWatchers_watchers ..

lemma dropWatched_version (h : 0 < w.store.versions.watchers - (w.conn c).watched.length) :
    (w.dropWatched c).store.versions.version = w.store.versions.version := by
  unfold World.dropWatched
  split_ifs
  · rfl
  · rw [World.setVersions, Versions.removeWatchers_eq h, Versions.addWatchers_version]

@[simp] lemma execute_ops : (w.execute sv argv).2.ops = w.ops + (w.call sv argv).2.length + 1 := rfl

lemma execute_store : (w.execute sv argv).2.store = if (sv.command argv).announces argv (w.call sv argv).1 then
        (w.store.performAll (w.call sv argv).2).touch (argv.getD 1 []) else w.store.performAll (w.call sv argv).2 := rfl

lemma execute_watchers : (w.execute sv argv).2.store.versions.watchers = w.store.versions.watchers := by
  rw [execute_store]
  split_ifs
  · exact (Versions.touch_watchers ..).trans (performAll_watchers ..)
  · exact performAll_watchers ..

end

variable [DecidableEq ι]

namespace World

variable (w : World ι)

def setConn (c : ι) (x : Conn) : World ι := { w with conn := update w.conn c x }

def reset (c : ι) : World ι := (w.dropWatched c).setConn c (w.conn c).reset

def unwatch (c : ι) : World ι :=
  if (w.conn c).session.tx.isSome then (w.dropWatched c).setConn c (unwatchCommand (w.conn c)).2 else w

end World

/-- `UNWATCH`, which is queued like any command. -/
def isUnwatch (argv : Argv) : Bool := argv.head?.any fun name => toLowerASCII name = ascii "unwatch"

namespace World

variable (sv : Server)

/-- A queued command of the connection. -/
def executeQueued (w : World ι) (c : ι) (argv : Argv) : Bytes × World ι :=
  if isUnwatch argv then (ok, w.unwatch c) else w.execute sv argv

def executeAll (c : ι) : World ι → List Argv → List Bytes × World ι
  | w, [] => ([], w)
  | w, argv :: rest =>
    let (reply, w) := w.executeQueued sv c argv
    let (replies, w) := executeAll c w rest
    (reply :: replies, w)

def exec (w : World ι) (c : ι) : Bytes × World ι :=
  if (w.conn c).session.inMulti then
    match execVerdict w.store.versions.version (w.conn c) with
    | .inl reply => (reply, w.reset c)
    | .inr queued =>
      let (replies, w) := executeAll sv c (w.setConn c (w.conn c).running) queued
      (array replies, w.reset c)
  else (execWithoutMulti, w)

end World

/-- What happens: a command of a connection outside transactions, one that is queued, one that is refused
before, the commands on the transaction itself, the expiry and the eviction of a key, and time passing. A
connection that goes away takes no more steps; its watched keys stay counted. -/
inductive TxAct (ι : Type)
  | command (c : ι) (argv : Argv)
  | queue (c : ι) (argv : Argv)
  | refuse (c : ι)
  | multi (c : ι)
  | discard (c : ι)
  | watch (c : ι) (argv : Argv)
  | unwatch (c : ι)
  | exec (c : ι)
  | reclaim (key : Bytes)
  | evict (key : Bytes)
  | tick (now : Clock)

variable (sv : Server)

def txStep (w : World ι) : TxAct ι → Option (World ι)
  | .command c argv => if (w.conn c).session.inMulti then none else some (w.execute sv argv).2
  | .queue c argv =>
    if (w.conn c).session.inMulti then
      some (w.setConn c { w.conn c with session := (w.conn c).session.enqueue argv })
    else none
  | .refuse c => some (w.setConn c { w.conn c with session := (w.conn c).session.spoil })
  | .multi c => some (w.setConn c (multiCommand (w.conn c)).2)
  | .discard c => some (if (w.conn c).session.inMulti then w.reset c else w)
  | .watch c argv =>
    let c' := (watchCommand w.store.versions.version argv (w.conn c)).2
    -- one `AddWatchers(1)` for each key that was not watched
    some ((w.setVersions (w.store.versions.addWatchers (c'.watched.length - (w.conn c).watched.length))).setConn c c')
  | .unwatch c => if (w.conn c).session.inMulti then none else some (w.unwatch c)
  | .exec c => some (w.exec sv c).2
  | .reclaim key => if w.store.db.isExpired w.now key then some (w.perform (.remove key)) else none
  | .evict key => if key ∈ w.store.db then some (w.perform (.evict key)) else none
  | .tick now => if w.now.ns ≤ now.ns then some { w with now } else none

/-! ## The commands that leave a trace -/

/-- Whatever the command changes at the key without counting it, it announces. -/
def Announced (key : Bytes) (w : World ι) (argv : Argv) : Prop :=
  (∃ o ∈ (w.call sv argv).2, o.silentOn key = true) →
    (sv.command argv).announces argv (w.call sv argv).1 = true ∧ argv.getD 1 [] = key

/-- So do the commands of a queue, each in the state it comes to run in. -/
def AllAnnounced (sv : Server) (key : Bytes) (c : ι) : World ι → List Argv → Prop
  | _, [] => True
  | w, argv :: rest =>
    (isUnwatch argv = false → Announced sv key w argv) ∧ AllAnnounced sv key c (w.executeQueued sv c argv).2 rest

/-- The step does not change the key without a trace. -/
def Traced (key : Bytes) (w : World ι) : TxAct ι → Prop
  | .command _ argv => Announced sv key w argv
  | .exec c =>
    ∀ queued, execVerdict w.store.versions.version (w.conn c) = .inr queued →
      AllAnnounced sv key c (w.setConn c (w.conn c).running) queued
  | .evict k => k ≠ key
  | _ => True

/-- The connection stops watching: `UNWATCH`, and `DISCARD` and `EXEC` of a transaction. -/
def StopsWatching (A : ι) (w : World ι) (a : TxAct ι) : Prop :=
  a = .unwatch A ∨ ((a = .discard A ∨ a = .exec A) ∧ (w.conn A).session.inMulti = true)

/-- A step while `A` watches the key: `A` goes on watching, the key is not changed without a trace, and
`A` watches it again only if it has not changed. -/
structure Watchful (sv : Server) (A : ι) (key : Bytes) (w : World ι) (a : TxAct ι) : Prop where
  goes_on : ¬ StopsWatching A w a
  traced : Traced sv key w a
  again : ∀ argv, a = .watch A argv → key ∈ argv.drop 1 →
    (w.conn A).watched.stored key = some (w.store.versions.version key)

/-! ## The number of watched keys -/

/-- The count covers the keys each connection watches. -/
def World.Covered (w : World ι) : Prop := Covers w.store.versions.watchers fun c => (w.conn c).watched.length

section
variable {sv : Server} {w w' : World ι} {c d A : ι} {x : Conn} {a : TxAct ι} {key : Bytes} {argv : Argv}

@[simp] lemma setConn_store : (w.setConn c x).store = w.store := rfl

@[simp] lemma setConn_ops : (w.setConn c x).ops = w.ops := rfl

@[simp] lemma setConn_self : (w.setConn c x).conn c = x := update_self ..

lemma setConn_of_ne (h : d ≠ c) : (w.setConn c x).conn d = w.conn d := update_of_ne h ..

lemma setConn_shares (w : World ι) (c : ι) (x : Conn) : (fun d => ((w.setConn c x).conn d).watched.length) =
      update (fun d => (w.conn d).watched.length) c x.watched.length := by
  funext d
  by_cases hd : d = c
  · subst hd
    simp
  · simp [setConn_of_ne hd, hd]

lemma World.Covered.setConn (h : w.Covered) (hx : x.watched = (w.conn c).watched) : (w.setConn c x).Covered := by
  have := Covers.update h c (w.conn c).watched.length
  rw [sub_add_cancel] at this
  rw [World.Covered, setConn_shares, hx]
  exact this

lemma World.Covered.drop (h : w.Covered) (hx : x.watched = []) : ((w.dropWatched c).setConn c x).Covered := by
  have := Covers.update h c 0
  rw [World.Covered, setConn_shares, dropWatched_conn, setConn_store, dropWatched_watchers, hx]
  simpa using this

lemma unwatchCommand_watched (htx : x.session.tx.isSome) : (unwatchCommand x).2.watched = [] := by
  obtain ⟨tx, h⟩ := isSome_iff_exists.1 htx
  simp [unwatchCommand, h]

lemma World.Covered.reset (h : w.Covered) (c : ι) : (w.reset c).Covered := h.drop rfl

lemma World.Covered.unwatch (h : w.Covered) (c : ι) : (w.unwatch c).Covered := by
  unfold World.unwatch
  split_ifs with htx
  · exact h.drop (unwatchCommand_watched htx)
  · exact h

omit [DecidableEq ι] in
lemma World.Covered.execute (h : w.Covered) (argv : Argv) : (w.execute sv argv).2.Covered := by
  rw [World.Covered, execute_watchers]
  exact h

lemma World.Covered.executeQueued (h : w.Covered) (c : ι) (argv : Argv) : (w.executeQueued sv c argv).2.Covered := by
  unfold World.executeQueued
  split_ifs
  · exact h.unwatch c
  · exact h.execute argv

lemma World.Covered.executeAll (c : ι) : ∀ (queued : List Argv) {w : World ι}, w.Covered →
    (World.executeAll sv c w queued).2.Covered
  | [], _, h => h
  | argv :: rest, _, h => World.Covered.executeAll c rest (h.executeQueued c argv)

lemma multiCommand_watched (x : Conn) : (multiCommand x).2.watched = x.watched := by
  unfold multiCommand
  split_ifs <;> rfl

lemma running_watched (x : Conn) : x.running.watched = x.watched := rfl

lemma World.Covered.exec (h : w.Covered) (c : ι) : (w.exec sv c).2.Covered := by
  unfold World.exec
  split_ifs
  · split
    · exact h.reset c
    · exact ((h.setConn (running_watched _)).executeAll c _).reset c
  · exact h

lemma txStep_guarded (hs : txStep sv w a = some w') : match a with
    | .command _ argv => w' = (w.execute sv argv).2
    | .queue c argv => w' = w.setConn c { w.conn c with session := (w.conn c).session.enqueue argv }
    | .unwatch c => w' = w.unwatch c
    | .reclaim key => w' = w.perform (.remove key)
    | .evict key => w' = w.perform (.evict key)
    | .tick now => w.now.ns ≤ now.ns ∧ w' = { w with now }
    | _ => True := by
  cases a with
  | command c argv => exact (some.inj (ite_none_left_eq_some.1 hs).2).symm
  | queue c argv => exact (some.inj (ite_none_right_eq_some.1 hs).2).symm
  | unwatch c => exact (some.inj (ite_none_left_eq_some.1 hs).2).symm
  | reclaim | evict => exact (some.inj (ite_none_right_eq_some.1 hs).2).symm
  | tick now =>
    obtain ⟨hle, hs⟩ := ite_none_right_eq_some.1 hs
    exact ⟨hle, (some.inj hs).symm⟩
  | refuse | multi | discard | watch | exec => trivial

lemma txStep_covered (h : w.Covered) (hs : txStep sv w a = some w') : w'.Covered := by
  cases a with
  | command c argv =>
    cases txStep_guarded hs
    exact h.execute argv
  | queue c argv =>
    cases txStep_guarded hs
    exact h.setConn rfl
  | refuse c =>
    cases hs
    exact h.setConn rfl
  | multi c =>
    cases hs
    exact h.setConn (multiCommand_watched _)
  | discard c =>
    cases hs
    split_ifs
    · exact h.reset c
    · exact h
  | watch c argv =>
    cases hs
    have hc := Covers.update h c (watchCommand w.store.versions.version argv (w.conn c)).2.watched.length
    rw [World.Covered, setConn_shares]
    refine hc.mono (le_of_eq ?_)
    simp only [setConn_store, World.setVersions, Versions.addWatchers_watchers]
    ring
  | unwatch c =>
    cases txStep_guarded hs
    exact h.unwatch c
  | exec c =>
    cases hs
    exact h.exec c
  | reclaim key =>
    cases txStep_guarded hs
    rw [World.Covered, World.perform, perform, DBOp.count_watchers]
    exact h
  | evict key =>
    cases txStep_guarded hs
    exact h
  | tick now =>
    obtain ⟨-, rfl⟩ := txStep_guarded hs
    exact h

end

/-! ## While a key is watched -/

/-- `A` watches the key with the version `v`, which has been counted up `n` times since; as long as it has
not, the key holds `e`. -/
structure Watching (A : ι) (key : Bytes) (v : UInt64) (e : Option Entry) (base n : Nat) (w : World ι) : Prop where
  covered : w.Covered
  stored : (w.conn A).watched.stored key = some v
  version : w.store.versions.version key = v + UInt64.ofNat n
  kept : n = 0 → w.store.db.lookup key = e
  bound : base + n ≤ w.ops

section
variable {sv : Server} {w w' : World ι} {c A : ι} {x : Conn} {a : TxAct ι} {key : Bytes} {argv : Argv} {v : UInt64}
  {e : Option Entry} {base n m : Nat}

section
variable (h : Watching A key v e base n w)
include h

omit [DecidableEq ι] in
lemma Watching.share_pos : 0 < (w.conn A).watched.length :=
  length_pos_of_mem (Watched.mem_of_stored h.stored)

omit [DecidableEq ι] in
lemma Watching.watchers_pos : 0 < w.store.versions.watchers := by
  have hle : ((w.conn A).watched.length : Int) ≤ w.store.versions.watchers := Covers.share_le h.covered A
  have := h.share_pos
  omega

lemma Watching.others_pos (hc : c ≠ A) : 0 < w.store.versions.watchers - (w.conn c).watched.length := by
  have hle : ((w.conn A).watched.length + (w.conn c).watched.length : Int) ≤ w.store.versions.watchers :=
    Covers.pair_le h.covered hc.symm
  have := h.share_pos
  omega

omit [DecidableEq ι] in
lemma Watching.next (hcov : w'.Covered)
    (hstored : (w'.conn A).watched.stored key = some v) (hcount : Counted key m w.store w'.store)
    (hops : w.ops + m ≤ w'.ops) : Watching A key v e base (n + m) w' where
  covered := hcov
  stored := hstored
  version := by rw [hcount.version, h.version, UInt64.ofNat_add, UInt64.add_assoc]
  kept h0 := (hcount.kept (by omega)).trans (h.kept (by omega))
  bound := by have := h.bound; omega

lemma Watching.setConn (hx : x.watched = (w.conn c).watched) : Watching A key v e base n (w.setConn c x) := by
  have hstored : ((w.setConn c x).conn A).watched.stored key = some v := by
    by_cases hc : A = c
    · subst hc
      rw [setConn_self, hx]
      exact h.stored
    · rw [setConn_of_ne hc]
      exact h.stored
  exact h.next (h.covered.setConn hx) hstored (.refl key w.store) le_rfl

lemma Watching.drop (hc : c ≠ A) (hx : x.watched = []) : Watching A key v e base n ((w.dropWatched c).setConn c x) := by
  have hstored : (((w.dropWatched c).setConn c x).conn A).watched.stored key = some v := by
    rw [setConn_of_ne hc.symm, dropWatched_conn]
    exact h.stored
  have hcount : Counted key 0 w.store ((w.dropWatched c).setConn c x).store :=
    ⟨by simp [dropWatched_version (h.others_pos hc)], fun _ => by simp⟩
  exact h.next (h.covered.drop hx) hstored hcount (by simp)

lemma Watching.reset (hc : c ≠ A) : Watching A key v e base n (w.reset c) :=
  h.drop hc rfl

lemma Watching.unwatch (hc : c ≠ A) : Watching A key v e base n (w.unwatch c) := by
  unfold World.unwatch
  split_ifs with htx
  · exact h.drop hc (unwatchCommand_watched htx)
  · exact h

end

omit [DecidableEq ι] in
lemma execute_counted (hpos : 0 < w.store.versions.watchers) (hann : Announced sv key w argv) :
    ∃ m ≤ (w.call sv argv).2.length + 1, Counted key m w.store (w.execute sv argv).2.store := by
  have hpos' : 0 < (w.store.performAll (w.call sv argv).2).versions.watchers := by
    rw [performAll_watchers]
    exact hpos
  rw [execute_store]
  by_cases hs : ∃ o ∈ (w.call sv argv).2, o.silentOn key = true
  · obtain ⟨ha, hkey⟩ := hann hs
    obtain ⟨m, hm, hv⟩ := performAll_version (w.call sv argv).2 hpos
    refine ⟨m + 1, by omega, ?_, nofun⟩
    rw [if_pos ha, touch, Versions.touch_eq _ hpos', hkey, Versions.count_version, hv]
    simp [UInt64.add_assoc]
  have hloud : ∀ o ∈ (w.call sv argv).2, o.silentOn key = false := fun o ho =>
    Bool.eq_false_iff.2 fun h => hs ⟨o, ho, h⟩
  obtain ⟨m, hm, hc⟩ := performAll_counted (w.call sv argv).2 hpos hloud
  split_ifs
  · by_cases hkey : key = argv.getD 1 []
    · refine ⟨m + 1, by omega, ?_, nofun⟩
      rw [touch, Versions.touch_eq _ hpos', Versions.count_version, hc.version, if_pos hkey]
      simp [UInt64.add_assoc]
    refine ⟨m, by omega, ?_, hc.kept⟩
    rw [touch, Versions.touch_eq _ hpos', Versions.count_version, hc.version, if_neg hkey]
    simp
  · exact ⟨m, by omega, hc⟩

omit [DecidableEq ι] in
lemma Watching.execute (h : Watching A key v e base n w) (hann : Announced sv key w argv) :
    ∃ m, Watching A key v e base (n + m) (w.execute sv argv).2 := by
  obtain ⟨m, hm, hc⟩ := execute_counted h.watchers_pos hann
  exact ⟨m, h.next (h.covered.execute argv) h.stored hc (by rw [execute_ops]; omega)⟩

lemma Watching.executeQueued (h : Watching A key v e base n w) (hc : c ≠ A)
    (hann : isUnwatch argv = false → Announced sv key w argv) :
    ∃ m, Watching A key v e base (n + m) (w.executeQueued sv c argv).2 := by
  cases hu : isUnwatch argv with
  | true =>
    simp only [World.executeQueued, hu, if_true]
    exact ⟨0, h.unwatch hc⟩
  | false =>
    simp only [World.executeQueued, hu, Bool.false_eq_true, if_false]
    exact h.execute (hann hu)

lemma Watching.executeAll (hc : c ≠ A) : ∀ (queued : List Argv) {w : World ι} {n : Nat},
    Watching A key v e base n w → AllAnnounced sv key c w queued →
    ∃ m, Watching A key v e base (n + m) (World.executeAll sv c w queued).2
  | [], w, n, h, _ => ⟨0, h⟩
  | argv :: rest, w, n, h, ⟨hann, hrest⟩ => by
    obtain ⟨m, h'⟩ := h.executeQueued hc hann
    obtain ⟨m', h''⟩ := Watching.executeAll hc rest h' hrest
    exact ⟨m + m', by rwa [← Nat.add_assoc]⟩

lemma Watching.exec (h : Watching A key v e base n w) (hg : Watchful sv A key w (.exec c)) :
    ∃ m, Watching A key v e base (n + m) (w.exec sv c).2 := by
  by_cases hm : (w.conn c).session.inMulti = true
  · have hc : c ≠ A := by
      rintro rfl
      exact hg.goes_on (.inr ⟨.inr rfl, hm⟩)
    rw [World.exec, if_pos hm]
    cases hv : execVerdict w.store.versions.version (w.conn c) with
    | inl reply => exact ⟨0, h.reset hc⟩
    | inr queued =>
      have hann : AllAnnounced sv key c (w.setConn c (w.conn c).running) queued := hg.traced queued hv
      obtain ⟨m, h'⟩ := Watching.executeAll hc queued (h.setConn (running_watched _)) hann
      exact ⟨m, h'.reset hc⟩
  · rw [World.exec, if_neg hm]
    exact ⟨0, h⟩

lemma watchCommand_stored (version : Bytes → UInt64) (argv : Argv) (x : Conn) (key : Bytes) :
    (watchCommand version argv x).2.watched.stored key =
      if x.tx.inMulti = false ∧ key ∈ argv.drop 1 then some (version key) else x.watched.stored key := by
  unfold watchCommand
  cases x.tx.inMulti with
  | true => simp [Conn.setTx]
  | false =>
    simp [Bool.false_eq_true, Watched.stored_foldl_put, true_and]

lemma Watching.watch (h : Watching A key v e base n w) (hg : Watchful sv A key w (.watch c argv))
    (hs : txStep sv w (.watch c argv) = some w') : Watching A key v e base n w' := by
  have hcov := txStep_covered h.covered hs
  have hcount : Counted key 0 w.store w'.store := by
    cases hs
    exact ⟨by simp [World.setVersions], fun _ => rfl⟩
  cases hs
  refine h.next hcov ?_ hcount le_rfl
  by_cases hc : A = c
  · subst hc
    rw [setConn_self, watchCommand_stored]
    split_ifs with hk
    · rw [← hg.again argv rfl hk.2]
      exact h.stored
    · exact h.stored
  · rw [setConn_of_ne hc]
    exact h.stored

lemma txStep_watching (h : Watching A key v e base n w) (hg : Watchful sv A key w a)
    (hs : txStep sv w a = some w') : ∃ m, Watching A key v e base (n + m) w' := by
  cases a with
  | command c argv =>
    cases txStep_guarded hs
    exact h.execute hg.traced
  | queue c argv =>
    cases txStep_guarded hs
    exact ⟨0, h.setConn rfl⟩
  | refuse c =>
    cases hs
    exact ⟨0, h.setConn rfl⟩
  | multi c =>
    cases hs
    exact ⟨0, h.setConn (multiCommand_watched _)⟩
  | discard c =>
    cases hs
    split_ifs with hm
    · refine ⟨0, h.reset ?_⟩
      rintro rfl
      exact hg.goes_on (.inr ⟨.inl rfl, hm⟩)
    · exact ⟨0, h⟩
  | watch c argv => exact ⟨0, h.watch hg hs⟩
  | unwatch c =>
    cases txStep_guarded hs
    refine ⟨0, h.unwatch ?_⟩
    rintro rfl
    exact hg.goes_on (.inl rfl)
  | exec c =>
    cases hs
    exact h.exec hg
  | reclaim k =>
    have hcov := txStep_covered h.covered hs
    cases txStep_guarded hs
    obtain ⟨m, hm, hc⟩ := perform_counted h.watchers_pos (show (DBOp.remove k).silentOn key = false from rfl)
    exact ⟨m, h.next hcov h.stored hc (Nat.add_le_add_left hm _)⟩
  | evict k =>
    have hcov := txStep_covered h.covered hs
    cases txStep_guarded hs
    have hk : k ≠ key := hg.traced
    obtain ⟨m, hm, hc⟩ := perform_counted h.watchers_pos (show (DBOp.evict k).silentOn key = false by
      simp [DBOp.silentOn, hk])
    exact ⟨m, h.next hcov h.stored hc (Nat.add_le_add_left hm _)⟩
  | tick now =>
    obtain ⟨-, rfl⟩ := txStep_guarded hs
    exact ⟨0, h.covered, h.stored, h.version, h.kept, h.bound⟩

lemma run_watching {as : List (TxAct ι)} (hrun : Run (txStep sv) (Watchful sv A key) w as w')
    (h : Watching A key v e base n w) : ∃ m, Watching A key v e base (n + m) w' := by
  refine hrun.inv (I := fun u => ∃ m, Watching A key v e base (n + m) u) ?_ ⟨0, h⟩
  rintro u u' a ⟨m, hu⟩ hg hs
  obtain ⟨m', hu'⟩ := txStep_watching hu hg hs
  exact ⟨m + m', by rwa [← Nat.add_assoc]⟩

end

/-! ## Time -/

section
variable {sv : Server} {w w' : World ι} {a : TxAct ι} {key : Bytes}

lemma unwatch_now (w : World ι) (c : ι) : (w.unwatch c).now = w.now := by
  unfold World.unwatch
  split_ifs
  · exact dropWatched_now
  · rfl

lemma executeQueued_now (w : World ι) (c : ι) (argv : Argv) : (w.executeQueued sv c argv).2.now = w.now := by
  unfold World.executeQueued
  split_ifs
  · exact unwatch_now w c
  · rfl

lemma executeAll_now (c : ι) : ∀ (queued : List Argv) (w : World ι), (World.executeAll sv c w queued).2.now = w.now
  | [], _ => rfl
  | argv :: rest, w => (executeAll_now c rest _).trans (executeQueued_now w c argv)

lemma exec_now (w : World ι) (c : ι) : (w.exec sv c).2.now = w.now := by
  unfold World.exec
  split_ifs
  · split
    · exact dropWatched_now
    · exact dropWatched_now.trans (executeAll_now ..)
  · rfl

lemma txStep_now (hs : txStep sv w a = some w') : w.now.ms ≤ w'.now.ms := by
  cases a with
  | tick now =>
    obtain ⟨hle, rfl⟩ := txStep_guarded hs
    exact Nat.div_le_div_right hle
  | exec c =>
    cases hs
    exact (congrArg Clock.ms (exec_now w c)).ge
  | discard c =>
    cases hs
    split_ifs
    · exact (congrArg Clock.ms dropWatched_now).ge
    · exact le_rfl
  | unwatch c =>
    cases txStep_guarded hs
    exact (congrArg Clock.ms (unwatch_now w c)).ge
  | refuse | multi | watch => cases hs; exact le_rfl
  | command | queue | reclaim | evict =>
    cases txStep_guarded hs
    exact le_rfl

lemma run_now {G : World ι → TxAct ι → Prop} {as : List (TxAct ι)} (hrun : Run (txStep sv) G w as w') :
    w.now.ms ≤ w'.now.ms :=
  hrun.inv (I := fun u => w.now.ms ≤ u.now.ms) (fun hle _ hs => hle.trans (txStep_now hs)) le_rfl

omit [DecidableEq ι] in
lemma expired_of_value_ne {e : Option Entry} (hw : w.store.db.lookup key = e) (hw' : w'.store.db.lookup key = e)
    (hle : w.now.ms ≤ w'.now.ms) (hne : w.value key ≠ w'.value key) :
    ∃ x, e = some x ∧ x.expired w.now.ms = false ∧ x.expired w'.now.ms = true := by
  simp only [World.value, live_eq, hw, hw'] at hne
  cases e with
  | none => exact absurd rfl hne
  | some x =>
  rw [liveEntry_some, liveEntry_some] at hne
  cases hx : x.expired w.now.ms with
  | true =>
    have hx' := Entry.expired_mono (Int.ofNat_le.2 hle) hx
    simp [hx, hx'] at hne
  | false =>
    cases hx' : x.expired w'.now.ms with
    | true => exact ⟨x, rfl, hx, hx'⟩
    | false => simp [hx, hx'] at hne

end

/-! ## EXEC -/

section
variable {sv : Server} {A : ι} {key : Bytes}

lemma exec_of_conflict {w : World ι} {v : UInt64} (hm : (w.conn A).session.inMulti = true)
    (hclean : (w.conn A).tx.dirtyCAS = false) (hs : (w.conn A).watched.stored key = some v)
    (hv : w.store.versions.version key ≠ v) : w.exec sv A = (nullArray, w.reset A) := by
  have hconf : (w.conn A).conflict w.store.versions.version = true :=
    any_eq_true.2 ⟨_, Watched.mem_of_stored hs, by simpa using hv⟩
  simp [World.exec, if_pos hm, execVerdict, hclean, hconf]

/-- `A` watches a key outside a transaction, and the key is changed before its `EXEC`. If no step on the
way changes the key without a trace, `A` watches it again only while it has not changed, fewer than `2 ^ 64`
operations are performed, no command of the transaction was refused, and the key has not just passed its deadline,
then `EXEC` executes nothing and replies the null array. -/
theorem watched_change_aborts {now : Clock} {db : Keyspace} {before as bs : List (TxAct ι)} {a : TxAct ι}
    {w₀ w₁ u u' w₂ : World ι} {argv : Argv} (hreach : Run (txStep sv) Free (.start now db) before w₀)
    (hnormal : (w₀.conn A).session.inMulti = false)
    (hwatch : txStep sv w₀ (.watch A argv) = some w₁) (hkey : key ∈ argv.drop 1)
    (hrun : Run (txStep sv) (Watchful sv A key) w₁ as u) (hguard : Watchful sv A key u a)
    (hstep : txStep sv u a = some u') (hrun' : Run (txStep sv) (Watchful sv A key) u' bs w₂)
    (hchange : u.value key ≠ u'.value key)
    (hmulti : (w₂.conn A).session.inMulti = true) (hclean : (w₂.conn A).tx.dirtyCAS = false) (hops : w₂.ops < w₁.ops + 2 ^ 64)
    (hdeadline : w₂.store.db.isExpired w₂.now key = true → w₁.store.db.isExpired w₁.now key = true) :
    w₂.exec sv A = (nullArray, w₂.reset A) := by
  have hcov0 : w₀.Covered := hreach.inv (fun h _ hs => txStep_covered h hs) Covers.none
  have htx : (w₀.conn A).tx.inMulti = false := by
    rw [Conn.tx]
    cases htx : (w₀.conn A).session.tx with
    | none => rfl
    | some tx => simpa [Session.inMulti, htx] using hnormal
  -- when it is watched, the version stored is the current one
  have h1 : Watching A key (w₁.store.versions.version key) (w₁.store.db.lookup key) w₁.ops 0 w₁ := by
    refine ⟨txStep_covered hcov0 hwatch, ?_, by simp, fun _ => rfl, le_rfl⟩
    cases hwatch
    rw [setConn_self, watchCommand_stored, if_pos ⟨htx, hkey⟩]
    rfl
  obtain ⟨n1, hu⟩ := run_watching hrun h1
  obtain ⟨n2, hu'⟩ := txStep_watching hu hguard hstep
  obtain ⟨n3, hw2⟩ := run_watching hrun' hu'
  refine exec_of_conflict hmulti hclean hw2.stored ?_
  rw [hw2.version]
  -- a key that was never counted is as it was, so it has only passed its deadline
  have hpos : 0 + n1 + n2 + n3 ≠ 0 := by
    intro h0
    obtain ⟨x, hx, hfresh, hold⟩ :=
      expired_of_value_ne (hu.kept (by omega)) (hu'.kept (by omega)) (txStep_now hstep) hchange
    have hold2 : w₂.store.db.isExpired w₂.now key = true := by
      rw [Keyspace.isExpired, hw2.kept h0, hx]
      exact Entry.expired_mono (Int.ofNat_le.2 (run_now hrun')) hold
    have hold1 := hdeadline hold2
    rw [Keyspace.isExpired, hx] at hold1
    rw [Entry.expired_mono (Int.ofNat_le.2 (run_now hrun)) hold1] at hfresh
    cases hfresh
  have hlt : 0 + n1 + n2 + n3 < 2 ^ 64 := by
    have := hw2.bound
    omega
  intro heq
  have hzero : UInt64.ofNat (0 + n1 + n2 + n3) = 0 := by simpa using heq
  have := congrArg UInt64.toNat hzero
  rw [UInt64.toNat_ofNat_of_lt' hlt] at this
  exact hpos this

end

/-! ## The commands on two keys -/

def storeCommands : List (Bytes × StoreCommand) :=
  [(ascii "rename", ⟨true, renameCommand⟩), (ascii "renamenx", ⟨true, renamenxCommand⟩),
    (ascii "copy", ⟨true, copyCommand⟩), (ascii "lmove", ⟨true, lmoveCommand⟩),
    (ascii "rpoplpush", ⟨true, rpoplpushCommand⟩), (ascii "smove", ⟨true, smoveCommand⟩),
    (ascii "sinterstore", ⟨true, sinterstoreCommand⟩), (ascii "sunionstore", ⟨true, sunionstoreCommand⟩),
    (ascii "sdiffstore", ⟨true, sdiffstoreCommand⟩)]

/-- The commands that move an element into their second key. -/
def movesInto : List Bytes := [ascii "lmove", ascii "rpoplpush", ascii "smove"]

variable (promotes : Nat → Bytes → Bool)

/-- A server with these commands; a request with another name is refused and does nothing. -/
def storeServer : Server where
  command argv :=
    ((storeCommands.find? fun c => argv.head?.any fun name => toLowerASCII name = c.1).map Prod.snd).getD
      ⟨false, fun _ _ => pure (error (ascii "unknown command"))⟩
  promotes := promotes

section
variable {sv : Server} {w : World ι} {key : Bytes} {argv : Argv}

omit [DecidableEq ι] in
lemma announced_of_loud (h : (StoreM.Loud key ((sv.command argv).run ⟨w.now, sv.promotes w.ops⟩ argv))) :
    Announced sv key w argv := by
  rintro ⟨o, ho, hs⟩
  rw [h w.store.db o ho] at hs
  cases hs

omit [DecidableEq ι] in
lemma announced_of_succeeds (hwrite : (sv.command argv).isWrite = true) (hlen : 2 ≤ argv.length)
    (hs : Succeeds ((sv.command argv).run ⟨w.now, sv.promotes w.ops⟩ argv) w.store.db)
    (hkey : argv.getD 1 [] ≠ key → StoreM.Loud key ((sv.command argv).run ⟨w.now, sv.promotes w.ops⟩ argv)) :
    Announced sv key w argv := by
  by_cases hk : argv.getD 1 [] = key
  · rintro ⟨o, ho, hsilent⟩
    have hreply : succeeded (w.call sv argv).1 = true := hs ⟨o, ho, key, hsilent⟩
    exact ⟨by simp [StoreCommand.announces, hwrite, hreply, hlen], hk⟩
  · exact announced_of_loud (hkey hk)

omit [DecidableEq ι] in
lemma storeServer_announced (w : World ι) (hlen : 2 ≤ argv.length)
    (h : argv.getD 2 [] = key → argv.head?.any (fun name => toLowerASCII name ∈ movesInto) = false) :
    Announced (storeServer promotes) key w argv := by
  cases hf : storeCommands.find? fun c => argv.head?.any fun name => toLowerASCII name = c.1 with
  | none =>
    have hcmd : (storeServer promotes).command argv = ⟨false, fun _ _ => pure (error (ascii "unknown command"))⟩ := by
      simp [storeServer, hf, Option.map_none, Option.getD_none]
    refine announced_of_loud ?_
    rw [hcmd]
    exact StoreM.loud_pure _
  | some c =>
  have hcmd : (storeServer promotes).command argv = c.2 := by
    simp [storeServer, hf, Option.map_some, Option.getD_some]
  have hname := find?_some hf
  have hdst : c.1 ∈ movesInto → argv.getD 2 [] ≠ key := by
    intro hc he
    obtain ⟨name, hn, hname'⟩ := (Option.any_eq_true ..).1 hname
    have := h he
    rw [hn, Option.any_some, of_decide_eq_true hname'] at this
    simp [hc] at this
  have hmem := mem_of_find?_eq_some hf
  simp only [storeCommands, mem_cons, not_mem_nil, or_false] at hmem
  rcases hmem with rfl | rfl | rfl | rfl | rfl | rfl | rfl | rfl | rfl
  iterate 2 exact announced_of_loud (by rw [hcmd]; exact renameGeneric_loud)
  · exact announced_of_loud (by rw [hcmd]; exact copyCommand_loud)
  iterate 2
    have hd := hdst (by decide)
    exact announced_of_succeeds (by rw [hcmd]) hlen (by rw [hcmd]; exact lmoveGeneric_succeeds _ _ _)
      fun hs => by rw [hcmd]; exact lmoveGeneric_loud _ _ hs hd
  · have hd := hdst (by decide)
    exact announced_of_succeeds (by rw [hcmd]) hlen (by rw [hcmd]; exact smoveCommand_succeeds _)
      fun hs => by rw [hcmd]; exact smoveCommand_loud hs hd
  all_goals
    exact announced_of_succeeds (by rw [hcmd]) hlen (by rw [hcmd]; exact storeOp_succeeds _ _)
      fun hs => by rw [hcmd]; exact storeOp_loud _ hs

end

/-! ## Missed and seen -/

def atStart : Clock := .zero

def twoLists : Keyspace :=
  ((∅ : Keyspace).insert (ascii "src") ⟨.list [ascii "x"], 0⟩).insert (ascii "dst") ⟨.list [ascii "y"], 0⟩

/-- A server whose lists stay small. -/
def smallServer : Server := storeServer fun _ _ => false

def watchDst : TxAct Bool := .watch true [ascii "WATCH", ascii "dst"]

/-- One connection watches `dst`, another moves an element into it; the transaction is executed. -/
theorem lmove_into_watched_unseen : ∃ w₁ u w₂ : World Bool,
      txStep smallServer (.start atStart twoLists) watchDst = some w₁ ∧ txStep smallServer w₁
        (.command false [ascii "LMOVE", ascii "src", ascii "dst", ascii "LEFT", ascii "LEFT"]) = some u ∧
      w₁.value (ascii "dst") ≠ u.value (ascii "dst") ∧ runAll (txStep smallServer) u
        [.multi true, .queue true [ascii "RENAME", ascii "dst", ascii "out"]] = some w₂ ∧
      (w₂.exec smallServer true).1 = array [ok] ∧
      (w₂.exec smallServer true).2.value (ascii "out") = some (.list [ascii "x", ascii "y"]) := by
  refine ⟨_, _, _, rfl, rfl, ?_, rfl, rfl, rfl⟩
  decide

/-- The key is renamed onto instead, and the transaction is not executed. -/
theorem rename_onto_watched_seen : ∃ w₂ : World Bool, Run (txStep smallServer) Free (.start atStart twoLists)
        [watchDst, .command false [ascii "RENAME", ascii "src", ascii "dst"], .multi true,
          .queue true [ascii "RENAME", ascii "dst", ascii "out"]] w₂ ∧
      w₂.exec smallServer true = (nullArray, w₂.reset true) := by
  have hrename : ∀ w : World Bool, Watchful smallServer true (ascii "dst") w
      (.command false [ascii "RENAME", ascii "src", ascii "dst"]) := by
    intro w
    refine ⟨?_, storeServer_announced _ w (by decide) (by decide), nofun⟩
    rintro (h | ⟨h | h, -⟩) <;> cases h
  have hmulti : ∀ w : World Bool, Watchful smallServer true (ascii "dst") w (.multi true) := by
    intro w
    refine ⟨?_, trivial, nofun⟩
    rintro (h | ⟨h | h, -⟩) <;> cases h
  have hqueue : ∀ w : World Bool, Watchful smallServer true (ascii "dst") w
      (.queue true [ascii "RENAME", ascii "dst", ascii "out"]) := by
    intro w
    refine ⟨?_, trivial, nofun⟩
    rintro (h | ⟨h | h, -⟩) <;> cases h
  refine ⟨_, .of_runAll rfl, ?_⟩
  exact watched_change_aborts (.nil _) rfl (show txStep smallServer _ watchDst = some _ from rfl)
    (show ascii "dst" ∈ _ by decide) (.nil _) (hrename _) rfl (.cons (hmulti _) rfl (.cons (hqueue _) rfl (.nil _)))
    (by decide) rfl rfl (by decide) (by decide)

end Gopherdis.Command

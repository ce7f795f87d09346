/-
Consumer groups. A group knows the ID last delivered, who owns each entry that was delivered and not
acknowledged, and for each consumer the IDs it was given. Reading, acknowledging and claiming change both
indexes. They agree as long as nobody claims an entry of someone else: the former owner keeps it in its
own list, from where an acknowledgement no longer removes it.
-/
import Gopherdis.Lib.Runs
import Gopherdis.Stream.Range
import Mathlib.Data.Finmap

namespace Gopherdis.Stream

open Lib List Finmap

/-! ## The group -/

/-- An entry that is pending; its ID is the key it is stored under. -/
structure NackEntry where
  consumerName : Bytes
  deliveryTime : Int
  deliveryCount : Nat
deriving DecidableEq, Repr

/-- A consumer, with the IDs in its list. The list points to the entries of the group and only its IDs are
read. -/
structure Consumer where
  activeTime : Int
  pel : Finset StreamID

structure ConsumerGroup where
  lastDeliveredID : StreamID
  pel : Finmap fun _ : StreamID => NackEntry
  consumers : Finmap fun _ : Bytes => Consumer

variable {g : ConsumerGroup} {id : StreamID}

def newConsumerGroup (startID : StreamID) : ConsumerGroup := ⟨startID, ∅, ∅⟩

namespace ConsumerGroup

variable (g : ConsumerGroup) (now : Int)

def getOrCreateConsumer (name : Bytes) : ConsumerGroup × Consumer :=
  let c : Consumer :=
    match g.consumers.lookup name with
    | none => ⟨now, ∅⟩
    | some c => { c with activeTime := now }
  ({ g with consumers := g.consumers.insert name c }, c)

/-- A former owner of the entry is not told. -/
def addPending (consumerName : Bytes) (id : StreamID) : ConsumerGroup :=
  let gc := g.getOrCreateConsumer now consumerName
  let entry : NackEntry :=
    match gc.1.pel.lookup id with
    | some entry => ⟨consumerName, now, entry.deliveryCount + 1⟩
    | none => ⟨consumerName, now, 1⟩
  { gc.1 with
    pel := gc.1.pel.insert id entry
    consumers := gc.1.consumers.insert consumerName { gc.2 with pel := insert id gc.2.pel } }

/-- The group, and whether the entry was pending. -/
def ack (id : StreamID) : ConsumerGroup × Bool :=
  match g.pel.lookup id with
  | none => (g, false)
  | some nack =>
  ({ g with
      pel := g.pel.erase id
      consumers :=
        match g.consumers.lookup nack.consumerName with
        | none => g.consumers
        | some c => g.consumers.insert nack.consumerName { c with pel := c.pel.erase id } }, true)

/-- An entry handed to a consumer. -/
def deliver (noAck : Bool) (consumerName : Bytes) (id : StreamID) : ConsumerGroup :=
  { (if noAck then g else g.addPending now consumerName id) with lastDeliveredID := id }

/-- Whether a pending entry has been idle for long enough to be claimed. -/
def claimable (minIdleMs : Int) (id : StreamID) : Bool :=
  (g.pel.lookup id).any fun nack => minIdleMs ≤ now - nack.deliveryTime

end ConsumerGroup

open ConsumerGroup

/-! ## The operations of the stream

A group is looked up by its name first; without one there is nothing to do. The clock is read once for an
operation. -/

/-- The walk of a read for new entries, with the number of entries found so far. -/
def readNew (now : Int) (noAck : Bool) (consumerName : Bytes) (count : Int) :
    ConsumerGroup → Nat → List EntryRecord → ConsumerGroup × List EntryRecord
  | g, _, [] => (g, [])
  | g, found, r :: rs =>
    if r.deleted then readNew now noAck consumerName count g found rs
    else if ¬ g.lastDeliveredID.lt r.id then readNew now noAck consumerName count g found rs
    else
      let g := g.deliver now noAck consumerName r.id
      if 0 < count ∧ count ≤ (found + 1 : Nat) then (g, [r])
      else
        let rest := readNew now noAck consumerName count g (found + 1) rs
        (rest.1, r :: rest.2)

/-- The walk of a read for the entries a consumer has already been given. -/
def readPending (startID : StreamID) (pel : Finset StreamID) (count : Int) : Nat → List EntryRecord → List EntryRecord
  | _, [] => []
  | found, r :: rs =>
    if r.deleted then readPending startID pel count found rs
    else if ¬ startID.lt r.id then readPending startID pel count found rs
    else if r.id ∈ pel then
      if 0 < count ∧ count ≤ (found + 1 : Nat) then [r] else r :: readPending startID pel count (found + 1) rs
    else readPending startID pel count found rs

def Stream.readGroup (s : Stream) (g : ConsumerGroup) (now : Int) (consumerName : Bytes) (startID : StreamID)
    (isNew : Bool) (count : Int) (noAck : Bool) : ConsumerGroup × List StreamEntry :=
  if isNew then
    let r := readNew now noAck consumerName count g 0 (allIn s.chunks)
    (r.1, r.2.map s.unpackEntry)
  else
    let gc := g.getOrCreateConsumer now consumerName
    (gc.1, (readPending startID gc.2.pel count 0 (allIn s.chunks)).map s.unpackEntry)

/-- The group after the acknowledgements, and how many entries were pending. -/
def ackAll : ConsumerGroup → List StreamID → ConsumerGroup × Nat
  | g, [] => (g, 0)
  | g, id :: ids =>
    let r := ackAll (g.ack id).1 ids
    (r.1, if (g.ack id).2 then r.2 + 1 else r.2)

/-- The group after the claims, and the IDs claimed. -/
def claimAll (now : Int) (consumerName : Bytes) (minIdleMs : Int) :
    ConsumerGroup → List StreamID → ConsumerGroup × List StreamID
  | g, [] => (g, [])
  | g, id :: ids =>
    if g.claimable now minIdleMs id then
      let r := claimAll now consumerName minIdleMs (g.addPending now consumerName id) ids
      (r.1, id :: r.2)
    else claimAll now consumerName minIdleMs g ids

def Stream.claim (s : Stream) (g : ConsumerGroup) (now : Int) (consumerName : Bytes) (minIdleMs : Int)
    (ids : List StreamID) : ConsumerGroup × List StreamEntry :=
  let r := claimAll now consumerName minIdleMs g ids
  (r.1, (s.records.filter fun rec => rec.id ∈ r.2).map s.unpackEntry)

/-! ## The two indexes -/

namespace ConsumerGroup

variable (g : ConsumerGroup)

def owner (id : StreamID) : Option Bytes := (g.pel.lookup id).map NackEntry.consumerName

def pelOf (name : Bytes) : Finset StreamID := (g.consumers.lookup name).elim ∅ Consumer.pel

/-- The group has an entry as owned by a consumer exactly if the consumer has it. -/
def Consistent : Prop := ∀ id name, g.owner id = some name ↔ id ∈ g.pelOf name

/-- Nothing is pending that has not been delivered yet. -/
def Behind : Prop := ∀ id, g.lastDeliveredID.lt id = true → g.owner id = none

lemma newConsumerGroup_consistent (startID : StreamID) :
    (newConsumerGroup startID).Consistent ∧ (newConsumerGroup startID).Behind := by
  constructor
  · intro id name
    simp [newConsumerGroup, owner, pelOf]
  · intro id _
    rfl

variable (g : ConsumerGroup) (now : Int) (name : Bytes) (id : StreamID)

lemma getOrCreateConsumer_pel : (g.getOrCreateConsumer now name).2.pel = g.pelOf name := by
  unfold getOrCreateConsumer pelOf
  cases g.consumers.lookup name <;> rfl

variable (name' : Bytes)

lemma pelOf_getOrCreateConsumer : (g.getOrCreateConsumer now name).1.pelOf name' = g.pelOf name' := by
  by_cases hn : name' = name
  · subst hn
    rw [← g.getOrCreateConsumer_pel now name']
    simp [pelOf, getOrCreateConsumer]
  · simp [pelOf, getOrCreateConsumer, lookup_insert_of_ne _ hn]

lemma pelOf_addPending :
    (g.addPending now name id).pelOf name' = if name' = name then insert id (g.pelOf name) else g.pelOf name' := by
  split_ifs with hn
  · subst hn
    rw [← g.getOrCreateConsumer_pel now name']
    simp [pelOf, addPending]
  · rw [← g.pelOf_getOrCreateConsumer now name name']
    simp [pelOf, addPending, lookup_insert_of_ne _ hn]

lemma owner_addPending (id' : StreamID) :
    (g.addPending now name id).owner id' = if id' = id then some name else g.owner id' := by
  split_ifs with hid
  · subst hid
    simp only [owner, addPending, lookup_insert, Option.map_some]
    split <;> rfl
  · simp [owner, addPending, lookup_insert_of_ne _ hid, getOrCreateConsumer]

lemma owner_ack (id' : StreamID) : (g.ack id).1.owner id' = if id' = id then none else g.owner id' := by
  unfold ack
  cases hl : g.pel.lookup id with
  | none =>
    split_ifs with hid
    · subst hid; simp [owner, hl]
    · rfl
  | some nack =>
    split_ifs with hid
    · subst hid; simp [owner, lookup_erase]
    · simp [owner, lookup_erase_ne hid]

lemma pelOf_ack :
    (g.ack id).1.pelOf name' = if g.owner id = some name' then (g.pelOf name').erase id else g.pelOf name' := by
  unfold ack owner
  cases hl : g.pel.lookup id with
  | none => simp
  | some nack =>
  simp only [Option.map_some, Option.some.injEq]
  cases hc : g.consumers.lookup nack.consumerName with
  | none =>
    split_ifs with hn
    · subst hn; simp [pelOf, hc]
    · rfl
  | some c =>
    split_ifs with hn
    · subst hn; simp [pelOf, hc]
    · simp [pelOf, lookup_insert_of_ne _ (Ne.symm hn)]

@[simp] lemma lastDeliveredID_ack : (g.ack id).1.lastDeliveredID = g.lastDeliveredID := by
  unfold ack
  cases g.pel.lookup id <;> rfl

lemma claimable_iff (minIdleMs : Int) : g.claimable now minIdleMs id = true ↔
      ∃ nack, g.pel.lookup id = some nack ∧ minIdleMs ≤ now - nack.deliveryTime := by
  simp [claimable, Option.any_eq_true]

lemma claimable_addPending_of_ne (minIdleMs : Int) {id' : StreamID} (hne : id' ≠ id) :
    (g.addPending now name id).claimable now minIdleMs id' = g.claimable now minIdleMs id' := by
  simp [claimable, addPending, lookup_insert_of_ne _ hne, getOrCreateConsumer]

/-! ## What each operation does to them -/

variable {g}

lemma Consistent.addPending (h : g.Consistent) (hfree : g.owner id = none) : (g.addPending now name id).Consistent := by
  intro id' name'
  rw [owner_addPending, pelOf_addPending]
  by_cases hid : id' = id
  · subst hid
    have hnot : id' ∉ g.pelOf name' := by
      rw [← h, hfree]
      exact Option.some_ne_none _ ∘ Eq.symm
    by_cases hn : name' = name
    · simp [hn]
    · simp [hn, hnot, Ne.symm hn]
  · by_cases hn : name' = name
    · subst hn
      simp [hid, h id' name']
    · simp [hid, hn, h id' name']

lemma Consistent.ack (h : g.Consistent) : (g.ack id).1.Consistent := by
  intro id' name'
  rw [owner_ack, pelOf_ack]
  by_cases hid : id' = id
  · subst hid
    by_cases ho : g.owner id' = some name'
    · simp [ho]
    · simp [ho, ← h id' name']
  · by_cases ho : g.owner id = some name'
    all_goals simp [ho, hid, h id' name']

lemma Behind.ack (h : g.Behind) : (g.ack id).1.Behind := by
  intro id' hlt
  rw [owner_ack]
  split_ifs
  · rfl
  · exact h id' (by simpa using hlt)

lemma Behind.deliver (hb : g.Behind) (noAck : Bool) (hlt : g.lastDeliveredID.lt id = true) :
    (g.deliver now noAck name id).Behind := by
  intro id' hlt'
  change id.lt id' = true at hlt'
  have hnone := hb id' (StreamID.lt_trans hlt hlt')
  cases noAck with
  | true => exact hnone
  | false =>
  have hne : id' ≠ id := by
    rintro rfl
    rw [StreamID.lt_irrefl] at hlt'
    cases hlt'
  exact ((g.owner_addPending now name id id').trans (if_neg hne)).trans hnone

lemma Consistent.deliver (h : g.Consistent) (hb : g.Behind) (noAck : Bool) (hlt : g.lastDeliveredID.lt id = true) :
    (g.deliver now noAck name id).Consistent := by
  cases noAck with
  | true => exact h
  | false => exact h.addPending now name id (hb id hlt)

lemma owner_deliver_of_ne (noAck : Bool) {id' : StreamID} (hne : id' ≠ id) :
    (g.deliver now noAck name id).owner id' = g.owner id' := by
  cases noAck with
  | true => rfl
  | false => exact (g.owner_addPending now name id id').trans (if_neg hne)

end ConsumerGroup

section Reading

variable (now : Int) (noAck : Bool) (consumerName : Bytes) (count : Int)

lemma readNew_deliver (g : ConsumerGroup) (found : Nat) (rs : List EntryRecord) :
    (readNew now noAck consumerName count g found rs).1 =
        ((readNew now noAck consumerName count g found rs).2.map EntryRecord.id).foldl
          (fun g id => g.deliver now noAck consumerName id) g ∧
      (g.lastDeliveredID :: (readNew now noAck consumerName count g found rs).2.map EntryRecord.id).Pairwise
        (fun a b => a.lt b = true) := by
  induction rs generalizing g found with
  | nil => exact ⟨rfl, pairwise_singleton _ _⟩
  | cons r rs ih =>
  rw [readNew]
  split_ifs with hdel hlt hfull
  · exact ih g found
  · exact ⟨rfl, by simpa using hlt⟩
  · obtain ⟨hfold, hrise⟩ := ih (g.deliver now noAck consumerName r.id) (found + 1)
    refine ⟨hfold, pairwise_cons.2 ⟨fun id hid => ?_, hrise⟩⟩
    rcases mem_cons.1 hid with rfl | hid
    · exact hlt
    · exact StreamID.lt_trans hlt ((pairwise_cons.1 hrise).1 id hid)
  · exact ih g found

lemma readNew_spec (hb : g.Behind) (found : Nat) (rs : List EntryRecord) :
    (readNew now noAck consumerName count g found rs).1.Behind ∧
      (g.Consistent → (readNew now noAck consumerName count g found rs).1.Consistent) ∧
      ∀ id, id ∉ (readNew now noAck consumerName count g found rs).2.map EntryRecord.id →
        (readNew now noAck consumerName count g found rs).1.owner id = g.owner id := by
  obtain ⟨hfold, hrise⟩ := readNew_deliver now noAck consumerName count g found rs
  rw [hfold]
  generalize (readNew now noAck consumerName count g found rs).2.map EntryRecord.id = ids at hrise
  clear hfold
  induction ids generalizing g with
  | nil => exact ⟨hb, id, fun _ _ => rfl⟩
  | cons id ids ih =>
  obtain ⟨hfirst, hrest⟩ := pairwise_cons.1 hrise
  have hlt := hfirst id mem_cons_self
  obtain ⟨hb', hcons, howner⟩ := ih (hb.deliver now consumerName id noAck hlt) hrest
  refine ⟨hb', fun h => hcons (h.deliver now consumerName id hb noAck hlt), fun id' hid' => ?_⟩
  rw [mem_cons, not_or] at hid'
  exact (howner id' hid'.2).trans (owner_deliver_of_ne now consumerName id noAck hid'.1)

end Reading

lemma readPending_mem {startID : StreamID} {pel : Finset StreamID} {count : Int} {found : Nat}
    {rs : List EntryRecord} {r : EntryRecord} (h : r ∈ readPending startID pel count found rs) : r.id ∈ pel := by
  induction rs generalizing found with
  | nil => cases h
  | cons r' rs ih =>
  rw [readPending] at h
  split_ifs at h with hdel hlt hin hfull
  · exact ih h
  · rw [mem_singleton.1 h]; exact hin
  · rcases mem_cons.1 h with rfl | h
    · exact hin
    · exact ih h
  all_goals exact ih h

lemma ackAll_spec (hb : g.Behind) (ids : List StreamID) :
    (ackAll g ids).1.Behind ∧ (g.Consistent → (ackAll g ids).1.Consistent) ∧
      ∀ id, (ackAll g ids).1.owner id = if id ∈ ids then none else g.owner id := by
  induction ids generalizing g with
  | nil => exact ⟨hb, id, fun id => by simp [ackAll]⟩
  | cons id ids ih =>
  obtain ⟨hb', hcons, howner⟩ := ih (hb.ack id)
  refine ⟨hb', fun h => hcons (h.ack id), fun id' => (howner id').trans ?_⟩
  rw [owner_ack]
  by_cases hin : id' ∈ ids
  · simp [hin]
  · by_cases hid : id' = id <;> simp [hin, hid]

section Claiming

variable (now : Int) (consumerName : Bytes) (minIdleMs : Int)

lemma claimAll_spec (g : ConsumerGroup) (ids : List StreamID) :
    (∀ id, id ∈ (claimAll now consumerName minIdleMs g ids).2 ↔ id ∈ ids ∧ g.claimable now minIdleMs id = true) ∧
      (∀ id, (claimAll now consumerName minIdleMs g ids).1.owner id =
        if id ∈ ids ∧ g.claimable now minIdleMs id = true then some consumerName else g.owner id) ∧
      (∀ id name, id ∈ (claimAll now consumerName minIdleMs g ids).1.pelOf name ↔
        id ∈ g.pelOf name ∨ (name = consumerName ∧ id ∈ ids ∧ g.claimable now minIdleMs id = true)) ∧
      (claimAll now consumerName minIdleMs g ids).1.lastDeliveredID = g.lastDeliveredID := by
  induction ids generalizing g with
  | nil => simp [claimAll]
  | cons id ids ih =>
  rw [claimAll]
  split_ifs with hc
  · obtain ⟨hmem, howner, hpel, hlast⟩ := ih (g.addPending now consumerName id)
    -- an entry other than this one can be claimed as before
    have hne : ∀ id', id' ≠ id →
        (g.addPending now consumerName id).claimable now minIdleMs id' = g.claimable now minIdleMs id' :=
      fun id' h => g.claimable_addPending_of_ne now consumerName id minIdleMs h
    refine ⟨fun id' => ?_, fun id' => ?_, fun id' name => ?_, hlast⟩
    · by_cases hid : id' = id
      · subst hid; simp [hc]
      · simp [hmem, hid, hne id' hid]
    · by_cases hid : id' = id
      · subst hid; simp [howner, owner_addPending, hc]
      · simp [howner, owner_addPending, hid, hne id' hid]
    · rw [hpel, pelOf_addPending]
      by_cases hid : id' = id
      · subst hid
        by_cases hn : name = consumerName
        · simp [hn, hc]
        · simp [hn]
      · by_cases hn : name = consumerName
        · subst hn; simp [hid, hne id' hid]
        · simp [hn]
  · obtain ⟨hmem, howner, hpel, hlast⟩ := ih g
    refine ⟨fun id' => ?_, fun id' => ?_, fun id' name => ?_, hlast⟩
    · rw [hmem]
      by_cases hid : id' = id
      · subst hid; simp [hc]
      · simp [hid]
    · rw [howner]
      by_cases hid : id' = id
      · subst hid; simp [hc]
      · simp [hid]
    · rw [hpel]
      by_cases hid : id' = id
      · subst hid; simp [hc]
      · simp [hid]

lemma owner_isSome_of_claimable (h : g.claimable now minIdleMs id = true) : ∃ name, g.owner id = some name := by
  obtain ⟨nack, hl, -⟩ := (g.claimable_iff now id minIdleMs).1 h
  exact ⟨nack.consumerName, by simp [owner, hl]⟩

lemma claimAll_consistent_iff (h : g.Consistent) (ids : List StreamID) :
    (claimAll now consumerName minIdleMs g ids).1.Consistent ↔
      ∀ id ∈ ids, g.claimable now minIdleMs id = true → g.owner id = some consumerName := by
  obtain ⟨-, howner, hpel, -⟩ := claimAll_spec now consumerName minIdleMs g ids
  constructor
  · intro hcons id hin hc
    obtain ⟨name, hname⟩ := owner_isSome_of_claimable now minIdleMs hc
    have hstill := (hcons id name).2 ((hpel id name).2 (.inl ((h id name).1 hname)))
    rw [howner, if_pos ⟨hin, hc⟩] at hstill
    exact hname.trans hstill.symm
  · intro hown id name
    rw [howner, hpel]
    by_cases hc : id ∈ ids ∧ g.claimable now minIdleMs id = true
    · rw [if_pos hc, ← h id name, hown id hc.1 hc.2]
      simp [hc, eq_comm]
    · rw [if_neg hc, ← h id name]
      simp [hc, and_false, or_false]

lemma claimAll_behind (hb : g.Behind) (ids : List StreamID) : (claimAll now consumerName minIdleMs g ids).1.Behind := by
  obtain ⟨-, howner, -, hlast⟩ := claimAll_spec now consumerName minIdleMs g ids
  intro id hlt
  rw [hlast] at hlt
  rw [howner, if_neg]
  · exact hb id hlt
  · rintro ⟨-, hc⟩
    obtain ⟨name, hname⟩ := owner_isSome_of_claimable now minIdleMs hc
    rw [hb id hlt] at hname
    cases hname

end Claiming

/-! ## Runs -/

structure GroupedStream where
  stream : Stream
  group : ConsumerGroup

inductive GroupAct where
  | addRaw (id : StreamID) (pairs : List Bytes) (maxLen : Int) (approx : Bool)
  | delete (ids : List StreamID)
  | trim (maxLen : Int) (approx : Bool)
  | readGroup (now : Int) (consumerName : Bytes) (startID : StreamID) (isNew : Bool) (count : Int) (noAck : Bool)
  | ack (ids : List StreamID)
  | claim (now : Int) (consumerName : Bytes) (minIdleMs : Int) (ids : List StreamID)

variable {s s' : GroupedStream} {as : List GroupAct}

namespace GroupedStream

/-- The stream and the group after an operation, and the entries it returns. -/
def act (s : GroupedStream) : GroupAct → GroupedStream × List StreamEntry
  | .addRaw id pairs maxLen approx => ({ s with stream := (s.stream.addRaw id pairs maxLen approx).getD s.stream }, [])
  | .delete ids => ({ s with stream := s.stream.delete ids }, [])
  | .trim maxLen approx => ({ s with stream := s.stream.trimInternal maxLen approx }, [])
  | .readGroup now consumerName startID isNew count noAck =>
    let r := s.stream.readGroup s.group now consumerName startID isNew count noAck
    ({ s with group := r.1 }, r.2)
  | .ack ids => ({ s with group := (ackAll s.group ids).1 }, [])
  | .claim now consumerName minIdleMs ids =>
    let r := s.stream.claim s.group now consumerName minIdleMs ids
    ({ s with group := r.1 }, r.2)

def step (s : GroupedStream) (a : GroupAct) : Option GroupedStream := some (s.act a).1

/-- No claim of an entry that another consumer owns. -/
def Honest (s : GroupedStream) : GroupAct → Prop
  | .claim now consumerName minIdleMs ids =>
    ∀ id ∈ ids, s.group.claimable now minIdleMs id = true → s.group.owner id = some consumerName
  | _ => True

/-- The IDs an operation delivers for the first time. -/
def delivered (s : GroupedStream) (a : GroupAct) : List StreamID :=
  match a with
  | .readGroup _ _ _ true _ _ => (s.act a).2.map StreamEntry.id
  | _ => []

lemma readGroup_new_ids (s : Stream) (g : ConsumerGroup) (now : Int) (consumerName : Bytes) (startID : StreamID)
    (count : Int) (noAck : Bool) : (s.readGroup g now consumerName startID true count noAck).2.map StreamEntry.id =
      (readNew now noAck consumerName count g 0 (allIn s.chunks)).2.map EntryRecord.id := by
  simp only [Stream.readGroup, if_true, map_map]
  rfl

lemma act_behind (hb : s.group.Behind) (a : GroupAct) : (s.act a).1.group.Behind := by
  cases a with
  | addRaw | delete | trim => exact hb
  | readGroup now consumerName startID isNew count noAck =>
    cases isNew with
    | true => exact (readNew_spec now noAck consumerName count hb 0 (allIn s.stream.chunks)).1
    | false => exact hb
  | ack ids => exact (ackAll_spec hb ids).1
  | claim now consumerName minIdleMs ids => exact claimAll_behind now consumerName minIdleMs hb ids

lemma act_consistent_iff (h : s.group.Consistent) (hb : s.group.Behind) (a : GroupAct) :
    (s.act a).1.group.Consistent ↔ s.Honest a := by
  cases a with
  | addRaw | delete | trim => exact iff_of_true h trivial
  | readGroup now consumerName startID isNew count noAck =>
    cases isNew with
    | true =>
      exact iff_of_true ((readNew_spec now noAck consumerName count hb 0 (allIn s.stream.chunks)).2.1 h) trivial
    | false =>
      refine iff_of_true (fun id name => (h id name).trans ?_) trivial
      rw [← s.group.pelOf_getOrCreateConsumer now consumerName name]
      rfl
  | ack ids => exact iff_of_true ((ackAll_spec hb ids).2.1 h) trivial
  | claim now consumerName minIdleMs ids => exact claimAll_consistent_iff now consumerName minIdleMs h ids

lemma owner_act (hb : s.group.Behind) (hnone : s.group.owner id = none)
    {a : GroupAct} (ha : id ∉ s.delivered a) : (s.act a).1.group.owner id = none := by
  cases a with
  | addRaw | delete | trim => exact hnone
  | readGroup now consumerName startID isNew count noAck =>
    cases isNew with
    | true =>
      obtain ⟨-, -, howner⟩ := readNew_spec now noAck consumerName count hb 0 (allIn s.stream.chunks)
      simp only [delivered, act, readGroup_new_ids] at ha
      exact (howner id ha).trans hnone
    | false => exact hnone
  | ack ids =>
    refine ((ackAll_spec hb ids).2.2 id).trans ?_
    rw [hnone, ite_self]
  | claim now consumerName minIdleMs ids =>
    refine ((claimAll_spec now consumerName minIdleMs s.group ids).2.1 id).trans ?_
    -- what nobody owns cannot be claimed
    rw [if_neg]
    · exact hnone
    · rintro ⟨-, hc⟩
      obtain ⟨name, hname⟩ := owner_isSome_of_claimable now minIdleMs hc
      rw [hnone] at hname
      cases hname

lemma history_owned (h : s.group.Consistent) {now : Int} {consumerName : Bytes}
    {startID : StreamID} {count : Int} {noAck : Bool} {e : StreamEntry}
    (he : e ∈ (s.act (.readGroup now consumerName startID false count noAck)).2) :
    s.group.owner e.id = some consumerName := by
  simp only [act, Stream.readGroup, Bool.false_eq_true, if_false, mem_map] at he
  obtain ⟨r, hr, rfl⟩ := he
  have hpel := readPending_mem hr
  rw [getOrCreateConsumer_pel] at hpel
  exact (h r.id consumerName).2 hpel

end GroupedStream

namespace GroupedStream

def withGroup (s : Stream) (startID : StreamID) : GroupedStream := ⟨s, newConsumerGroup startID⟩

def afterAll (s : GroupedStream) (as : List GroupAct) : GroupedStream := as.foldl (fun s a => (s.act a).1) s

lemma run_afterAll (s : GroupedStream) (as : List GroupAct) : Run step Free s as (s.afterAll as) := by
  induction as generalizing s with
  | nil => exact .nil s
  | cons a as ih => exact .cons trivial rfl (ih _)

/-- Both indexes agree, and nothing is pending ahead of the cursor. -/
def Sound (s : GroupedStream) : Prop := s.group.Consistent ∧ s.group.Behind

lemma run_sound (h : Run step Honest s as s') (h0 : s.Sound) : s'.Sound := by
  refine h.inv (fun {t t' a} ht ha hs => ?_) h0
  obtain rfl := Option.some.inj hs
  exact ⟨(act_consistent_iff ht.1 ht.2 a).2 ha, act_behind ht.2 a⟩

lemma run_behind (h : Run step Free s as s') (h0 : s.group.Behind) : s'.group.Behind := by
  refine h.inv (I := fun t => t.group.Behind) (fun {t t' a} ht _ hs => ?_) h0
  obtain rfl := Option.some.inj hs
  exact act_behind ht a

lemma run_unowned (h : Run step (fun t a => t.Honest a ∧ id ∉ t.delivered a) s as s') (h0 : s.Sound)
    (hnone : s.group.owner id = none) : s'.Sound ∧ s'.group.owner id = none := by
  refine h.inv (I := fun t => t.Sound ∧ t.group.owner id = none) (fun {t t' a} ht ha hs => ?_) ⟨h0, hnone⟩
  obtain rfl := Option.some.inj hs
  obtain ⟨⟨hcons, hb⟩, hown⟩ := ht
  exact ⟨⟨(act_consistent_iff hcons hb a).2 ha.1, act_behind hb a⟩, owner_act hb hown ha.2⟩

/-- The two indexes of pending entries agree in every state of a run exactly if every claim is of the
claimer's own entries. In such a run a history read of anyone returns an acknowledged entry only if it was
delivered again. -/
theorem pending_consistent_iff (s : Stream) (startID : StreamID) (as : List GroupAct) (s' : GroupedStream)
    (h : Run step Free (withGroup s startID) as s') :
    ((∀ bs cs t, as = bs ++ cs → Run step Free (withGroup s startID) bs t → t.group.Consistent) ↔
      Run step Honest (withGroup s startID) as s') ∧ (Run step Honest (withGroup s startID) as s' →
      ∀ (ids : List StreamID) (id : StreamID), id ∈ ids → ∀ (bs : List GroupAct) (s'' : GroupedStream),
        Run step (fun t a => t.Honest a ∧ id ∉ t.delivered a) (s'.act (.ack ids)).1 bs s'' →
      ∀ now consumerName start count noAck,
        ∀ e ∈ (s''.act (.readGroup now consumerName start false count noAck)).2, e.id ≠ id) := by
  have h0 : (withGroup s startID).Sound := ConsumerGroup.newConsumerGroup_consistent startID
  have hsound : (∀ bs cs t, as = bs ++ cs → Run step Free (withGroup s startID) bs t → t.Sound) ↔
      Run step Honest (withGroup s startID) as s' :=
    Run.guarded_iff (fun {t t' a} ht hs => by
      obtain rfl := Option.some.inj hs
      exact (and_iff_left (act_behind ht.2 a)).trans (act_consistent_iff ht.1 ht.2 a)) h h0
  refine ⟨⟨fun hall => ?_, fun hrun bs cs t he hfree => (hsound.2 hrun bs cs t he hfree).1⟩, ?_⟩
  · exact hsound.1 fun bs cs t he hrun => ⟨hall bs cs t he hrun, run_behind hrun h0.2⟩
  · intro hrun ids id hid bs s'' hbs now consumerName start count noAck e he heq
    obtain ⟨hcons, hb⟩ := run_sound hrun h0
    obtain ⟨hb', hcons', howner⟩ := ackAll_spec hb ids
    obtain ⟨hsound', hnone⟩ := run_unowned hbs ⟨hcons' hcons, hb'⟩ ((howner id).trans (if_pos hid))
    have hown := history_owned hsound'.1 he
    rw [heq, hnone] at hown
    cases hown

/-- An entry is added, delivered to a consumer and claimed by one. -/
def claimedBy (claimer : Bytes) : List GroupAct :=
  [.addRaw ⟨1, 0⟩ [ascii "f", ascii "v"] 0 false, .readGroup 0 (ascii "a") zeroID true 0 false,
    .claim 5 claimer 1 [⟨1, 0⟩]]

theorem own_claim_stays_consistent : (claimedBy (ascii "a")).length = 3 ∧ ∀ bs cs t, claimedBy (ascii "a") = bs ++ cs →
    Run step Free (withGroup newStream zeroID) bs t → t.group.Consistent :=
  ⟨rfl, (pending_consistent_iff newStream zeroID (claimedBy (ascii "a")) _ (run_afterAll _ _)).1.2
    (.cons trivial rfl (.cons trivial rfl (.cons (by
      intro id hid _
      rw [mem_singleton.1 hid]
      decide) rfl (.nil _))))⟩

/-- A consumer keeps an entry that another one has claimed, and reads it again after it was acknowledged. -/
theorem claim_leaves_former_owner : Run step Free (withGroup newStream zeroID) (claimedBy (ascii "b"))
        ((withGroup newStream zeroID).afterAll (claimedBy (ascii "b"))) ∧
      ¬ ((withGroup newStream zeroID).afterAll (claimedBy (ascii "b"))).group.Consistent ∧
      (⟨1, 0⟩ : StreamID) ∈ ((((withGroup newStream zeroID).afterAll (claimedBy (ascii "b") ++ [.ack [⟨1, 0⟩]])).act
        (.readGroup 9 (ascii "a") zeroID false 0 false)).2.map StreamEntry.id) := by
  refine ⟨run_afterAll _ _, fun h => ?_, by decide⟩
  exact absurd ((h ⟨1, 0⟩ (ascii "a")).2 (by decide)) (by decide)

end GroupedStream

end Gopherdis.Stream

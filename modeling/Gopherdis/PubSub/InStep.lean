/-
The hub and the subscribers in step. Whatever is subscribed to and unsubscribed from, the hub lists a subscriber
for a channel or a pattern exactly if its own set has it, and once. The sets are what the commands say, as long
as no `UNSUBSCRIBE` without arguments comes from a connection with patterns and no `PUNSUBSCRIBE` without
arguments from one with channels.
-/
import Gopherdis.Lib.Runs
import Gopherdis.PubSub.Hub

namespace Gopherdis.PubSub

open Lib Codec List Function Finset Option PubSub ShardedHub

/-! ## What the hub lists -/

section
variable (h : ShardedHub) (id : UInt64) (channel : Bytes) (i : Fin numPubSubShards) (c : Bytes)

lemma lookup_subscribe : ((h.subscribe id channel).shards i).lookup c =
      if i = getShard channel ∧ c = channel then some (insert id (h.listed i c)) else (h.shards i).lookup c := by
  unfold ShardedHub.subscribe
  by_cases hi : i = getShard channel
  · subst hi
    by_cases hc : c = channel
    · subst hc
      simp
    · simp [hc, Finmap.lookup_insert_of_ne]
  · simp [hi]

lemma lookup_unsubscribe : ((h.unsubscribe id channel).shards i).lookup c = if i = getShard channel ∧ c = channel then
        ((h.shards i).lookup c).bind fun subs => if subs.erase id = ∅ then none else some (subs.erase id)
      else (h.shards i).lookup c := by
  simp only [ShardedHub.unsubscribe]
  cases hl : (h.shards (getShard channel)).lookup channel with
  | none =>
    split_ifs with hh
    · obtain ⟨rfl, rfl⟩ := hh
      simp [hl]
    · rfl
  | some subs =>
  by_cases hi : i = getShard channel
  · subst hi
    by_cases hc : c = channel
    · subst hc
      by_cases he : subs.erase id = ∅ <;> simp [he, hl]
    · by_cases he : subs.erase id = ∅ <;> simp [he, hc, Finmap.lookup_insert_of_ne, Finmap.lookup_erase_ne]
  · simp [hi]

lemma unsubscribe_patterns : (h.unsubscribe id channel).patterns = h.patterns := by
  simp only [ShardedHub.unsubscribe]
  cases (h.shards (getShard channel)).lookup channel <;> rfl

lemma listed_subscribe : (h.subscribe id channel).listed i c =
      if i = getShard channel ∧ c = channel then insert id (h.listed i c) else h.listed i c := by
  rw [listed, lookup_subscribe]
  split_ifs <;> rfl

lemma listed_unsubscribe : (h.unsubscribe id channel).listed i c =
      if i = getShard channel ∧ c = channel then (h.listed i c).erase id else h.listed i c := by
  rw [listed, lookup_unsubscribe]
  split_ifs with hh
  · rw [listed]
    cases (h.shards i).lookup c with
    | none => simp
    | some subs => by_cases he : subs.erase id = ∅ <;> simp [he]
  · rfl

end

/-! ## In step -/

/-- A subscriber is listed where its own sets say so, in the shard of the channel alone, and once for a pattern. A
channel without subscribers is not listed. -/
structure InStep (s : PubSub) : Prop where
  channels : ∀ i c id, id ∈ s.hub.listed i c ↔ i = getShard c ∧ c ∈ (s.sub id).channels
  patterns : ∀ p id, s.hub.patterns.count (p, id) = if p ∈ (s.sub id).patterns then 1 else 0
  kept : ∀ i c, (s.hub.shards i).lookup c ≠ some ∅

namespace InStep

variable {s : PubSub} (id : UInt64)

lemma start (sub : UInt64 → Subscriber) (h : ∀ id, (sub id).channels = ∅ ∧ (sub id).patterns = ∅) :
    InStep ⟨.new, sub⟩ where
  channels i c id := by simp [listed, new, (h id).1]
  patterns p id := by simp [new, (h id).2]
  kept i c := by simp [new]

lemma subscribe (h : InStep s) (channel : Bytes) : InStep (s.subscribe id channel) where
  channels i c id' := by
    show id' ∈ (s.hub.subscribe id channel).listed i c ↔ _
    rw [listed_subscribe]
    by_cases hid : id' = id
    · subst hid
      simp only [PubSub.subscribe, PubSub.setSub, update_self, mem_insert]
      split_ifs with hh
      · simp [hh]
      · rw [h.channels]
        grind
    · simp only [PubSub.subscribe, PubSub.setSub, update_of_ne hid]
      rw [← h.channels]
      split_ifs <;> simp [hid]
  patterns p id' := by
    show s.hub.patterns.count (p, id') = _
    rw [h.patterns]
    by_cases hid : id' = id
    · subst hid
      simp [PubSub.subscribe, PubSub.setSub]
    · simp [PubSub.subscribe, PubSub.setSub, hid]
  kept i c := by
    show ((s.hub.subscribe id channel).shards i).lookup c ≠ some ∅
    rw [lookup_subscribe]
    split_ifs
    · simp
    · exact h.kept i c

lemma unsubscribe (h : InStep s) (channel : Bytes) : InStep (s.unsubscribe id channel) where
  channels i c id' := by
    show id' ∈ (s.hub.unsubscribe id channel).listed i c ↔ _
    rw [listed_unsubscribe]
    by_cases hid : id' = id
    · subst hid
      simp only [PubSub.unsubscribe, PubSub.setSub, update_self, mem_erase]
      split_ifs with hh
      · simp [hh]
      · rw [h.channels]
        grind
    · simp only [PubSub.unsubscribe, PubSub.setSub, update_of_ne hid]
      rw [← h.channels]
      split_ifs <;> simp [hid]
  patterns p id' := by
    show (s.hub.unsubscribe id channel).patterns.count (p, id') = _
    rw [unsubscribe_patterns, h.patterns]
    by_cases hid : id' = id
    · subst hid
      simp [PubSub.unsubscribe, PubSub.setSub]
    · simp [PubSub.unsubscribe, PubSub.setSub, hid]
  kept i c := by
    show ((s.hub.unsubscribe id channel).shards i).lookup c ≠ some ∅
    rw [lookup_unsubscribe]
    split_ifs
    · intro hsome
      obtain ⟨subs, -, hsubs⟩ := bind_eq_some_iff.1 hsome
      split_ifs at hsubs with he
      exact he (some.inj hsubs)
    · exact h.kept i c

lemma channels_of_eq {s' : PubSub} (h : InStep s) (hshards : s'.hub.shards = s.hub.shards)
    (hsub : ∀ id, (s'.sub id).channels = (s.sub id).channels) :
    ∀ i c id, id ∈ s'.hub.listed i c ↔ i = getShard c ∧ c ∈ (s'.sub id).channels := by
  intro i c id
  rw [hsub, ← h.channels, listed, listed, hshards]

variable (h : ShardedHub)

lemma psubscribe_shards (id : UInt64) (pattern : Bytes) : (h.psubscribe id pattern).shards = h.shards := by
  unfold ShardedHub.psubscribe
  split_ifs <;> rfl

lemma count_psubscribe (id id' : UInt64) (pattern p : Bytes) : (h.psubscribe id pattern).patterns.count (p, id') =
      if p = pattern ∧ id' = id then max 1 (h.patterns.count (p, id')) else h.patterns.count (p, id') := by
  unfold ShardedHub.psubscribe
  have hany : (h.patterns.any fun pe => pe.1 = pattern ∧ pe.2 = id) = true ↔ 0 < h.patterns.count (pattern, id) := by
    simp
  by_cases hmem : 0 < h.patterns.count (pattern, id)
  · rw [if_pos (hany.2 hmem)]
    split_ifs with hh
    · rw [hh.1, hh.2]
      omega
    · rfl
  rw [if_neg fun ha => hmem (hany.1 ha), count_append, count_singleton]
  by_cases hh : p = pattern ∧ id' = id
  · obtain ⟨rfl, rfl⟩ := hh
    simp at hmem ⊢
    rw [count_eq_zero_of_not_mem hmem]
    rfl
  rw [if_neg hh, if_neg, Nat.add_zero]
  intro he
  have := Prod.mk.inj (eq_of_beq he)
  exact hh ⟨this.1.symm, this.2.symm⟩

lemma count_punsubscribe (id id' : UInt64) (pattern p : Bytes) : (h.punsubscribe id pattern).patterns.count (p, id') =
      if p = pattern ∧ id' = id then 0 else h.patterns.count (p, id') := by
  unfold ShardedHub.punsubscribe
  split_ifs with hh
  · rw [count_eq_zero]
    simp [hh]
  · rw [count_filter]
    exact decide_eq_true hh

lemma psubscribe (h : InStep s) (pattern : Bytes) : InStep (s.psubscribe id pattern) where
  channels := h.channels_of_eq (psubscribe_shards ..) fun id' => by
    by_cases hid : id' = id
    · subst hid
      simp [PubSub.psubscribe, PubSub.setSub]
    · simp [PubSub.psubscribe, PubSub.setSub, hid]
  patterns p id' := by
    show (s.hub.psubscribe id pattern).patterns.count (p, id') = _
    rw [count_psubscribe, h.patterns]
    by_cases hid : id' = id
    · subst hid
      simp only [PubSub.psubscribe, PubSub.setSub, update_self, mem_insert]
      grind
    · simp [PubSub.psubscribe, PubSub.setSub, hid]
  kept i c := by
    show ((s.hub.psubscribe id pattern).shards i).lookup c ≠ some ∅
    rw [psubscribe_shards]
    exact h.kept i c

lemma punsubscribe (h : InStep s) (pattern : Bytes) : InStep (s.punsubscribe id pattern) where
  channels := h.channels_of_eq rfl fun id' => by
    by_cases hid : id' = id
    · subst hid
      simp [PubSub.punsubscribe, PubSub.setSub]
    · simp [PubSub.punsubscribe, PubSub.setSub, hid]
  patterns p id' := by
    show (s.hub.punsubscribe id pattern).patterns.count (p, id') = _
    rw [count_punsubscribe, h.patterns]
    by_cases hid : id' = id
    · subst hid
      simp only [PubSub.punsubscribe, PubSub.setSub, update_self, mem_erase]
      grind
    · simp [PubSub.punsubscribe, PubSub.setSub, hid]
  kept := h.kept

lemma foldl {method : PubSub → UInt64 → Bytes → PubSub}
    (hmethod : ∀ {s : PubSub}, InStep s → ∀ name, InStep (method s id name)) (names : List Bytes) (h : InStep s) :
    InStep (names.foldl (fun s name => method s id name) s) := by
  induction names generalizing s with
  | nil => exact h
  | cons name names ih => exact ih (hmethod h name)

end InStep

/-! ## The sets -/

/-- The channels and the patterns of a connection. -/
@[ext] structure Subscriptions where
  channels : Finset Bytes
  patterns : Finset Bytes
deriving DecidableEq

def PubSub.sets (s : PubSub) (id : UInt64) : Subscriptions := ⟨(s.sub id).channels, (s.sub id).patterns⟩

section
variable (s : PubSub) (id : UInt64)

lemma sets_setSub (hub : ShardedHub) (sub : Subscriber) :
    (setSub ⟨hub, s.sub⟩ id sub).sets = update s.sets id ⟨sub.channels, sub.patterns⟩ := by
  funext id'
  by_cases hid : id' = id
  · subst hid
    simp [sets, setSub]
  · simp [sets, setSub, hid]

lemma sets_foldl {method : PubSub → UInt64 → Bytes → PubSub} {f : Subscriptions → Bytes → Subscriptions}
    (hmethod : ∀ s name, (method s id name).sets = update s.sets id (f (s.sets id) name)) (names : List Bytes) :
    (names.foldl (fun s name => method s id name) s).sets = update s.sets id (names.foldl f (s.sets id)) := by
  induction names generalizing s with
  | nil => exact (update_eq_self id s.sets).symm
  | cons name names ih =>
    rw [foldl_cons, ih, hmethod, update_self, update_idem]
    rfl

variable (names : List Bytes)

lemma foldl_insert (t : Finset Bytes) : names.foldl (fun t name => insert name t) t = t ∪ names.toFinset := by
  induction names generalizing t with
  | nil => simp
  | cons name names ih =>
    rw [foldl_cons, ih, toFinset_cons, insert_union, union_insert]

lemma foldl_erase (t : Finset Bytes) : names.foldl (fun t name => t.erase name) t = t \ names.toFinset := by
  induction names generalizing t with
  | nil => simp
  | cons name names ih =>
    rw [foldl_cons, ih, toFinset_cons, sdiff_insert, erase_sdiff_comm]

variable (g : Finset Bytes → Bytes → Finset Bytes) (names : List Bytes) (t : Subscriptions)

lemma foldl_channels :
    names.foldl (fun t name => ⟨g t.channels name, t.patterns⟩) t = ⟨names.foldl g t.channels, t.patterns⟩ := by
  induction names generalizing t with
  | nil => rfl
  | cons name names ih => exact ih _

lemma foldl_patterns :
    names.foldl (fun t name => ⟨t.channels, g t.patterns name⟩) t = ⟨t.channels, names.foldl g t.patterns⟩ := by
  induction names generalizing t with
  | nil => rfl
  | cons name names ih => exact ih _

lemma sets_subscribe : (names.foldl (fun s c => s.subscribe id c) s).sets =
      update s.sets id ⟨(s.sets id).channels ∪ names.toFinset, (s.sets id).patterns⟩ := by
  rw [sets_foldl s id (f := fun t c => ⟨insert c t.channels, t.patterns⟩) (fun s c => sets_setSub s id _ _),
    foldl_channels (fun t c => insert c t), foldl_insert]

lemma sets_unsubscribe : (names.foldl (fun s c => s.unsubscribe id c) s).sets =
      update s.sets id ⟨(s.sets id).channels \ names.toFinset, (s.sets id).patterns⟩ := by
  rw [sets_foldl s id (f := fun t c => ⟨t.channels.erase c, t.patterns⟩) (fun s c => sets_setSub s id _ _),
    foldl_channels (fun t c => t.erase c), foldl_erase]

lemma sets_psubscribe : (names.foldl (fun s p => s.psubscribe id p) s).sets =
      update s.sets id ⟨(s.sets id).channels, (s.sets id).patterns ∪ names.toFinset⟩ := by
  rw [sets_foldl s id (f := fun t p => ⟨t.channels, insert p t.patterns⟩) (fun s p => sets_setSub s id _ _),
    foldl_patterns (fun t p => insert p t), foldl_insert]

lemma sets_punsubscribe : (names.foldl (fun s p => s.punsubscribe id p) s).sets =
      update s.sets id ⟨(s.sets id).channels, (s.sets id).patterns \ names.toFinset⟩ := by
  rw [sets_foldl s id (f := fun t p => ⟨t.channels, t.patterns.erase p⟩) (fun s p => sets_setSub s id _ _),
    foldl_patterns (fun t p => t.erase p), foldl_erase]

lemma sets_unsubscribeAll {chs pats : List Bytes} (hchs : chs.toFinset = (s.sets id).channels)
    (hpats : pats.toFinset = (s.sets id).patterns) : (s.unsubscribeAll id chs pats).sets = update s.sets id ⟨∅, ∅⟩ := by
  rw [unsubscribeAll, sets_punsubscribe, sets_unsubscribe]
  simp [hchs, hpats]

lemma subscribeEach_fst (method : PubSub → UInt64 → Bytes → PubSub) (action : String) (resp3 : Bool)
    (names : List Bytes) :
    (subscribeEach method action resp3 id s names).1 = names.foldl (fun s name => method s id name) s := by
  unfold subscribeEach
  generalize ([] : Bytes) = reply
  induction names generalizing s reply with
  | nil => rfl
  | cons name names ih => exact ih _ _

end

/-! ## Runs of the commands -/

inductive SubCmd
  | subscribe
  | unsubscribe
  | psubscribe
  | punsubscribe
deriving DecidableEq

namespace SubCmd

def run : SubCmd → SubContext → Argv → PubSub → PubSub × Bytes
  | subscribe => subscribeCommand
  | unsubscribe => unsubscribeCommand
  | psubscribe => psubscribeCommand
  | punsubscribe => punsubscribeCommand

variable (names : List Bytes) (t : Subscriptions)

/-- The command as an operation on sets: without names, `UNSUBSCRIBE` leaves no channel and every pattern,
`PUNSUBSCRIBE` no pattern and every channel. -/
def onSets : SubCmd → Subscriptions
  | subscribe => ⟨t.channels ∪ names.toFinset, t.patterns⟩
  | unsubscribe => ⟨if names = [] then ∅ else t.channels \ names.toFinset, t.patterns⟩
  | psubscribe => ⟨t.channels, t.patterns ∪ names.toFinset⟩
  | punsubscribe => ⟨t.channels, if names = [] then ∅ else t.patterns \ names.toFinset⟩

/-- The sets the other kind is about are empty where the command removes without names. -/
def Alone : SubCmd → Prop
  | unsubscribe => names = [] → t.patterns = ∅
  | punsubscribe => names = [] → t.channels = ∅
  | _ => True

instance (names : List Bytes) (t : Subscriptions) : (cmd : SubCmd) → Decidable (cmd.Alone names t)
  | subscribe | psubscribe => inferInstanceAs (Decidable True)
  | unsubscribe => inferInstanceAs (Decidable (names = [] → t.patterns = ∅))
  | punsubscribe => inferInstanceAs (Decidable (names = [] → t.channels = ∅))

end SubCmd

open SubCmd

/-- A call with its command word; `conn` is `none` where the server runs the command without a subscriber. -/
structure SubCall where
  conn : Option UInt64
  cmd : SubCmd
  word : Bytes
  names : List Bytes
  resp3 : Bool
  walkChannels : List Bytes
  walkPatterns : List Bytes

namespace SubCall

variable (call : SubCall)

def context : SubContext := ⟨call.conn, call.resp3, call.walkChannels, call.walkPatterns⟩

/-- The walks over the maps of the subscriber meet every key once. -/
def Walks (s : PubSub) : Prop :=
  ∀ id ∈ call.conn, (call.walkChannels.Nodup ∧ call.walkChannels.toFinset = (s.sub id).channels) ∧
    call.walkPatterns.Nodup ∧ call.walkPatterns.toFinset = (s.sub id).patterns

instance (s : PubSub) : Decidable (call.Walks s) :=
  @decidableForallMem _ _ (fun _ => inferInstanceAs (Decidable (_ ∧ _))) call.conn

end SubCall

/-- The subscribers, and the sets the commands so far say they have. -/
structure Subscribed where
  code : PubSub
  sets : UInt64 → Subscriptions

namespace Subscribed

def start (resp3 : UInt64 → Bool) : Subscribed := ⟨⟨.new, fun id => .new (resp3 id)⟩, fun _ => ⟨∅, ∅⟩⟩

/-- The hub and the subscribers agree, and the subscribers have the sets the commands say. -/
structure Agrees (s : Subscribed) : Prop where
  inStep : InStep s.code
  sets : s.code.sets = s.sets

def step (s : Subscribed) (call : SubCall) : Option Subscribed :=
  if call.Walks s.code then
    some ⟨(call.cmd.run call.context (call.word :: call.names) s.code).1,
      call.conn.elim s.sets fun id => update s.sets id (call.cmd.onSets call.names (s.sets id))⟩
  else none

/-- No command without names comes from a connection with subscriptions of the other kind. -/
def Apart (s : Subscribed) (call : SubCall) : Prop := ∀ id ∈ call.conn, call.cmd.Alone call.names (s.code.sets id)

instance (s : Subscribed) (call : SubCall) : Decidable (s.Apart call) :=
  @decidableForallMem _ _ (fun _ => inferInstance) call.conn

end Subscribed

section
variable {s : PubSub} {ctx : SubContext} {id : UInt64} (cmd : SubCmd) (word : Bytes) (names : List Bytes)

lemma InStep.run (h : InStep s) : InStep (cmd.run ctx (word :: names) s).1 := by
  cases hconn : ctx.conn with
  | none => cases cmd <;>
      simp only [run, subscribeCommand, psubscribeCommand, unsubscribeCommand, punsubscribeCommand,
        unsubscribeGeneric, hconn] <;> exact h
  | some id =>
  have hall : InStep (s.unsubscribeAll id ctx.walkChannels ctx.walkPatterns) :=
    foldl id (fun h pat => punsubscribe id h pat) _ (foldl id (fun h ch => unsubscribe id h ch) _ h)
  cases cmd with
  | subscribe =>
    simp only [run, subscribeCommand, hconn, subscribeEach_fst]
    exact foldl id (fun h c => subscribe id h c) _ h
  | psubscribe =>
    simp only [run, psubscribeCommand, hconn, subscribeEach_fst]
    exact foldl id (fun h p => psubscribe id h p) _ h
  | unsubscribe =>
    simp only [run, unsubscribeCommand, unsubscribeGeneric, hconn]
    split_ifs
    · exact hall
    · rw [subscribeEach_fst]
      exact foldl id (fun h c => unsubscribe id h c) _ h
  | punsubscribe =>
    simp only [run, punsubscribeCommand, unsubscribeGeneric, hconn]
    split_ifs
    · exact hall
    · rw [subscribeEach_fst]
      exact foldl id (fun h p => punsubscribe id h p) _ h

lemma sets_run (hconn : ctx.conn = some id) (hchs : ctx.walkChannels.toFinset = (s.sets id).channels)
    (hpats : ctx.walkPatterns.toFinset = (s.sets id).patterns) : (cmd.run ctx (word :: names) s).1.sets =
      update s.sets id
        (if names = [] ∧ (cmd = .unsubscribe ∨ cmd = .punsubscribe) then ⟨∅, ∅⟩ else cmd.onSets names (s.sets id)) := by
  cases cmd with
  | subscribe => simp [run, subscribeCommand, hconn, subscribeEach_fst, sets_subscribe, onSets]
  | psubscribe => simp [run, psubscribeCommand, hconn, subscribeEach_fst, sets_psubscribe, onSets]
  | unsubscribe =>
    cases names with
    | nil => simp [run, unsubscribeCommand, unsubscribeGeneric, hconn, sets_unsubscribeAll s id hchs hpats]
    | cons name names =>
      simp [run, unsubscribeCommand, unsubscribeGeneric, hconn, subscribeEach_fst, sets_unsubscribe,
        onSets, -foldl_cons]
  | punsubscribe =>
    cases names with
    | nil => simp [run, punsubscribeCommand, unsubscribeGeneric, hconn, sets_unsubscribeAll s id hchs hpats]
    | cons name names =>
      simp [run, punsubscribeCommand, unsubscribeGeneric, hconn, subscribeEach_fst, sets_punsubscribe,
        onSets, -foldl_cons]

lemma onSets_eq_iff (t : Subscriptions) :
    (if names = [] ∧ (cmd = .unsubscribe ∨ cmd = .punsubscribe) then ⟨∅, ∅⟩ else cmd.onSets names t) =
        cmd.onSets names t ↔ cmd.Alone names t := by
  by_cases hnames : names = [] <;> cases cmd <;>
    simp [hnames, onSets, SubCmd.Alone, Subscriptions.ext_iff, eq_comm]

end

lemma Subscribed.agrees_step_iff {s s' : Subscribed} {call : SubCall} (h : s.Agrees) (hstep : s.step call = some s') :
    s'.Agrees ↔ s.Apart call := by
  obtain ⟨hwalks, hs'⟩ := ite_none_right_eq_some.1 hstep
  obtain rfl := some.inj hs'
  have hin : InStep (call.cmd.run call.context (call.word :: call.names) s.code).1 := h.inStep.run _ _ _
  cases hconn : call.conn with
  | none =>
    refine iff_of_true ⟨hin, ?_⟩ (by simp [Apart, hconn])
    have hnone : (call.cmd.run call.context (call.word :: call.names) s.code).1 = s.code := by
      cases call.cmd <;>
        simp [run, subscribeCommand, psubscribeCommand, unsubscribeCommand, punsubscribeCommand,
          unsubscribeGeneric, SubCall.context, hconn]
    exact (congrArg PubSub.sets hnone).trans h.sets
  | some id =>
  obtain ⟨⟨-, hchs⟩, -, hpats⟩ := hwalks id hconn
  have hctx : call.context.conn = some id := hconn
  have hsets := sets_run call.cmd call.word call.names hctx hchs hpats
  have hapart : s.Apart call ↔ call.cmd.Alone call.names (s.code.sets id) := by simp [Apart, hconn]
  rw [hapart, ← onSets_eq_iff]
  constructor
  · rintro ⟨-, hagrees⟩
    have heq := congrFun (hsets.symm.trans hagrees) id
    rw [update_self] at heq
    rw [heq, h.sets]
    exact update_self ..
  · intro heq
    refine ⟨hin, ?_⟩
    show (call.cmd.run call.context (call.word :: call.names) s.code).1.sets = update s.sets id _
    rw [hsets, heq, h.sets]

/-- Along any calls from any connections, the hub, the subscribers and the sets the commands say agree in every
state exactly if no `UNSUBSCRIBE` without names comes from a connection with patterns, and no `PUNSUBSCRIBE`
without names from one with channels. -/
theorem subscriptions_agree_iff (resp3 : UInt64 → Bool) (calls : List SubCall) (s : Subscribed)
    (hrun : Run Subscribed.step Free (.start resp3) calls s) :
    (∀ before after t, calls = before ++ after → Run Subscribed.step Free (.start resp3) before t → t.Agrees) ↔
      Run Subscribed.step Subscribed.Apart (.start resp3) calls s :=
  hrun.guarded_iff Subscribed.agrees_step_iff ⟨InStep.start _ fun _ => ⟨rfl, rfl⟩, rfl⟩

/-- A connection with a channel and a pattern may leave both by name, and then leave all channels. -/
theorem subscriptions_agree_by_name : ∃ s : Subscribed, s.sets 7 = ⟨∅, ∅⟩ ∧ ∀ before after t,
        [⟨some 7, .subscribe, ascii "SUBSCRIBE", [ascii "a", ascii "b"], false, [], []⟩,
          ⟨some 7, .psubscribe, ascii "PSUBSCRIBE", [ascii "p*"], false, [ascii "a", ascii "b"], []⟩,
          ⟨some 7, .punsubscribe, ascii "PUNSUBSCRIBE", [ascii "p*"], false, [ascii "b", ascii "a"], [ascii "p*"]⟩,
          ⟨some 7, .unsubscribe, ascii "UNSUBSCRIBE", [], false, [ascii "b", ascii "a"], []⟩] = before ++ after →
        Run Subscribed.step Free (.start fun _ => false) before t → t.Agrees := by
  refine Exists.imp (fun s (h : s.sets 7 = ⟨∅, ∅⟩ ∧ Run Subscribed.step Subscribed.Apart _ _ s) => ⟨h.1,
    (subscriptions_agree_iff (fun _ => false) _ s (h.2.mono fun _ _ _ => trivial)).2 h.2⟩) ⟨_, ?_,
    .cons ?_ (if_pos ?_) (.cons ?_ (if_pos ?_) (.cons ?_ (if_pos ?_) (.cons ?_ (if_pos ?_) (.nil _))))⟩ <;>
    decide

/-- `SUBSCRIBE a`, `PSUBSCRIBE p*`, `UNSUBSCRIBE`: the pattern is gone too. -/
theorem unsubscribe_drops_patterns : ∃ s : Subscribed, Run Subscribed.step Free (.start fun _ => false)
        [⟨some 7, .subscribe, ascii "SUBSCRIBE", [ascii "a"], false, [], []⟩,
          ⟨some 7, .psubscribe, ascii "PSUBSCRIBE", [ascii "p*"], false, [ascii "a"], []⟩,
          ⟨some 7, .unsubscribe, ascii "UNSUBSCRIBE", [], false, [ascii "a"], [ascii "p*"]⟩] s ∧
      (s.sets 7).patterns = { ascii "p*" } ∧ (s.code.sub 7).patterns = ∅ ∧ s.code.hub.patterns = [] ∧ ¬ s.Agrees := by
  have hcode : ∀ {s : Subscribed}, (s.sets 7).patterns = { ascii "p*" } → (s.code.sub 7).patterns = ∅ → ¬ s.Agrees := by
    intro s hsets hcode hagrees
    have heq := congrArg Subscriptions.patterns (congrFun hagrees.sets 7)
    exact absurd ((hcode.symm.trans heq).trans hsets) (by decide)
  refine ⟨_, .cons trivial (if_pos ?_) (.cons trivial (if_pos ?_) (.cons trivial (if_pos ?_) (.nil _))), ?_, ?_, ?_,
    hcode ?_ ?_⟩ <;> decide

end Gopherdis.PubSub

/-
Publish and subscribe. The hub keeps the subscribers of each channel in shards and those of the patterns in one
list; every subscriber keeps the channels and patterns it has subscribed to as well. `UNSUBSCRIBE` and
`PUNSUBSCRIBE` without arguments both remove all channels and all patterns.
-/
import Gopherdis.Command.Reply
import Gopherdis.Store.Versions

namespace Gopherdis.PubSub

open Lib Codec Command Store

def numPubSubShards : Nat := 64

/-! ## Subscribers -/

/-- The session of a connection; `resp3` is the protocol it speaks. -/
structure Subscriber where
  resp3 : Bool
  channels : Finset Bytes
  patterns : Finset Bytes

namespace Subscriber

def new (resp3 : Bool) : Subscriber := ⟨resp3, ∅, ∅⟩

def subCount (sub : Subscriber) : Nat := sub.channels.card + sub.patterns.card

end Subscriber

/-! ## The hub -/

def getShard (channel : Bytes) : Fin numPubSubShards :=
  ⟨(fnv32 channel).toNat % numPubSubShards, Nat.mod_lt _ (by decide)⟩

/-- The subscribers are known by their IDs. -/
structure ShardedHub where
  shards : Fin numPubSubShards → Finmap fun _ : Bytes => Finset UInt64
  patterns : List (Bytes × UInt64)

namespace ShardedHub

def new : ShardedHub := ⟨fun _ => ∅, []⟩

variable (h : ShardedHub) (id : UInt64)

def listed (i : Fin numPubSubShards) (channel : Bytes) : Finset UInt64 := ((h.shards i).lookup channel).getD ∅

def subscribe (channel : Bytes) : ShardedHub :=
  let i := getShard channel
  { h with shards := Function.update h.shards i ((h.shards i).insert channel (insert id (h.listed i channel))) }

/-- A channel goes with its last subscriber. -/
def unsubscribe (channel : Bytes) : ShardedHub :=
  let i := getShard channel
  match (h.shards i).lookup channel with
  | none => h
  | some subs =>
    let shard := if subs.erase id = ∅ then (h.shards i).erase channel else (h.shards i).insert channel (subs.erase id)
    { h with shards := Function.update h.shards i shard }

def psubscribe (pattern : Bytes) : ShardedHub :=
  if h.patterns.any (fun pe => pe.1 = pattern ∧ pe.2 = id) then h
  else { h with patterns := h.patterns ++ [(pattern, id)] }

def punsubscribe (pattern : Bytes) : ShardedHub :=
  { h with patterns := h.patterns.filter fun pe => ¬ (pe.1 = pattern ∧ pe.2 = id) }

end ShardedHub

/-! ## The methods of the hub, with the subscribers they change -/

/-- The hub, and the subscriber of each connection. -/
structure PubSub where
  hub : ShardedHub
  sub : UInt64 → Subscriber

namespace PubSub

variable (s : PubSub) (id : UInt64)

def setSub (sub : Subscriber) : PubSub := { s with sub := Function.update s.sub id sub }

/-- `Subscribe`, without the count it returns. -/
def subscribe (channel : Bytes) : PubSub :=
  { s with hub := s.hub.subscribe id channel }.setSub id
    { s.sub id with channels := insert channel (s.sub id).channels }

def unsubscribe (channel : Bytes) : PubSub :=
  { s with hub := s.hub.unsubscribe id channel }.setSub id
    { s.sub id with channels := (s.sub id).channels.erase channel }

def psubscribe (pattern : Bytes) : PubSub :=
  { s with hub := s.hub.psubscribe id pattern }.setSub id
    { s.sub id with patterns := insert pattern (s.sub id).patterns }

def punsubscribe (pattern : Bytes) : PubSub :=
  { s with hub := s.hub.punsubscribe id pattern }.setSub id
    { s.sub id with patterns := (s.sub id).patterns.erase pattern }

/-- `UnsubscribeAll`, with the channels and patterns in the order in which the maps are walked. -/
def unsubscribeAll (chs pats : List Bytes) : PubSub :=
  pats.foldl (fun s pat => s.punsubscribe id pat) (chs.foldl (fun s ch => s.unsubscribe id ch) s)

end PubSub

/-! ## The handlers -/

def formatSubscribeReply (action : String) (name : Bytes) (count : Nat) (resp3 : Bool) : Bytes :=
  (if resp3 then 62 else 42) :: ascii "3\r\n$" ++ formatNat (ascii action).length ++ CRLF ++ ascii action ++ CRLF ++
    ascii "$" ++ formatNat name.length ++ CRLF ++ name ++ CRLF ++ ascii ":" ++ formatNat count ++ CRLF

/-- What the handlers read of a call: the connection, if it has a subscriber, the protocol, and the orders in which
the maps of the subscriber are walked. -/
structure SubContext where
  conn : Option UInt64
  resp3 : Bool
  walkChannels : List Bytes
  walkPatterns : List Bytes

variable (method : PubSub → UInt64 → Bytes → PubSub)

def subscribeEach (action : String) (resp3 : Bool) (id : UInt64)
    (s : PubSub) (names : List Bytes) : PubSub × Bytes :=
  names.foldl (fun r name =>
    let s := method r.1 id name
    (s, r.2 ++ formatSubscribeReply action name (s.sub id).subCount resp3)) (s, [])

def disabled : Bytes := error (ascii "pubsub is disabled")

def subscribeCommand (ctx : SubContext) (argv : Argv) (s : PubSub) : PubSub × Bytes :=
  match ctx.conn with
  | none => (s, disabled)
  | some id => subscribeEach PubSub.subscribe "subscribe" ctx.resp3 id s (argv.drop 1)

def psubscribeCommand (ctx : SubContext) (argv : Argv) (s : PubSub) : PubSub × Bytes :=
  match ctx.conn with
  | none => (s, disabled)
  | some id => subscribeEach PubSub.psubscribe "psubscribe" ctx.resp3 id s (argv.drop 1)

/-- Without arguments the count in the reply is the one from before. -/
def unsubscribeGeneric (action : String) (ctx : SubContext) (argv : Argv)
    (s : PubSub) : PubSub × Bytes :=
  match ctx.conn with
  | none => (s, disabled)
  | some id =>
    if argv.length = 1 then
      (s.unsubscribeAll id ctx.walkChannels ctx.walkPatterns,
        formatSubscribeReply action [] (s.sub id).subCount ctx.resp3)
    else subscribeEach method action ctx.resp3 id s (argv.drop 1)

def unsubscribeCommand : SubContext → Argv → PubSub → PubSub × Bytes := unsubscribeGeneric PubSub.unsubscribe "unsubscribe"

def punsubscribeCommand : SubContext → Argv → PubSub → PubSub × Bytes :=
  unsubscribeGeneric PubSub.punsubscribe "punsubscribe"

end Gopherdis.PubSub

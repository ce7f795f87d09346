/-
The commands the server registers by their names, and where the handler of each finds its keys. Most
take one key right behind the name. Where a number of keys, a subcommand or options decide, the arguments are
read as the handler reads them; a handler that replies an error before it has found its keys has none.
-/
import Gopherdis.Command.Script
import Gopherdis.Command.Xread
import Gopherdis.Encoded.Keys

namespace Gopherdis.Command

open Lib Codec List

inductive KeyLayout
  | none
  | first
  | firstTwo
  | all
  /-- Keys and values in turns. -/
  | pairs
  /-- All arguments but the operation. -/
  | behindOperation
  /-- A number at this position, at least this large, and as many keys. -/
  | counted (position : Nat) (least : Int)
  | countedPairs
  /-- A destination, and a number of keys. -/
  | storeCounted
  | object | xgroup | xinfo | memory | debug
  | xread | xreadgroup
  | sort
deriving DecidableEq, Repr

/-! ## Keys -/

def everyOther : List Bytes → List Bytes
  | [] => []
  | [key] => [key]
  | key :: _ :: rest => key :: everyOther rest

def countedKeys (position : Nat) (least : Int) (argv : Argv) : List Bytes :=
  match parseInt (argv.getD position []) with
  | none => []
  | some numKeys =>
    if numKeys < least ∨ (argv.length : Int) < position + 1 + numKeys then []
    else (argv.drop (position + 1)).take numKeys.toNat

def msetexKeys (argv : Argv) : List Bytes :=
  match parseInt (argv.getD 1 []) with
  | none => []
  | some numKeys =>
    if numKeys ≤ 0 ∨ 2 ^ 31 - 1 < numKeys ∨ (argv.length : Int) < 2 + numKeys * 2 then []
    else everyOther ((argv.drop 2).take (numKeys.toNat * 2))

/-- The first half of what stands behind `STREAMS`. -/
def streamKeys (rem : List Bytes) : List Bytes := if rem.length % 2 ≠ 0 then [] else rem.take (rem.length / 2)

/-- What stands behind `STREAMS`, if the options before it are in order. -/
def xreadgroupOptions : List Bytes → Option (List Bytes)
  | [] => some []
  | word :: rest =>
    let opt := toUpper word
    if opt = ascii "GROUP" then
      match rest with
      | _ :: _ :: rest => xreadgroupOptions rest
      | _ => none
    else if opt = ascii "COUNT" then
      match rest with
      | arg :: rest => if (parseInt arg).isSome then xreadgroupOptions rest else none
      | [] => none
    else if opt = ascii "NOACK" then xreadgroupOptions rest
    else if opt = ascii "STREAMS" then some rest
    else none

def sortKeys (argv : Argv) : List Bytes :=
  match Encoded.sortOptions (argv.drop 2) {} with
  | .error _ => (argv.drop 1).take 1
  | .ok o => (argv.drop 1).take 1 ++ if o.storeKey = [] then [] else [o.storeKey]

/-- The keys among the arguments of a command. -/
def KeyLayout.keys : KeyLayout → Argv → List Bytes
  | .none, _ => []
  | .first, argv => (argv.drop 1).take 1
  | .firstTwo, argv => (argv.drop 1).take 2
  | .all, argv => argv.drop 1
  | .pairs, argv => everyOther (argv.drop 1)
  | .behindOperation, argv => argv.drop 2
  | .counted position least, argv => countedKeys position least argv
  | .countedPairs, argv => msetexKeys argv
  | .storeCounted, argv => (argv.drop 1).take 1 ++ countedKeys 2 1 argv
  | .object, argv =>
    if toUpper (argv.getD 1 []) = ascii "HELP" ∨ argv.length ≠ 3 then [] else argv.drop 2
  | .xgroup, argv => (argv.drop 2).take 1
  | .xinfo, argv => if toUpper (argv.getD 1 []) = ascii "HELP" then [] else (argv.drop 2).take 1
  | .memory, argv => if toUpper (argv.getD 1 []) = ascii "USAGE" then (argv.drop 2).take 1 else []
  | .debug, argv =>
    if toUpper (argv.getD 1 []) = ascii "OBJECT" then (argv.drop 2).take 1
    else if toUpper (argv.getD 1 []) = ascii "DIGEST-VALUE" then argv.drop 2
    else []
  | .xread, argv =>
    match xreadOptions (argv.drop 1) 0 (-1) with
    | .error _ => []
    | .ok (_, _, rem) => streamKeys rem
  | .xreadgroup, argv => ((xreadgroupOptions (argv.drop 1)).map streamKeys).getD []
  | .sort, argv => sortKeys argv

/-! ## The table -/

structure CommandSpec where
  name : Bytes
  layout : KeyLayout
deriving DecidableEq, Repr

/-- Commands that find their keys in the same way. -/
def named (layout : KeyLayout) (names : List String) : List CommandSpec := names.map fun name => ⟨ascii name, layout⟩

def registry : List CommandSpec :=
  named .none ["auth", "acl", "hello", "time", "dbsize", "flushdb", "flushall", "client", "slowlog", "config",
      "command", "monitor", "cluster", "latency", "module", "info", "ping", "echo", "save", "bgsave", "keys",
      "scan", "randomkey", "select", "swapdb", "quit", "publish", "subscribe", "unsubscribe", "psubscribe",
      "punsubscribe", "pubsub", "replicaof", "slaveof", "role", "replconf", "script", "function", "sentinel",
      "multi", "discard", "unwatch", "exec"] ++
  named .first ["setbit", "getbit", "bitcount", "bitpos", "hscan", "sscan", "zscan", "delex", "digest",
      "dump", "restore", "ttl", "type", "expire", "pexpire", "expireat", "pexpireat", "geoadd", "geodist",
      "geopos", "geohash", "georadius", "georadiusbymember", "geosearch", "hset", "hget", "hdel", "hexists",
      "hgetall", "hlen", "hkeys", "hvals", "hmget", "hmset", "hincrby", "hincrbyfloat", "hsetnx", "hstrlen",
      "hrandfield", "pfadd", "persist", "pttl", "expiretime", "pexpiretime", "lpush", "rpush", "lpop", "rpop",
      "lrange", "llen", "lindex", "lset", "linsert", "ltrim", "lrem", "lpos", "lpushx", "rpushx", "sadd",
      "srem", "smembers", "sismember", "scard", "spop", "smismember", "srandmember", "xadd", "xrange",
      "xrevrange", "xlen", "xdel", "xtrim", "xack", "xpending", "xclaim", "get", "set", "incr", "decr",
      "incrby", "decrby", "strlen", "append", "incrbyfloat", "setrange", "getrange", "setnx", "setex",
      "psetex", "getset", "getdel", "getex", "substr", "zadd", "zscore", "zrank", "zrevrank", "zrange",
      "zrevrange", "zcard", "zcount", "zrem", "zincrby", "zrangebylex", "zrevrangebylex", "zlexcount",
      "zremrangebylex", "zrangebyscore", "zrevrangebyscore", "zpopmin", "zpopmax", "zremrangebyrank",
      "zremrangebyscore", "zmscore", "zrandmember"] ++
  named .behindOperation ["bitop"] ++
  named .memory ["memory"] ++
  named .debug ["debug"] ++
  named .all ["exists", "del", "pfcount", "pfmerge", "touch", "unlink", "sinter", "sunion", "sdiff",
      "sinterstore", "sunionstore", "sdiffstore", "mget", "watch"] ++
  named .firstTwo ["rename", "renamenx", "copy", "lcs", "lmove", "rpoplpush", "smove", "zrangestore"] ++
  named .countedPairs ["msetex"] ++
  named .object ["object"] ++
  named (.counted 2 0) ["eval", "evalsha"] ++
  named (.counted 1 1) ["sintercard", "sunioncard", "sdiffcard", "zunion", "zinter", "zdiff", "zintercard"] ++
  named .sort ["sort", "sort_ro"] ++
  named .xgroup ["xgroup"] ++
  named .xread ["xread"] ++
  named .xreadgroup ["xreadgroup"] ++
  named .xinfo ["xinfo"] ++
  named .pairs ["mset", "msetnx"] ++
  named .storeCounted ["zunionstore", "zinterstore", "zdiffstore"]

def specOf (name : Bytes) : Option CommandSpec := registry.find? fun spec => spec.name = name

def keysOf (name : Bytes) (argv : Argv) : List Bytes := (specOf name).elim [] fun spec => spec.layout.keys argv

lemma registry_nodup : (registry.map CommandSpec.name).Nodup := by decide +kernel

lemma find?_of_nodup {specs : List CommandSpec} (h : (specs.map CommandSpec.name).Nodup) {spec : CommandSpec}
    (hspec : spec ∈ specs) : specs.find? (fun s => s.name = spec.name) = some spec := by
  induction specs with
  | nil => cases hspec
  | cons s specs ih =>
  rw [map_cons, nodup_cons] at h
  rcases mem_cons.1 hspec with rfl | hspec
  · exact find?_cons_of_pos (decide_eq_true rfl)
  have hne : s.name ≠ spec.name := fun he => h.1 (he ▸ mem_map_of_mem hspec)
  rw [find?_cons_of_neg (by simpa using hne)]
  exact ih h.2 hspec

lemma specOf_of_mem {spec : CommandSpec} (h : spec ∈ registry) : specOf spec.name = some spec :=
  find?_of_nodup registry_nodup h

end Gopherdis.Command

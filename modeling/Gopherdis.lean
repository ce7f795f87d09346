import Gopherdis.Aof.RewriteRace
import Gopherdis.Replication.FullSync
import Gopherdis.Replication.PartialSync
import Gopherdis.Aof.RewriteRoundTrip
import Gopherdis.Propagate.Script
import Gopherdis.Command.Dump
import Gopherdis.Rdb.MemorySafety
import Gopherdis.Store.WatchRace
import Gopherdis.Command.Poison
import Gopherdis.Command.KeyLocks
import Gopherdis.Command.Watch
import Gopherdis.Rdb.BackgroundSave
import Gopherdis.Command.XreadWait
import Gopherdis.Command.StreamIds
import Gopherdis.Rdb.Truncated
import Gopherdis.Rdb.Checksum
import Gopherdis.Command.Deadline
import Gopherdis.Command.BatchGuard
import Gopherdis.Encoded.Drift
import Gopherdis.Encoded.Rename
import Gopherdis.Codec.Pipeline
import Gopherdis.Command.StreamHistory
import Gopherdis.Encoded.Failures
import Gopherdis.Encoded.KeepTTL
import Gopherdis.Glob.Tokens
import Gopherdis.Script.Bridge
import Gopherdis.Acl.Rules
import Gopherdis.Store.Scan
import Gopherdis.Cluster.Redirect
import Gopherdis.Encoded.ListRace
import Gopherdis.Replication.MaxMemory
import Gopherdis.Aof.DoubleBuffer
import Gopherdis.Cluster.SingleOwner
import Gopherdis.PubSub.InStep
import Gopherdis.View.ListView
import Gopherdis.View.SetView
import Gopherdis.View.ZsetView
import Gopherdis.Encoded.Reload
import Gopherdis.Encoded.Ranks
import Gopherdis.Command.Bitmap

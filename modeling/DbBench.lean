import DbBench.Proof.FlatMap
import DbBench.Proof.ApplyBatch
import DbBench.Construction.LMDB
import DbBench.Construction.RedisDB
import DbBench.Proof.Interchange
import DbBench.Proof.Acknowledged
import DbBench.Proof.LiveTxn
import DbBench.Proof.Serialized
import DbBench.Proof.OwnOutcome
import DbBench.Proof.Opened
import DbBench.Proof.Protocol
import DbBench.Proof.ShardBalance
import DbBench.Proof.Reopened
import DbBench.Proof.FailedOpen
import DbBench.Proof.OptionFields
import DbBench.Proof.MeasuredMix
import DbBench.Proof.PreparedData
import DbBench.Proof.MutexHeld
import DbBench.Proof.Uniform
import DbBench.Proof.Cleared
import DbBench.Proof.Isolated
import DbBench.Proof.HashReads
import DbBench.Proof.TreeSize
import DbBench.Proof.ShellCommands
import DbBench.Proof.MidlSearch
import DbBench.Proof.Snapshots

import Shardlite.Cluster.TransferSafety
import Shardlite.Cluster.SplitAgain
import Shardlite.Cluster.Redelivery
import Shardlite.Cluster.TransferEvidence
import Shardlite.Cluster.CatalogReopen
import Shardlite.Replication.DenseStream
import Shardlite.Vfs.WalCapture
import Shardlite.Replication.QuorumAck
import Shardlite.Cluster.LeaderCompleteness
import Shardlite.Cluster.MembershipSafety
import Shardlite.Replication.BootstrapSafety
import Shardlite.Shard.AtomicOnce
import Shardlite.Shard.AtomicReports
import Shardlite.Shard.AtomicRestart
import Shardlite.Replication.CrashApply
import Shardlite.Net.Doorman
import Shardlite.Shard.Parking
import Shardlite.Cluster.LinearizableReads
import Shardlite.S3.Owners
import Shardlite.Query.Colocated
import Shardlite.Query.Aggregate
import Shardlite.Query.SetOps
import Shardlite.Cluster.DrainRun
import Shardlite.Cluster.Lifecycle
import Shardlite.Shard.LinearHashing
import Shardlite.Replication.Retention
import Shardlite.Cluster.InitialPlacement
import Shardlite.Vfs.Retained
import Shardlite.Storage.Escalation
import Shardlite.S3.Replay

import Streambus.TornSegment
import Streambus.RecordLayouts
import Streambus.CompactedLog
import Streambus.LogBounds
import Streambus.HangingTransactions
import Streambus.CleanEncoding
import Streambus.GroupGenerations
import Streambus.GroupDeletion
import Streambus.RaftRestart
import Streambus.GroupPositions
import Streambus.LinkRun
import Streambus.WorkerNames
import Streambus.FollowerReplicator
import Streambus.TopicAccess
import Streambus.TopicQuota
import Streambus.EncryptionHistory
import Streambus.FetchProgress
import Streambus.ReadCommitted
import Streambus.ReplayAgreement
import Streambus.RaftFrames
import Streambus.SchemaEvolution
import Streambus.PartitionRules
import Streambus.CircuitBreaker

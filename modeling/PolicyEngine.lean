import PolicyEngine.Lib.Trie
import PolicyEngine.Lib.Runs
import PolicyEngine.Lib.Codec
import PolicyEngine.Lib.Base64
import PolicyEngine.Spec.Dataset
import PolicyEngine.Memory.DataPlane
import PolicyEngine.Memory.SlotMachine
import PolicyEngine.Memory.NoEffect
import PolicyEngine.Memory.Replay
import PolicyEngine.Memory.EventListing
import PolicyEngine.Sqlite.AttributeRule
import PolicyEngine.Sqlite.Reads
import PolicyEngine.Store.Fingerprint
import PolicyEngine.Sqlite.EventSteps
import PolicyEngine.App.ExactSnapshot
import PolicyEngine.Lib.Rfc3339
import PolicyEngine.Core.Authorization
import PolicyEngine.App.Fingerprints
import PolicyEngine.App.Approval
import PolicyEngine.App.AttributeView
import PolicyEngine.Lib.Simulation
import PolicyEngine.Store.Lifetime
import PolicyEngine.Sqlite.ShutdownRuns
import PolicyEngine.Memory.SnapshotReads
import PolicyEngine.Memory.AttributeIndex
import PolicyEngine.Memory.RevisionListing
import PolicyEngine.Core.WriteRequests
import PolicyEngine.Sqlite.Wal
import PolicyEngine.Sqlite.DdlSoundness
import PolicyEngine.Sqlite.Backup
import PolicyEngine.Sqlite.RecordCodecs
import PolicyEngine.Sqlite.Timestamps
import PolicyEngine.Sqlite.Prune
import PolicyEngine.App.Finalization
import PolicyEngine.App.ReadTuples
import PolicyEngine.Cache.PointerRuns
import PolicyEngine.Cache.RevisionRuns
import PolicyEngine.Sqlite.Histories
import PolicyEngine.Sqlite.Soundness
import PolicyEngine.Sqlite.Writer

import ApfsAccess.Library.ByteBuffer
import ApfsAccess.Library.Sorting
import ApfsAccess.Library.Sweep
import ApfsAccess.Library.Intervals
import ApfsAccess.Format.Codec
import ApfsAccess.Journal.Record
import ApfsAccess.Journal.WalSemantics
import ApfsAccess.Journal.TransactionManager
import ApfsAccess.Journal.Replay
import ApfsAccess.Journal.Restart
import ApfsAccess.Extents.Records
import ApfsAccess.Extents.OwnerRecords
import ApfsAccess.Extents.Changes
import ApfsAccess.Extents.ChangeAccounting
import ApfsAccess.Extents.Coverage
import ApfsAccess.Extents.PayloadGraph
import ApfsAccess.Extents.Retained
import ApfsAccess.Extents.Snapshots
import ApfsAccess.Btree.Keys
import ApfsAccess.Btree.Layout
import ApfsAccess.Btree.Levels
import ApfsAccess.Btree.NodeRead
import ApfsAccess.Btree.RoundTrip
import ApfsAccess.Btree.KeyOrder
import ApfsAccess.Btree.ObjectMap
import ApfsAccess.Btree.HostileRead
import ApfsAccess.Wal.Append
import ApfsAccess.Journal.GroupCommit
import ApfsAccess.Geometry.GptCrash
import ApfsAccess.Journal.AcceptedWork
import ApfsAccess.Checkpoint.MappedChecksum
import ApfsAccess.Names.Codec
import ApfsAccess.Names.ValidUtf8
import ApfsAccess.Device.CacheCoherence
import ApfsAccess.Coordinator.StaleViews
import ApfsAccess.Delta.Compaction
import ApfsAccess.Allocator.Runs
import ApfsAccess.Allocator.Canonical
import ApfsAccess.Allocator.Feasibility
import ApfsAccess.Spaceman.FreeQueue
import ApfsAccess.Spaceman.BitmapRotation
import ApfsAccess.Extents.Partition
import ApfsAccess.Records.RoundTrip
import ApfsAccess.Library.Bitmap
import ApfsAccess.Library.Tiling
import ApfsAccess.Catalog.SharedSpace
import ApfsAccess.Host.Sharing
import ApfsAccess.Checkpoint.Verification
import ApfsAccess.Sparse.Coverage
import ApfsAccess.Records.Security
import ApfsAccess.Wal.AnyOperation
import ApfsAccess.Recovery.Canonical
import ApfsAccess.Fusion.Witness
import ApfsAccess.Compression.Range
import ApfsAccess.Wal.Evidence
import ApfsAccess.ProtectedWal.Recovery
import ApfsAccess.Fusion.BitmapRange
import ApfsAccess.Allocator.CleanRuns
import ApfsAccess.Coordinator.ExtentLedger
import ApfsAccess.Firmlink.Topology
import ApfsAccess.ProtectedJournal.KeySlots
import ApfsAccess.ProtectedJournal.Sealing
import ApfsAccess.Manifest.JsonAcceptance
import ApfsAccess.Checkpoint.Selection

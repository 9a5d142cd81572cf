import Racfs.Lib.AssocMap
import Racfs.Lib.Run
import Racfs.Lib.RwLock
import Racfs.Lib.LockProgram
import Racfs.Lib.Window
import Racfs.Lib.History
import Racfs.Lib.Links
import Racfs.Lib.Bytes
import Racfs.Lib.Overlay
import Racfs.Lib.Offset
import Racfs.Lib.Decimal
import Racfs.Lib.Path
import Racfs.Lib.PathJoin
import Racfs.Lib.Words
import Racfs.Lib.NameTree
import Racfs.Lib.Sql
import Racfs.Lib.SqlLiteral
import Racfs.Lib.Chunks
import Racfs.Lib.Pages
import Racfs.Lib.Expiring
import Racfs.Core
import Racfs.MemFs.Model
import Racfs.MemFs.Frame
import Racfs.MemFs.Tree
import Racfs.MemFs.Atomic
import Racfs.MemFs.Representation
import Racfs.MemFs.Writes
import Racfs.MemFs.Subtree
import Racfs.MemFs.Listing
import Racfs.MemFs.Links
import Racfs.QueueFs.Model
import Racfs.QueueFs.Runs
import Racfs.QueueFs.Order
import Racfs.QueueFs.Listing
import Racfs.S3Fs.Service
import Racfs.S3Fs.Model
import Racfs.S3Fs.Multipart
import Racfs.S3Fs.Writes
import Racfs.S3Fs.Bucket
import Racfs.S3Fs.Store
import Racfs.S3Fs.Directory
import Racfs.S3Fs.Stat
import Racfs.S3Fs.Removal
import Racfs.S3Fs.Moves
import Racfs.KvFs.Model
import Racfs.KvFs.Maps
import Racfs.KvFs.Listing
import Racfs.KvFs.Writes
import Racfs.KvFs.Subtree
import Racfs.KvFs.Backends
import Racfs.KvFs.Simulation
import Racfs.LocalFs.Resolve
import Racfs.LocalFs.Read
import Racfs.LocalFs.Confinement
import Racfs.SqlFs.Model
import Racfs.SqlFs.SizeLimit
import Racfs.SqlFs.Tree
import Racfs.SqlFs.Subtree
import Racfs.SqlFs.Listing
import Racfs.SqlFs.Removal
import Racfs.Vfs.HandleManager
import Racfs.Vfs.HandleCalls
import Racfs.Vfs.OpenHandle
import Racfs.Vfs.Leases
import Racfs.Vfs.LockOrder
import Racfs.Vfs.Mountable
import Racfs.Vfs.Routing
import Racfs.Vfs.Slicing
import Racfs.Vfs.Normalize
import Racfs.Vfs.Coherence
import Racfs.Vfs.MountCalls
import Racfs.Vfs.CachedFs
import Racfs.Vfs.CachedRaces
import Racfs.Vfs.Forwarding
import Racfs.Vfs.PathTree
import Racfs.Vfs.Transparent
import Racfs.Vfs.FoyerCache
import Racfs.Server.Files
import Racfs.Server.Metadata
import Racfs.Server.Api
import Racfs.Server.Json
import Racfs.Server.StatRaces
import Racfs.Server.StatCoherence
import Racfs.Server.RateLimit
import Racfs.Server.RateLimited
import Racfs.Server.SymlinkTargets
import Racfs.Server.Xattr
import Racfs.Client
import Racfs.Client.Retry
import Racfs.Client.HalfOpen
import Racfs.Client.Resend
import Racfs.Client.AtMostOnce
import Racfs.ProxyFs.Model
import Racfs.ProxyFs.RoundTrip
import Racfs.HttpFs.Model
import Racfs.HttpFs.Cache
import Racfs.HttpFs.Expiry
import Racfs.HttpFs.CacheControl
import Racfs.Fuse.Locks
import Racfs.Fuse.LockBytes
import Racfs.Fuse.InodeManager
import Racfs.Fuse.InodeRuns
import Racfs.Fuse.InodeRaces
import Racfs.Fuse.Attr
import Racfs.Fuse.Cache
import Racfs.Fuse.Merge
import Racfs.Fuse.MergeMeaning
import Racfs.Fuse.MergeShape
import Racfs.Fuse.AsyncFs
import Racfs.Fuse.FailedRemoval
import Racfs.Fuse.Release
import Racfs.Fuse.ReadBack
import Racfs.Fuse.StaleFill
import Racfs.Fuse.AttrCoherence
import Racfs.Fuse.Tables
import Racfs.Fuse.Readdir
import Racfs.Fuse.RenameInodes
import Racfs.Fuse.WriteBack
import Racfs.Fuse.Xattr
import Racfs.Fuse.RoundTrip
import Racfs.Server.StatExpiry
import Racfs.Fuse.Staleness
import Racfs.Fuse.Paging
import Racfs.StreamRotateFs.Sizes
import Racfs.StreamRotateFs.Races
import Racfs.StreamRotateFs.Archive
import Racfs.StreamFs.Model
import Racfs.StreamFs.Steps
import Racfs.StreamFs.Paths
import Racfs.StreamFs.RingBuffer
import Racfs.StreamFs.Counters
import Racfs.StreamFs.Compression
import Racfs.StreamFs.Listing
import Racfs.StreamFs.MessageWrites
import Racfs.Vfs.ReadSlices
import Racfs.VectorFs.Model
import Racfs.VectorFs.Index
import Racfs.VectorFs.Races
import Racfs.VectorFs.Locks
import Racfs.VectorFs.Escape
import Racfs.VectorFs.Query
import Racfs.VectorFs.RenameAtomic
import Racfs.VectorFs.Listing
import Racfs.HttpFs.Listing
import Racfs.PgsFs.Rename
import Racfs.Lib.Statements
import Racfs.PgsFs.Interleaved
import Racfs.PgsFs.Answers
import Racfs.PgsFs.Shut

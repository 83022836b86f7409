import CofferFS.Lib.Table
import CofferFS.Lib.Script
import CofferFS.Time
import CofferFS.Schema
import CofferFS.Helpers
import CofferFS.Callbacks
import CofferFS.Requests
import CofferFS.Effects
import CofferFS.Lib.Climb
import CofferFS.Lib.Namespace
import CofferFS.Frame
import CofferFS.Tree
import CofferFS.Lib.Sparse
import CofferFS.Content
import CofferFS.Read
import CofferFS.Reply
import CofferFS.Files
import CofferFS.Quiet
import CofferFS.Ceiling
import CofferFS.Handles
import CofferFS.Atomic
import CofferFS.Check
import CofferFS.Own
import CofferFS.Privileges
import CofferFS.Ctime
import CofferFS.Setattr
import CofferFS.Rename
import CofferFS.Xattrs
import CofferFS.Lib.Utf8
import CofferFS.Uri
import CofferFS.Config
import CofferFS.Registry
import CofferFS.RegistryLines
import CofferFS.Ipc
import CofferFS.Lib.Machine
import CofferFS.Locking
import CofferFS.Lib.Wal
import CofferFS.Durability
import CofferFS.Lib.Cursor
import CofferFS.Readdir
import CofferFS.Listing
import CofferFS.Container
import CofferFS.Migration
import CofferFS.Lib.Numbering
import CofferFS.Stale
import CofferFS.Numbers
import CofferFS.Lib.Literal
import CofferFS.Quote
import CofferFS.Lib.Encode
import CofferFS.Passwords
import CofferFS.Create
import CofferFS.Mounts
import CofferFS.Sizes
import CofferFS.Lib.Rounding
import CofferFS.MaxSize
import CofferFS.Durations
import CofferFS.Seconds
import CofferFS.Timestamps
import CofferFS.Lib.Paths
import CofferFS.Paths
import CofferFS.Walk
import CofferFS.Identity
import CofferFS.Pieces
import CofferFS.Space
import CofferFS.Lib.Replace
import CofferFS.Save
import CofferFS.Lib.Copy
import CofferFS.Backup
import CofferFS.ReadOnly
import CofferFS.Lib.Reasons
import CofferFS.Lib.Local
import CofferFS.Executed
import CofferFS.Refusals
import CofferFS.Answers
import CofferFS.Lib.Cache
import CofferFS.Caches
import CofferFS.FileSystem
import CofferFS.Objects
import CofferFS.Lib.Refinement
import CofferFS.Serves
import CofferFS.Targets
import CofferFS.Lib.Watch
import CofferFS.Idle
import CofferFS.Compaction

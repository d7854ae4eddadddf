import Pcos.Foundations.Runs
import Pcos.Foundations.Tiling
import Pcos.Foundations.Digest
import Pcos.Foundations.Ancestry
import Pcos.Foundations.Wp
import Pcos.Foundations.Xml
import Pcos.Foundations.FileSystem
import Pcos.Foundations.Disk
import Pcos.Agent.Delta
import Pcos.Agent.LocalDb
import Pcos.Agent.Sync
import Pcos.Backend.Paths
import Pcos.Backend.FileEntries
import Pcos.Backend.World
import Pcos.Backend.Service
import Pcos.Backend.Resumable
import Pcos.Backend.WebDav
import Pcos.Backend.System
import Pcos.Backend.Change
import Pcos.Backend.Forest
import Pcos.Backend.StoragePaths
import Pcos.Backend.Isolation
import Pcos.Backend.Trash
import Pcos.Backend.Blobs
import Pcos.Backend.Integrity
import Pcos.Agent.Upload
import Pcos.Backend.ChunkStore
import Pcos.Backend.Concurrency
import Pcos.Foundations.Sums
import Pcos.Backend.Quota
import Pcos.Foundations.Dict
import Pcos.Edge.PairingHub
import Pcos.Edge.Eviction
import Pcos.Backend.Pairing
import Pcos.Backend.SingleUse
import Pcos.Backend.Transfers
import Pcos.Backend.Decisions
import Pcos.Edge.Pairing
import Pcos.Edge.Sections
import Pcos.Edge.Agreement
import Pcos.Edge.Decisions
import Pcos.Foundations.Base64
import Pcos.Foundations.Base64Url
import Pcos.Foundations.Overlay
import Pcos.Backend.Completeness
import Pcos.Foundations.Json
import Pcos.Foundations.Text
import Pcos.Backend.Auth
import Pcos.Backend.Passwords
import Pcos.Backend.SecondFactor
import Pcos.Backend.TokenKinds
import Pcos.Backend.Shares
import Pcos.Backend.DownloadLimit
import Pcos.Edge.Accounts
import Pcos.Edge.Challenge
import Pcos.Edge.TotpAgreement
import Pcos.Edge.PasswordAgreement
import Pcos.Edge.PasswordHashes
import Pcos.Edge.Files
import Pcos.Edge.Shares
import Pcos.Edge.Durability
import Pcos.Edge.DownloadLimit
import Pcos.Backend.ShareAccess
import Pcos.Foundations.Rotation
import Pcos.Foundations.Vouchers
import Pcos.Foundations.Regroup
import Pcos.Foundations.SignedRegroup
import Pcos.Foundations.Decimal
import Pcos.Foundations.Hmac
import Pcos.Backend.Mnemonic
import Pcos.Backend.Recovery
import Pcos.Backend.Sessions
import Pcos.Edge.Recovery
import Pcos.Edge.ShareAccess
import Pcos.Edge.Sessions
import Pcos.Foundations.Words
import Pcos.Foundations.CaseMapping
import Pcos.Foundations.Utf8
import Pcos.Backend.Resets
import Pcos.Backend.Spelling
import Pcos.Edge.Mnemonic
import Pcos.Edge.Resets
import Pcos.Edge.RateLimit
import Pcos.Edge.Budget
import Pcos.Edge.PresenceHub
import Pcos.Edge.Tunnel
import Pcos.Edge.DeviceIsolation
import Pcos.Edge.NodeReads
import Pcos.Edge.FileTree
import Pcos.Foundations.Directories
import Pcos.Backend.DavNamespace
import Pcos.Backend.S3Objects
import Pcos.Backend.Search
import Pcos.Foundations.Lockout
import Pcos.Foundations.Memberships
import Pcos.Backend.Family
import Pcos.Edge.Family
import Pcos.Backend.Admins
import Pcos.Backend.QuotaCheck
import Pcos.Foundations.Writes
import Pcos.Agent.ChunkWrites
import Pcos.Backend.TrashRoundTrip
import Pcos.Agent.FsHandler
import Pcos.Foundations.Cursor
import Pcos.Backend.ChangeFeed
import Pcos.Foundations.Replication
import Pcos.Backend.Replicas
import Pcos.Edge.Replicas
import Pcos.Edge.Rebalance
import Pcos.Backend.Rebalance
import Pcos.Backend.Rebalances
import Pcos.Edge.NodeTransfers
import Pcos.Agent.DiskPolicy
import Pcos.Foundations.FileCalls
import Pcos.Agent.FsDelete
import Pcos.Foundations.StableSort
import Pcos.Agent.Queue
import Pcos.Foundations.ByteRange
import Pcos.Edge.Ranges
import Pcos.Backend.Ranges
import Pcos.Foundations.Like
import Pcos.Backend.S3Listing
import Pcos.Agent.ChunkRoundTrip
import Pcos.Backend.Overwrites
import Pcos.Foundations.PercentCoding
import Pcos.Backend.DavTransfers
import Pcos.Backend.Multistatus
import Pcos.Backend.Propfind
import Pcos.Foundations.JsonTree
import Pcos.Backend.Backups
import Pcos.Backend.Transcode
import Pcos.Edge.Placement
import Pcos.Edge.Jwt
import Pcos.Foundations.KeyIndex
import Pcos.Backend.PairingIndex
import Pcos.Agent.Base64Decoding
import Pcos.Foundations.FormCoding
import Pcos.Agent.QueryDecoding
import Pcos.Backend.TotpSecrets
import Pcos.Agent.Identity
import Pcos.Agent.Jail
import Pcos.Agent.Effects
import Pcos.Agent.LanServer
import Pcos.Agent.FsCommands
import Pcos.Agent.WrittenFiles
import Pcos.Backend.BackupRoundTrip
import Pcos.Backend.Retention
import Pcos.Agent.DeltaEdits
import Pcos.Agent.Discovery
import Pcos.Client.SignedIn
import Pcos.Foundations.Batches
import Pcos.Agent.SyncPasses
import Pcos.Backend.Browsing
import Pcos.Agent.SyncServer

import Hostel.Bed.Accounting
import Hostel.Bed.Admission
import Hostel.Bed.Entries
import Hostel.Bed.Fence
import Hostel.Bed.Inventory
import Hostel.Bed.Retention
import Hostel.Privilege.Manager
import Hostel.Logic.KeyStore
import Hostel.Logic.Path
import Hostel.Sync.Objects
import Hostel.Sync.Desync
import Hostel.Sync.Cas
import Hostel.Sync.Pack
import Hostel.Sync.PackHistory
import Hostel.Sync.Tar
import Hostel.Sync.TarRoundTrip
import Hostel.Sync.Restic
import Hostel.Sync.Layouts
import Hostel.Sync.Auto
import Hostel.Bed.Cancellation
import Hostel.Bed.LocalData
import Hostel.Logic.FiniteMap
import Hostel.Logic.Threads
import Hostel.Network.Pool
import Hostel.Process.Lifecycle
import Hostel.Store.Transfers
import Hostel.Logic.JsonText
import Hostel.Logic.Json
import Hostel.Logic.JsonRecord
import Hostel.Supervisor.Protocol
import Hostel.Supervisor.Server
import Hostel.Logic.Netip
import Hostel.Logic.NetipText
import Hostel.Logic.Cursor
import Hostel.Network.Ports
import Hostel.Logic.Nft
import Hostel.Network.Policy
import Hostel.Network.PolicyControl
import Hostel.Amenity.Manager
import Hostel.Pillow.Supervision
import Hostel.McpProxy.Leases
import Hostel.Store.Publish
import Hostel.Logic.Resolve
import Hostel.Sync.Confinement
import Hostel.Filesystem.TransferTree
import Hostel.Filesystem.Disk
import Hostel.Filesystem.Mappings
import Hostel.Filesystem.ReadOnly
import Hostel.Filesystem.MountEntries
import Hostel.Bed.Observation
import Hostel.Filesystem.Lines
import Hostel.Filesystem.RoundTrip
import Hostel.Executions.Output
import Hostel.Pillow.Readiness
import Hostel.Network.Verdict
import Hostel.Sync.Selection
import Hostel.Sync.PackReader

import IoReplica.Upgrade.Machine
import IoReplica.Rekey.Exact
import IoReplica.Rekey.Spine
import IoReplica.Rekey.Machine
import IoReplica.Sync.RefusedDelete
import IoReplica.Mutate
import IoReplica.Sync.StagedEdit
import IoReplica.Sync.Seam
import IoReplica.Sync.Driver
import IoReplica.Sync.Present
import IoReplica.Sync.Outcome
import IoReplica.Sync.Cell
import IoReplica.Library.Listing
import IoReplica.Sync.Machine
import IoReplica.Library.OrderedMap
import IoReplica.Sync.Join
import IoReplica.Sync.Append
import IoReplica.Sync.Settle
import IoReplica.Sync.Local
import IoReplica.Sync.Candidates
import IoReplica.Sync.Push
import IoReplica.Sync.Run
import IoReplica.Upgrade.Row
import IoReplica.Upgrade.Kept
import IoReplica.Hub.Model
import IoReplica.Rekey.Links
import IoReplica.Hub.Store
import IoReplica.Hub.Driver
import IoReplica.Hub.Edited
import IoReplica.Sync.Whole
import IoReplica.Upgrade.Batch
import IoReplica.Hub.Cell
import IoReplica.Sync.PushedFlags
import IoReplica.Sync.Delta
import IoReplica.Sync.Protocol
import IoReplica.Sync.Repeat
import IoReplica.Sync.MovedEdit
import IoReplica.Upgrade.Tombstone
import IoReplica.Sync.Assigned
import IoReplica.Sync.Copied
import IoReplica.Sync.Immutable
import IoReplica.Hub.Projected
import IoReplica.Hub.Hydrated
import IoReplica.Sync.Refreshed
import IoReplica.Hub.Refreshed
import IoReplica.Hub.Settled
import IoReplica.Hub.Recorded
import IoReplica.Sync.Rights
import IoReplica.Sync.Survives
import IoReplica.Sync.Resolution
import IoReplica.Rekey.Stale
import IoReplica.Hub.Rekeyed
import IoReplica.Hub.Renumbered
import IoReplica.Hub.Propagated
import IoReplica.Sync.Bystander
import IoReplica.Sync.Halves
import IoReplica.Sync.Relocated
import IoReplica.Completed
import IoReplica.Sync.Unread
import IoReplica.Sync.Ledger
import IoReplica.Sync.Chunks
import IoReplica.Upgrade.Reply
import IoReplica.Library.Claims
import IoReplica.Upgrade.Minted
import IoReplica.Upgrade.Rebuilt
import IoReplica.Mutated
import IoReplica.Sync.Destination
import IoReplica.Hub.Readded
import IoReplica.Sync.Relisted
import IoReplica.Key
import IoReplica.Library.ThreeWay
import IoReplica.Sync.Converged
import IoReplica.Sync.Events
import IoReplica.Sync.Summary
import IoReplica.Expects
import IoReplica.Diverging
import IoReplica.Library.Attempt
import IoReplica.Progress
import IoReplica.Client
import IoReplica.Stored
import IoReplica.MemStorage
import IoReplica.Calls
import IoReplica.Session
import IoReplica.Sync.Derived
import IoReplica.Intact
import IoReplica.MemRemote
import IoReplica.Sync.Based
import IoReplica.Sync.Members
import IoReplica.Sync.Replaced
import IoReplica.SoftDelete
import IoReplica.Library.Tracking
import IoReplica.Shared
import IoReplica.Rooted
import IoReplica.Exchanged
import IoReplica.Tracks

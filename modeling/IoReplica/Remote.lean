import IoReplica.Placement

/-! Payloads exchanged with the remote seam. -/
namespace IoReplica

/-- The detail tier a fetch targets. -/
inductive ReplicaTier
  | metadata | full
  deriving DecidableEq

/-- One row of an enumerate snapshot: handle, flags and content revision. -/
structure ReplicaRemoteItem where
  handle : ReplicaHandle
  flags : ReplicaFlags
  revision : Option String
  deriving DecidableEq

/-- The result of enumerating a collection. A complete snapshot reads absence as removal, a delta
reports removals in `vanished`. -/
structure ReplicaRemoteSnapshot where
  items : List ReplicaRemoteItem
  vanished : List ReplicaHandle
  complete : Bool
  checkpoint : ReplicaCheckpoint
  deriving DecidableEq

/-- The body a full fetch reports: bytes for the engine to store, or an object the consumer has
already persisted. -/
inductive ReplicaFetchedBody
  | inline (hash : ReplicaHash) (bytes : List UInt8)
  | persisted (hash : ReplicaHash) (size : ℕ)
  deriving DecidableEq

/-- The result of fetching one item at a requested tier. -/
structure ReplicaFetchedItem where
  handle : ReplicaHandle
  linkId : ReplicaLinkId
  metadata : ReplicaMeta
  sortKey : ReplicaSortKey
  body : Option ReplicaFetchedBody
  revision : Option String
  deriving DecidableEq

inductive ReplicaPushOutcome
  | accepted | rejected
  deriving DecidableEq

/-- The result of pushing one change. -/
structure ReplicaPushResult where
  handle : ReplicaHandle
  outcome : ReplicaPushOutcome
  assigned : Option ReplicaHandle
  revision : Option String
  deriving DecidableEq

end IoReplica

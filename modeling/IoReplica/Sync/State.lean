import IoReplica.Coroutine

/-! State of the sync coroutine, its tuning and its report. -/
namespace IoReplica

/-- Which push kinds a writable source may derive. -/
structure ReplicaPushRights where
  flags : Bool
  content : Bool
  add : Bool
  remove : Bool
  deriving DecidableEq

namespace ReplicaPushRights

def all : ReplicaPushRights := ⟨true, true, true, true⟩

def none : ReplicaPushRights := ⟨false, false, false, false⟩

end ReplicaPushRights

/-- How a sync resolves content diverged on both sides of a based placement. -/
inductive ReplicaConflictPolicy
  | manual | preferLocal | preferRemote | keepBoth
  deriving DecidableEq

/-- What becomes of a local delete the source will not take. -/
inductive ReplicaDeletePolicy
  | revert | keep
  deriving DecidableEq

structure ReplicaSyncOptions where
  push : Bool
  rights : ReplicaPushRights
  delete : ReplicaDeletePolicy
  conflict : ReplicaConflictPolicy
  full : Bool
  deriving DecidableEq

namespace ReplicaSyncOptions

def default : ReplicaSyncOptions := ⟨true, .all, .revert, .manual, false⟩

/-- May this run push an in-place content update? -/
def mayContent (o : ReplicaSyncOptions) : Bool := o.push && o.rights.content

def mayFlags (o : ReplicaSyncOptions) : Bool := o.push && o.rights.flags

def mayAdd (o : ReplicaSyncOptions) : Bool := o.push && o.rights.add

def mayRemove (o : ReplicaSyncOptions) : Bool := o.push && o.rights.remove

end ReplicaSyncOptions

/-- A per-item outcome of a sync. -/
inductive ReplicaEvent
  | added (handle : ReplicaHandle)
  | flagsChanged (handle : ReplicaHandle)
  | contentChanged (handle : ReplicaHandle)
  | vanished (handle : ReplicaHandle)
  | conflicted (handle : ReplicaHandle)
  | created (handle : ReplicaHandle)
  deriving DecidableEq

structure ReplicaSyncReport where
  pulled : ℕ
  pushed : ℕ
  conflicts : ℕ
  rejected : ℕ
  refreshed : ℕ
  events : List ReplicaEvent
  deriving DecidableEq

def ReplicaSyncReport.default : ReplicaSyncReport := ⟨0, 0, 0, 0, 0, []⟩

/-- One handle to merge: the placement holding it, the state the remote reports, or both. -/
structure Candidate where
  handle : ReplicaHandle
  loc : Option ReplicaPlacement
  remote : Option ReplicaRemoteItem
  deriving DecidableEq

/-- The local placements and the remote items still to walk, both in handle order. -/
structure Join where
  loc : List (ReplicaHandle × ReplicaPlacement)
  remote : List ReplicaRemoteItem

/-- The merge in progress: what the enumerate reported and how far the join has walked it. -/
structure Merge where
  join : Join
  vanished : Finset ReplicaHandle
  complete : Bool
  checkpoint : ReplicaCheckpoint

inductive SyncState
  | start | pendingLoad | pendingEnumerate | merging | pendingPush | pendingWrite | done
  deriving DecidableEq

/-- The sync coroutine. `panicked` records an `expect` reached with nothing there. -/
structure ReplicaSync where
  collection : ReplicaCollectionId
  opts : ReplicaSyncOptions
  loc : HandleMap ReplicaPlacement
  checkpoint : Option ReplicaCheckpoint
  merging : Option Merge
  writes : List ReplicaWriteOp
  pushes : List ReplicaChange
  inFlight : List ReplicaHandle
  nextCheckpoint : Option ReplicaCheckpoint
  pendingFlagPushes : HandleMap ReplicaPlacement
  pendingContentPushes : HandleMap ReplicaPlacement
  pendingDrops : Finset ReplicaHandle
  pendingCreates : HandleMap ReplicaPlacement
  report : ReplicaSyncReport
  state : SyncState
  panicked : Bool

namespace ReplicaSync

def PUSH_CHUNK : ℕ := 64

def WRITE_CHUNK : ℕ := 1024

def new (collection : ReplicaCollectionId) (opts : ReplicaSyncOptions) : ReplicaSync where
  collection := collection
  opts := opts
  loc := ∅
  checkpoint := none
  merging := none
  writes := []
  pushes := []
  inFlight := []
  nextCheckpoint := none
  pendingFlagPushes := ∅
  pendingContentPushes := ∅
  pendingDrops := ∅
  pendingCreates := ∅
  report := .default
  state := .start
  panicked := false

/-- Queues one storage write. -/
def write (self : ReplicaSync) (op : ReplicaWriteOp) : ReplicaSync :=
  { self with writes := self.writes ++ [op] }

def upsert (self : ReplicaSync) (p : ReplicaPlacement) : ReplicaSync :=
  self.write (.upsertPlacement p)

def emit (self : ReplicaSync) (event : ReplicaEvent) : ReplicaSync :=
  { self with report := { self.report with events := self.report.events ++ [event] } }

def countPulled (self : ReplicaSync) : ReplicaSync :=
  { self with report := { self.report with pulled := self.report.pulled + 1 } }

def countConflict (self : ReplicaSync) : ReplicaSync :=
  { self with report := { self.report with conflicts := self.report.conflicts + 1 } }

def countRefreshed (self : ReplicaSync) : ReplicaSync :=
  { self with report := { self.report with refreshed := self.report.refreshed + 1 } }

def countPushed (self : ReplicaSync) (n : ℕ) : ReplicaSync :=
  { self with report := { self.report with pushed := self.report.pushed + n } }

def countRejected (self : ReplicaSync) : ReplicaSync :=
  { self with report := { self.report with rejected := self.report.rejected + 1 } }

/-- Stashes a placement until its flag push is serviced. -/
def stashFlags (self : ReplicaSync) (h : ReplicaHandle) (p : ReplicaPlacement) : ReplicaSync :=
  { self with pendingFlagPushes := self.pendingFlagPushes.insert h p }

def stashContent (self : ReplicaSync) (h : ReplicaHandle) (p : ReplicaPlacement) : ReplicaSync :=
  { self with pendingContentPushes := self.pendingContentPushes.insert h p }

def stashDrop (self : ReplicaSync) (h : ReplicaHandle) : ReplicaSync :=
  { self with pendingDrops := insert h self.pendingDrops }

def stashCreate (self : ReplicaSync) (h : ReplicaHandle) (p : ReplicaPlacement) : ReplicaSync :=
  { self with pendingCreates := self.pendingCreates.insert h p }

def panic (self : ReplicaSync) : ReplicaSync := { self with panicked := true }

end ReplicaSync

end IoReplica

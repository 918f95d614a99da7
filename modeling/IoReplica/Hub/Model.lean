import IoReplica.Store

/-! The multi-source hub: shared content with a base per source, projected to a source and absorbed
back from it. -/
namespace IoReplica

/-- An ordered map keyed by source. -/
abbrev SourceMap (α : Type) := Std.ExtTreeMap ReplicaSourceId α

/-- One source's binding of a shared item. -/
structure ReplicaSourceBinding where
  handle : ReplicaHandle
  base : Option ReplicaBase
  conflicted : Bool
  conflictRevision : Option String
  conflictObject : Option ReplicaHash
  sharedObject : Option ReplicaHash
  deriving DecidableEq

/-- How a cross-source content conflict is resolved. -/
inductive ReplicaHubConflict
  | manual | preferIncoming | preferExisting
  deriving DecidableEq

/-- A logical item shared across sources. -/
structure ReplicaHubItem where
  flags : ReplicaFlags
  object : Option ReplicaHash
  metadata : Option ReplicaMeta
  sortKey : ReplicaSortKey
  level : ReplicaLevel
  deleted : Bool
  conflicted : Bool
  conflictObject : Option ReplicaHash
  sources : SourceMap ReplicaSourceBinding

structure ReplicaHub where
  items : LinkMap ReplicaHubItem
  conflict : ReplicaHubConflict

namespace ReplicaHubItem

/-- Full means a stored body: an item holding none reads one rung down. -/
def storedLevel (item : ReplicaHubItem) : ReplicaLevel :=
  match item.object with
  | some _ => item.level
  | none => min item.level .metadata

/-- The shared half of a projection. -/
def project (item : ReplicaHubItem) (collection : ReplicaCollectionId) (link : ReplicaLinkId)
    (handle : ReplicaHandle) : ReplicaPlacement where
  collection := collection
  handle := handle
  linkId := some link
  object := item.object
  level := item.storedLevel
  metadata := item.metadata
  sortKey := item.sortKey
  flags := item.flags
  status := .clean
  conflictRevision := none
  conflictObject := none
  base := none
  origin := none

/-- Does the source's own base agree with the shared content? -/
def inSync (item : ReplicaHubItem) (binding : ReplicaSourceBinding) : Bool :=
  binding.base.any (fun b => decide (b.flags = item.flags) && decide (b.object = item.object))

/-- The status a bound item reads as. An unresolved conflict outranks the base comparison, and a
binding with no base is the pending create it was staged as. -/
def boundStatus (item : ReplicaHubItem) (binding : ReplicaSourceBinding) : ReplicaStatus :=
  if binding.conflicted then .conflict
  else if binding.base.isNone && item.object.isSome then .created
  else if item.inSync binding then .clean
  else .dirty

/-- The placement of an item its source already holds. -/
def boundPlacement (item : ReplicaHubItem) (collection : ReplicaCollectionId)
    (link : ReplicaLinkId) (binding : ReplicaSourceBinding) : ReplicaPlacement :=
  { item.project collection link binding.handle with
    status := item.boundStatus binding
    conflictRevision := binding.conflictRevision
    conflictObject := binding.conflictObject
    base := binding.base }

/-- A delete from elsewhere of an item still held here. -/
def tombstonePlacement (item : ReplicaHubItem) (collection : ReplicaCollectionId)
    (link : ReplicaLinkId) (binding : ReplicaSourceBinding) : ReplicaPlacement :=
  { item.project collection link binding.handle with
    status := .tombstone
    base := binding.base }

/-- The handle an append is staged under until the remote assigns one. -/
def hubHandle (link : ReplicaLinkId) : ReplicaHandle := ⟨link.asStr ++ "\x01hub"⟩

/-- The append of an item missing on a source, staged once its body is hydrated. -/
def createdPlacement (item : ReplicaHubItem) (collection : ReplicaCollectionId)
    (link : ReplicaLinkId) : Option ReplicaPlacement :=
  if item.object.isSome then
    some { item.project collection link (hubHandle link) with
      status := .created
      level := .full }
  else none

/-- What one item projects to a source: nothing, when deleted elsewhere and not held here. -/
def placement (item : ReplicaHubItem) (collection : ReplicaCollectionId) (link : ReplicaLinkId)
    (source : ReplicaSourceId) : Option ReplicaPlacement :=
  match item.deleted, item.sources[source]? with
  | true, some binding => some (item.tombstonePlacement collection link binding)
  | true, none => none
  | false, some binding => some (item.boundPlacement collection link binding)
  | false, none => item.createdPlacement collection link

/-- The item an upsert first creates. -/
def ofPlacement (p : ReplicaPlacement) : ReplicaHubItem where
  flags := p.flags
  object := p.object
  metadata := p.metadata
  sortKey := p.sortKey
  level := p.level
  deleted := false
  conflicted := false
  conflictObject := none
  sources := ∅

/-- The binding an upsert leaves for its source. -/
def bindingOf (p : ReplicaPlacement) (sharedObject : Option ReplicaHash) :
    ReplicaSourceBinding where
  handle := p.handle
  base := p.base
  conflicted := decide (p.status = .conflict)
  conflictRevision := if p.status = .conflict then p.conflictRevision else none
  conflictObject := if p.status = .conflict then p.conflictObject else none
  sharedObject := sharedObject

/-- The body a source last synced with its own remote. -/
def syncedObject (item : ReplicaHubItem) (source : ReplicaSourceId) : Option ReplicaHash :=
  (item.sources[source]?.bind (·.base)).bind (·.object)

/-- The shared body a source last reconciled against, its sync base standing in for it. -/
def agreedObject (item : ReplicaHubItem) (source : ReplicaSourceId) : Option ReplicaHash :=
  (item.sources[source]?.bind (·.sharedObject)).or (item.syncedObject source)

/-- A source leaving its conflict has spoken, whatever body it carries. -/
def resolving (item : ReplicaHubItem) (source : ReplicaSourceId) (p : ReplicaPlacement) : Bool :=
  item.sources[source]?.any (·.conflicted) && decide (p.status ≠ .conflict)

/-- Reconciles the shared body against an incoming upsert, each axis against its own base. -/
def reconcileContent (policy : ReplicaHubConflict) (item : ReplicaHubItem)
    (source : ReplicaSourceId) (p : ReplicaPlacement) : ReplicaHubItem :=
  let sourceEdited := decide (p.object ≠ item.syncedObject source) || item.resolving source p
  let hubMoved := decide (item.object ≠ item.agreedObject source)
  let bodyChanged := decide (p.object ≠ item.object)
  let diverged := sourceEdited && hubMoved && bodyChanged && p.object.isSome && item.object.isSome
  if diverged then
    match policy with
    | .manual => { item with conflicted := true, conflictObject := p.object }
    | .preferIncoming =>
      { item with object := p.object, conflicted := false, conflictObject := none }
    | .preferExisting => { item with conflicted := false, conflictObject := none }
  else if sourceEdited && !hubMoved && bodyChanged then
    { item with object := p.object, conflicted := false, conflictObject := none }
  else item

/-- The shared content a live upsert refreshes, whatever its body: an unknown value erases no known
one. -/
def refresh (item : ReplicaHubItem) (p : ReplicaPlacement) : ReplicaHubItem :=
  { item with
    deleted := false
    flags := if p.flags.isUnknown then item.flags else p.flags
    metadata := p.metadata.or item.metadata
    sortKey := if p.sortKey.isUnknown then item.sortKey else p.sortKey
    level := max item.level p.level }

/-- Binds a source to the item. -/
def bind (item : ReplicaHubItem) (source : ReplicaSourceId) (binding : ReplicaSourceBinding) :
    ReplicaHubItem :=
  { item with sources := item.sources.insert source binding }

/-- Folds one upsert of a source into the item. -/
def absorb (policy : ReplicaHubConflict) (source : ReplicaSourceId) (p : ReplicaPlacement)
    (item : ReplicaHubItem) : ReplicaHubItem :=
  if p.status = .tombstone then
    -- a staged delete adopts no content and moves no agreement
    { item with deleted := true }.bind source
      (bindingOf p (item.sources[source]?.bind (·.sharedObject)))
  else
    let item := reconcileContent policy (item.refresh p) source p
    let item := { item with level := item.storedLevel }
    item.bind source (bindingOf p item.object)

/-- Drops a source's binding of the item, if it stands under `handle`. Only a genuine delete
propagates. -/
def dropBinding (source : ReplicaSourceId) (handle : ReplicaHandle) (reason : ReplicaDropReason)
    (item : ReplicaHubItem) : ReplicaHubItem :=
  if item.sources[source]?.any (fun b => decide (b.handle = handle)) then
    { item with
      deleted := item.deleted || decide (reason = .deleted)
      sources := item.sources.erase source }
  else item

end ReplicaHubItem

namespace ReplicaHub

def empty (conflict : ReplicaHubConflict) : ReplicaHub := ⟨∅, conflict⟩

/-- The placements a source's load returns. -/
def project (hub : ReplicaHub) (collection : ReplicaCollectionId) (source : ReplicaSourceId) :
    List ReplicaPlacement :=
  hub.items.toList.filterMap (fun e => e.2.placement collection e.1 source)

def absorbUpsert (hub : ReplicaHub) (source : ReplicaSourceId) (p : ReplicaPlacement) :
    ReplicaHub :=
  match p.linkId with
  | none => hub
  | some link =>
    let item := hub.items[link]?.getD (.ofPlacement p)
    { hub with items := hub.items.insert link (item.absorb hub.conflict source p) }

def absorbDrop (hub : ReplicaHub) (source : ReplicaSourceId) (handle : ReplicaHandle)
    (reason : ReplicaDropReason) : ReplicaHub :=
  { hub with items := hub.items.map (fun _ item => item.dropBinding source handle reason) }

def absorbOp (hub : ReplicaHub) (source : ReplicaSourceId) : ReplicaWriteOp → ReplicaHub
  | .upsertPlacement p => hub.absorbUpsert source p
  | .dropPlacement _ handle reason => hub.absorbDrop source handle reason
  | .storeObject .. => hub
  | .setCheckpoint .. => hub

/-- Folds a source's writes back, then prunes the items no source holds. -/
def absorb (hub : ReplicaHub) (source : ReplicaSourceId) (ops : List ReplicaWriteOp) :
    ReplicaHub :=
  let hub := ops.foldl (fun hub op => hub.absorbOp source op) hub
  { hub with items := hub.items.filter (fun _ item => !item.sources.isEmpty) }

end ReplicaHub
end IoReplica

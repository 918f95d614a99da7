import IoReplica.Store

/-! The mutate coroutine: one local edit staged offline, for the next sync to push. -/
namespace IoReplica

/-- A local edit applied offline. -/
inductive ReplicaMutation
  | setFlags (handle : ReplicaHandle) (flags : ReplicaFlags)
  | remove (handle : ReplicaHandle)
  | edit (handle : ReplicaHandle) (object : ReplicaObject) (body : List UInt8)
      (metadata : Option ReplicaMeta) (sortKey : Option ReplicaSortKey)
  | copy (handle : ReplicaHandle) (target : ReplicaCollectionId) (placeholder : ReplicaHandle)
  | move (handle : ReplicaHandle) (target : ReplicaCollectionId) (placeholder : ReplicaHandle)
  | add (handle : ReplicaHandle) (linkId : ReplicaLinkId) (flags : ReplicaFlags)
      (object : ReplicaObject) (body : List UInt8) (metadata : Option ReplicaMeta)
      (sortKey : ReplicaSortKey)
  deriving DecidableEq

namespace ReplicaMutation

/-- The source handle the mutation reads: none for an add. -/
def handle : ReplicaMutation → Option ReplicaHandle
  | .setFlags handle _ => some handle
  | .remove handle => some handle
  | .edit handle .. => some handle
  | .copy handle .. => some handle
  | .move handle .. => some handle
  | .add .. => none

/-- What the mutation has to read. -/
def scope : ReplicaMutation → ReplicaLoadScope
  | .add _ linkId .. => .links [linkId]
  | other =>
    match other.handle with
    | some handle => .handles [handle]
    | none => .all

end ReplicaMutation

inductive ReplicaMutateError
  | unknownHandle (handle : String)
  | linkExists (linkId : String)
  | arg (error : ReplicaArgError)
  deriving DecidableEq

inductive MutateState
  | start | pendingLoad | pendingWrite | done
  deriving DecidableEq

structure ReplicaMutate where
  collection : ReplicaCollectionId
  mutation : ReplicaMutation
  state : MutateState
  deriving DecidableEq

namespace ReplicaMutate

def new (collection : ReplicaCollectionId) (mutation : ReplicaMutation) : ReplicaMutate :=
  ⟨collection, mutation, .start⟩

/-- The pending create a copy or a move stages in its target. -/
def stagedCopy (source : ReplicaPlacement) (target : ReplicaCollectionId)
    (placeholder : ReplicaHandle) : ReplicaPlacement where
  collection := target
  handle := placeholder
  linkId := source.linkId
  object := source.object
  level := source.level
  metadata := source.metadata
  sortKey := source.sortKey
  flags := source.flags
  status := .created
  conflictRevision := none
  conflictObject := none
  base := none
  origin := some ⟨source.collection, source.handle⟩

/-- The pending create an add stages. -/
def created (collection : ReplicaCollectionId) (handle : ReplicaHandle) (linkId : ReplicaLinkId)
    (flags : ReplicaFlags) (object : ReplicaObject) (metadata : Option ReplicaMeta)
    (sortKey : ReplicaSortKey) : ReplicaPlacement where
  collection := collection
  handle := handle
  linkId := some linkId
  object := some object.hash
  level := .full
  metadata := metadata
  sortKey := sortKey
  flags := flags
  status := .created
  conflictRevision := none
  conflictObject := none
  base := none
  origin := none

def createWrites (self : ReplicaMutate) : List ReplicaWriteOp :=
  match self.mutation with
  | .add handle linkId flags object body metadata sortKey =>
    [.storeObject object (some body),
      .upsertPlacement (created self.collection handle linkId flags object metadata sortKey)]
  | _ => []

/-- The row a flag change leaves: only a clean row turns dirty. -/
def flagged (source : ReplicaPlacement) (flags : ReplicaFlags) : ReplicaPlacement :=
  { source with
    flags := flags
    status := if source.status = .clean then .dirty else source.status }

def removed (source : ReplicaPlacement) : ReplicaPlacement := { source with status := .tombstone }

/-- The source half of a move: a tombstone carrying its destination. -/
def movedAway (source : ReplicaPlacement) (target : ReplicaCollectionId) : ReplicaPlacement :=
  { source with status := .tombstone, origin := some ⟨target, source.handle⟩ }

/-- Editing a conflict rebases it onto the remote state it was merged against. -/
def resolved (source : ReplicaPlacement) : ReplicaPlacement :=
  let base := source.base.getD ⟨source.flags, none, none⟩
  { source with
    conflictRevision := none
    conflictObject := none
    base := some { base with
      revision := source.conflictRevision
      object := source.conflictObject } }

/-- The row an edit leaves. -/
def edited (source : ReplicaPlacement) (object : ReplicaHash) (metadata : Option ReplicaMeta)
    (sortKey : Option ReplicaSortKey) : ReplicaPlacement :=
  let resolving := decide (source.status = .conflict)
  let written :=
    { source with
      object := some object
      level := .full
      metadata := metadata.or source.metadata
      sortKey := sortKey.getD source.sortKey }
  let written := if resolving then resolved written else written
  -- an edit restating the synced body stages nothing
  let staged := written.base.all (fun base => decide (base.object ≠ some object))
  if written.status ≠ .created ∧ (staged || resolving) then { written with status := .dirty }
  else written

/-- The writes a mutation stages, given its source. -/
def writes (self : ReplicaMutate) (source : ReplicaPlacement) : List ReplicaWriteOp :=
  match self.mutation with
  | .setFlags _ flags => [.upsertPlacement (flagged source flags)]
  | .remove _ => [.upsertPlacement (removed source)]
  | .edit _ object body metadata sortKey =>
    [.storeObject object (some body),
      .upsertPlacement (edited source object.hash metadata sortKey)]
  | .copy _ target placeholder => [.upsertPlacement (stagedCopy source target placeholder)]
  | .move _ target placeholder =>
    -- an unlinked item has no key to recognise the second half by, so no create is staged
    (if source.linkId.isSome then
      [ReplicaWriteOp.upsertPlacement (stagedCopy source target placeholder)] else []) ++
      [.upsertPlacement (movedAway source target)]
  | .add .. => self.createWrites

abbrev Step := ReplicaCoroutineState ReplicaYield (Except ReplicaMutateError Unit)

/-- Does a live row already hold the link id? -/
def collides (linkId : ReplicaLinkId) (placements : List ReplicaPlacement) : Bool :=
  placements.any (fun p => decide (p.status ≠ .tombstone) && decide (p.linkId = some linkId))

def resume (self : ReplicaMutate) (arg : Option ReplicaArg) : ReplicaMutate × Step :=
  match self.state, arg with
  | .start, none =>
    ({ self with state := .pendingLoad },
      .yielded (.wantsLoad self.collection self.mutation.scope))
  | .pendingLoad, some (.load loaded) =>
    match self.mutation.handle with
    | none =>
      match self.mutation with
      | .add _ linkId .. =>
        if collides linkId loaded.placements then
          (self, .complete (.error (.linkExists linkId.asStr)))
        else ({ self with state := .pendingWrite }, .yielded (.wantsWrite self.createWrites))
      | _ => (self, .complete (.error (.arg .missingArg)))
    | some handle =>
      match loaded.placements.find? (fun p => p.handle = handle) with
      | none => (self, .complete (.error (.unknownHandle handle.asStr)))
      | some placement =>
        ({ self with state := .pendingWrite }, .yielded (.wantsWrite (self.writes placement)))
  | .pendingWrite, some .write => ({ self with state := .done }, .complete (.ok ()))
  | _, some _ => (self, .complete (.error (.arg .unexpectedArg)))
  | _, none => (self, .complete (.error (.arg .missingArg)))

end ReplicaMutate
end IoReplica

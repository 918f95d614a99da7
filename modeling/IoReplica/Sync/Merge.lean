import IoReplica.Sync.State

/-! The three-way merge of one candidate, as the sync coroutine computes it. -/
namespace IoReplica
namespace ReplicaSync

/-- Whether the flag axis may derive a push of its own: one handle yields at most one change. -/
inductive PushFlags
  | derive | withhold
  deriving DecidableEq

/-- What the content axis decided for a placement present on both sides. -/
inductive ContentOutcome
  | untouched
  | rewritten (placement : ReplicaPlacement)
  | push (change : ReplicaChangeKind)

def drop (self : ReplicaSync) (handle : ReplicaHandle) (reason : ReplicaDropReason) : ReplicaSync :=
  self.write (.dropPlacement self.collection handle reason)

/-- The row a brand-new remote member is pulled as. -/
def pulledPlacement (collection : ReplicaCollectionId) (item : ReplicaRemoteItem) :
    ReplicaPlacement where
  collection := collection
  handle := item.handle
  linkId := none
  object := none
  level := .probed
  metadata := none
  sortKey := .unknown
  flags := item.flags
  status := .clean
  conflictRevision := none
  conflictObject := none
  base := some ⟨item.flags, item.revision, none⟩
  origin := none

def pullAdd (self : ReplicaSync) (item : ReplicaRemoteItem) : ReplicaSync :=
  self.upsert (pulledPlacement self.collection item)

/-- A remote content change: the stale body is dropped and the base adopts the new revision. -/
def refreshedPlacement (loc : ReplicaPlacement) (item : ReplicaRemoteItem) : ReplicaPlacement :=
  { loc with
    object := none
    level := .probed
    base := loc.base.map (fun b => { b with revision := item.revision, object := none }) }

def pullContent (self : ReplicaSync) (loc : ReplicaPlacement) (item : ReplicaRemoteItem) :
    ReplicaSync × ReplicaPlacement :=
  let updated := refreshedPlacement loc item
  (((self.upsert updated).countRefreshed).emit (.contentChanged loc.handle), updated)

/-- The status a converged flag axis leaves: an unresolved conflict keeps its own. -/
def settledStatus (loc : ReplicaPlacement) : ReplicaStatus :=
  if loc.status ≠ .conflict then .clean else loc.status

/-- The base with its flag axis moved onto `flags`. -/
def flagBase (loc : ReplicaPlacement) (flags : ReplicaFlags) : Option ReplicaBase :=
  some ⟨flags, loc.baseRevision, loc.baseObject⟩

/-- Adopts `flags` as both the current and the base flag set. -/
def pullFlags (self : ReplicaSync) (loc : ReplicaPlacement) (flags : ReplicaFlags) : ReplicaSync :=
  self.upsert { loc with flags := flags, status := settledStatus loc, base := flagBase loc flags }

/-- Rebases the flag axis onto `flags`, keeping the current flag set. -/
def rebase (self : ReplicaSync) (loc : ReplicaPlacement) (flags : ReplicaFlags) : ReplicaSync :=
  self.upsert { loc with status := settledStatus loc, base := flagBase loc flags }

/-- The row an accepted content push leaves: the base pins the pushed body and the reported
revision, and keeps its flags so a flag edit that rode along stays derivable. -/
def contentRebased (loc : ReplicaPlacement) (revision : Option String) : ReplicaPlacement :=
  let baseFlags := loc.baseFlags.getD .empty
  { loc with
    status :=
      if loc.status = .tombstone then .tombstone
      else if loc.flags = baseFlags then .clean else .dirty
    base := some ⟨baseFlags, revision, loc.object⟩ }

def rebaseContent (self : ReplicaSync) (loc : ReplicaPlacement) (revision : Option String) :
    ReplicaSync :=
  self.upsert (contentRebased loc revision)

/-- The row an accepted create leaves under its server-assigned handle. -/
def rekeyedPlacement (placeholder : ReplicaPlacement) (handle : ReplicaHandle)
    (revision : Option String) : ReplicaPlacement :=
  { placeholder with
    handle := handle
    status := .clean
    origin := none
    base := some ⟨placeholder.flags, revision, placeholder.object⟩ }

def rekeyCreate (self : ReplicaSync) (placeholder : ReplicaPlacement) (handle : ReplicaHandle)
    (revision : Option String) : ReplicaSync :=
  (self.drop placeholder.handle .superseded).upsert (rekeyedPlacement placeholder handle revision)

/-- Settles a local delete this source will not take. Derives nothing either way. -/
def refuseDelete (self : ReplicaSync) (loc : ReplicaPlacement) :
    ReplicaSync × Option ReplicaChangeKind :=
  match self.opts.delete with
  | .revert => (self.upsert { loc with status := .clean }, none)
  | .keep => (self, none)

/-- The row a fresh conflict mark leaves: the diverging body is wanted, not taken. -/
def conflictedPlacement (loc : ReplicaPlacement) (item : ReplicaRemoteItem) : ReplicaPlacement :=
  { loc with status := .conflict, conflictRevision := item.revision, conflictObject := none }

def markConflict (self : ReplicaSync) (loc : ReplicaPlacement) (item : ReplicaRemoteItem) :
    ReplicaSync × ContentOutcome :=
  let conflicted := conflictedPlacement loc item
  (((self.upsert conflicted).countConflict).emit (.conflicted loc.handle), .rewritten conflicted)

def keepBothHandle (handle : ReplicaHandle) (object : ReplicaHash) : ReplicaHandle :=
  ⟨handle.asStr ++ "\x01" ++ object.asStr⟩

def keepBothLink (object : ReplicaHash) : ReplicaLinkId :=
  ⟨"keepboth\x01" ++ object.asStr⟩

/-- The fresh member a keep-both resolution forks the local body into. -/
def forkedPlacement (collection : ReplicaCollectionId) (loc : ReplicaPlacement)
    (object : ReplicaHash) : ReplicaPlacement where
  collection := collection
  handle := keepBothHandle loc.handle object
  linkId := some (keepBothLink object)
  object := some object
  level := .full
  metadata := loc.metadata
  sortKey := loc.sortKey
  flags := loc.flags
  status := .created
  conflictRevision := none
  conflictObject := none
  base := none
  origin := none

def stageConflictDup (self : ReplicaSync) (loc : ReplicaPlacement) : ReplicaSync :=
  match loc.object with
  | some object => self.upsert (forkedPlacement self.collection loc object)
  | none => self.panic

/-- Stashes the placement and derives the content push, gated on `ifMatch`. -/
def pushContent (self : ReplicaSync) (loc : ReplicaPlacement) (ifMatch : Option String) :
    ReplicaSync × ContentOutcome :=
  let stashed := self.stashContent loc.handle loc
  match loc.object with
  | some object => (stashed, .push (.update loc.handle object ifMatch))
  | none => (stashed.panic, .untouched)

/-- Resolves a content conflict of a based placement by policy. -/
def resolveConflict (self : ReplicaSync) (loc : ReplicaPlacement) (item : ReplicaRemoteItem) :
    ReplicaSync × ContentOutcome :=
  match self.opts.conflict with
  | .manual => self.markConflict loc item
  | .preferRemote =>
    let (self, updated) := self.pullContent loc item
    (self, .rewritten updated)
  | .preferLocal =>
    -- the precondition is the observed remote revision, the stale base would be rejected
    if !self.opts.mayContent then self.markConflict loc item
    else self.pushContent loc item.revision
  | .keepBoth =>
    let (self, updated) := (self.stageConflictDup loc).pullContent loc item
    (self, .rewritten updated)

/-- Did the remote report a content revision differing from `known`? -/
def movedFrom (item : ReplicaRemoteItem) (known : Option String) : Bool :=
  item.revision.isSome && decide (item.revision ≠ known)

/-- Does a dirty placement point at a body its base does not hold? -/
def localChanged (loc : ReplicaPlacement) (base : ReplicaBase) : Bool :=
  decide (loc.status = .dirty) && loc.object.isSome && decide (loc.object ≠ base.object)

/-- Reconciles the content of a placement present on both sides. -/
def reconcileContent (self : ReplicaSync) (loc : ReplicaPlacement) (item : ReplicaRemoteItem) :
    ReplicaSync × ContentOutcome :=
  match loc.base with
  | none =>
    -- a base-less body the remote also holds is a create-collision
    if loc.object.isSome && item.revision.isSome then self.markConflict loc item
    else (self, .untouched)
  | some base =>
    if loc.status = .conflict then
      if movedFrom item loc.conflictRevision then
        let updated := { loc with conflictRevision := item.revision, conflictObject := none }
        (self.upsert updated, .rewritten updated)
      else (self, .untouched)
    else
      match localChanged loc base, movedFrom item base.revision with
      | false, false => (self, .untouched)
      | false, true =>
        let (self, updated) := self.pullContent loc item
        (self, .rewritten updated)
      | true, false =>
        if !self.opts.mayContent then (self, .untouched)
        else self.pushContent loc base.revision
      | true, true => self.resolveConflict loc item

/-- The staged content edit the flag axis looks for before cleaning a row. -/
def contentEdit (loc : ReplicaPlacement) : Bool :=
  loc.object.isSome && loc.base.any (fun b => decide (b.object ≠ loc.object))

/-- Reconciles the flag sets of a placement present on both sides. -/
def reconcileFlags (self : ReplicaSync) (loc : ReplicaPlacement) (remote : ReplicaRemoteItem)
    (allow : PushFlags) : ReplicaSync × Option ReplicaChangeKind :=
  match loc.baseFlags with
  | none =>
    -- never based but present on both, converge on remote
    (((self.pullFlags loc remote.flags).countPulled).emit (.flagsChanged loc.handle), none)
  | some baseFlags =>
    let merged := ReplicaFlags.merge baseFlags loc.flags remote.flags
    let pull := decide (merged ≠ loc.flags)
    let push := decide (merged ≠ remote.flags)
    match pull, push with
    | false, false =>
      if loc.flags ≠ baseFlags ∨ (loc.status = .dirty ∧ contentEdit loc = false) then
        (self.rebase loc merged, none)
      else (self, none)
    | true, false =>
      (((self.pullFlags loc merged).countPulled).emit (.flagsChanged loc.handle), none)
    | pull, true =>
      let updated := { loc with flags := merged }
      let self :=
        if pull then ((self.upsert updated).countPulled).emit (.flagsChanged loc.handle) else self
      if allow = .withhold ∨ self.opts.mayFlags = false then (self, none)
      else
        -- the rebase waits for the remote to confirm the push
        (self.stashFlags loc.handle updated, some (.setFlags loc.handle merged))

/-- Local delete or move of a member both sides knew. -/
def mergeTombstone (self : ReplicaSync) (handle : ReplicaHandle) (loc : ReplicaPlacement)
    (item : ReplicaRemoteItem) : ReplicaSync × Option ReplicaChangeKind :=
  let baseRevision := loc.baseRevision
  if movedFrom item baseRevision then
    -- the remote edited what was deleted locally, and the update wins
    (((self.pullAdd item).countPulled).emit (.added handle), none)
  else if loc.stagedEdit.isSome && loc.origin.isSome then
    -- a staged content edit rides ahead of a move
    if !self.opts.mayContent then self.refuseDelete loc
    else
      let self := self.stashContent handle loc
      match loc.object with
      | some object => (self, some (.update handle object baseRevision))
      | none => (self.panic, none)
  else if !self.opts.mayRemove then self.refuseDelete loc
  else
    -- the drop waits for the remote to confirm it
    (self.stashDrop handle,
      some (.remove handle (loc.origin.map (·.collection)) loc.linkId baseRevision))

/-- Does the row hold a local edit a remote delete must not destroy? -/
def editedAgainstDelete (loc : ReplicaPlacement) : Bool :=
  decide (loc.status = .dirty ∨ loc.status = .conflict) && loc.object.isSome &&
    loc.base.any (fun b => decide (loc.object ≠ b.object))

/-- The pending create an edit survives as once its base is gone. -/
def resurrectedPlacement (loc : ReplicaPlacement) : ReplicaPlacement :=
  { loc with
    status := .created
    conflictRevision := none
    conflictObject := none
    base := none
    origin := none }

/-- Stashes a pending create and derives its add. -/
def pushAdd (self : ReplicaSync) (handle : ReplicaHandle) (create : ReplicaPlacement) :
    ReplicaSync × Option ReplicaChangeKind :=
  (self.stashCreate handle create,
    some (.add handle create.linkId create.flags create.origin create.object))

/-- Remote delete of a member that was in sync. -/
def mergeVanished (self : ReplicaSync) (handle : ReplicaHandle) (loc : ReplicaPlacement) :
    ReplicaSync × Option ReplicaChangeKind :=
  if editedAgainstDelete loc then
    let resurrected := resurrectedPlacement loc
    let self := self.upsert resurrected
    if !self.opts.mayAdd then (self, none) else self.pushAdd handle resurrected
  else (((self.drop handle .deleted).countPulled).emit (.vanished handle), none)

/-- Present on both sides: content then flags, every run. -/
def mergePresent (self : ReplicaSync) (loc : ReplicaPlacement) (item : ReplicaRemoteItem) :
    ReplicaSync × Option ReplicaChangeKind :=
  match self.reconcileContent loc item with
  | (self, .push change) => ((self.reconcileFlags loc item .withhold).1, some change)
  | (self, .rewritten rewritten) => self.reconcileFlags rewritten item .derive
  | (self, .untouched) => self.reconcileFlags loc item .derive

/-- Local create: no base and not upstream. -/
def mergeCreate (self : ReplicaSync) (handle : ReplicaHandle) (loc : ReplicaPlacement) :
    ReplicaSync × Option ReplicaChangeKind :=
  if self.opts.mayAdd && decide (loc.status = .created) then self.pushAdd handle loc
  else (self, none)

/-- Remote add, brand new upstream. -/
def mergeAdded (self : ReplicaSync) (handle : ReplicaHandle) (item : ReplicaRemoteItem) :
    ReplicaSync × Option ReplicaChangeKind :=
  (((self.pullAdd item).countPulled).emit (.added handle), none)

/-- Three-way merges one candidate, returning a push when the local side won. -/
def merge (self : ReplicaSync) (candidate : Candidate) : ReplicaSync × Option ReplicaChangeKind :=
  let handle := candidate.handle
  let based := candidate.loc.any (·.base.isSome)
  let localTombstone := candidate.loc.any (fun p => decide (p.status = .tombstone))
  let localPresent := candidate.loc.isSome && !localTombstone
  match localPresent, based, candidate.remote.isSome with
  | false, true, true =>
    if localTombstone then
      match candidate.loc, candidate.remote with
      | some loc, some item => self.mergeTombstone handle loc item
      | _, _ => (self.panic, none)
    else (self, none)
  | false, _, false =>
    if localTombstone then (self.drop handle .deleted, none) else (self, none)
  | true, true, false =>
    match candidate.loc with
    | some loc => self.mergeVanished handle loc
    | none => (self.panic, none)
  | false, false, true =>
    match candidate.remote with
    | some item => self.mergeAdded handle item
    | none => (self.panic, none)
  | true, _, true =>
    match candidate.loc, candidate.remote with
    | some loc, some item => self.mergePresent loc item
    | _, _ => (self.panic, none)
  | true, false, false =>
    match candidate.loc with
    | some loc => self.mergeCreate handle loc
    | none => (self.panic, none)

@[simp] theorem merge_absent (self : ReplicaSync) (h : ReplicaHandle) :
    self.merge ⟨h, none, none⟩ = (self, none) := rfl

@[simp] theorem merge_added (self : ReplicaSync) (h : ReplicaHandle) (item : ReplicaRemoteItem) :
    self.merge ⟨h, none, some item⟩ = self.mergeAdded h item := rfl

theorem merge_live (self : ReplicaSync) (h : ReplicaHandle) {p : ReplicaPlacement}
    (hp : p.status ≠ .tombstone) (remote : Option ReplicaRemoteItem) :
    self.merge ⟨h, some p, remote⟩ =
      match remote with
      | some item => self.mergePresent p item
      | none => if p.base.isSome then self.mergeVanished h p else self.mergeCreate h p := by
  cases remote <;> cases hb : p.base <;> simp [merge, hp, hb]

theorem merge_tombstone (self : ReplicaSync) (h : ReplicaHandle) {p : ReplicaPlacement}
    (hp : p.status = .tombstone) (remote : Option ReplicaRemoteItem) :
    self.merge ⟨h, some p, remote⟩ =
      match remote with
      | some item => if p.base.isSome then self.mergeTombstone h p item else self.mergeAdded h item
      | none => (self.drop h .deleted, none) := by
  cases remote <;> cases hb : p.base <;> simp [merge, hp, hb]

end ReplicaSync
end IoReplica

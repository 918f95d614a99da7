import IoReplica.Sync.Merge
import Mathlib.Data.List.Destutter
import Mathlib.Data.List.Sort

/-! The sync coroutine: the handle join, the delta rule, the chunk bounds and the state machine. -/
namespace IoReplica

namespace Join

/-- Handles left on either side: bounds the candidates still to come. -/
def size (j : Join) : ℕ := j.loc.length + j.remote.length

def next : Join → Option (Candidate × Join)
  | ⟨[], []⟩ => none
  | ⟨(handle, loc) :: rest, []⟩ => some (⟨handle, some loc, none⟩, ⟨rest, []⟩)
  | ⟨[], item :: rest⟩ => some (⟨item.handle, none, some item⟩, ⟨[], rest⟩)
  | ⟨(handle, loc) :: locs, item :: items⟩ =>
    match compare handle item.handle with
    | .lt => some (⟨handle, some loc, none⟩, ⟨locs, item :: items⟩)
    | .gt => some (⟨item.handle, none, some item⟩, ⟨(handle, loc) :: locs, items⟩)
    | .eq => some (⟨handle, some loc, some item⟩, ⟨locs, items⟩)

end Join

namespace Merge

/-- The best-known remote state of a placement a delta never mentioned. -/
def standIn (handle : ReplicaHandle) (loc : ReplicaPlacement) : Option ReplicaRemoteItem :=
  loc.base.map (fun base => ⟨handle, base.flags, loc.conflictRevision.or base.revision⟩)

/-- Narrows a joined handle to what a delta snapshot makes a candidate. -/
def narrow (m : Merge) (candidate : Candidate) : Option Candidate :=
  if candidate.handle ∈ m.vanished then some { candidate with remote := none }
  else if candidate.remote.isSome then some candidate
  else
    match candidate.loc with
    | none => none
    | some loc =>
      if loc.status = .clean then none
      else some { candidate with remote := standIn candidate.handle loc }

/-- What the delta rule makes of a joined handle. -/
def select (m : Merge) (candidate : Candidate) : Option Candidate :=
  if m.complete then some candidate else m.narrow candidate

/-- Walks the join to its next candidate, within `fuel` handles. -/
def seek : ℕ → Merge → Option (Candidate × Merge)
  | 0, _ => none
  | fuel + 1, m =>
    match m.join.next with
    | none => none
    | some (joined, join) =>
      let m := { m with join := join }
      match m.select joined with
      | some candidate => some (candidate, m)
      | none => seek fuel m

def nextCandidate (m : Merge) : Option (Candidate × Merge) := m.seek m.join.size

end Merge

namespace ReplicaSync

abbrev Step := ReplicaCoroutineState ReplicaYield (Except ReplicaArgError ReplicaSyncReport)

/-- Takes the writes accumulated so far, ended with the checkpoint once every chunk is serviced. -/
def batch (self : ReplicaSync) : ReplicaSync × List ReplicaWriteOp :=
  let writes := self.writes
  let self := { self with writes := [] }
  if self.pushes.isEmpty then
    match self.nextCheckpoint with
    | some checkpoint =>
      ({ self with nextCheckpoint := none }, writes ++ [.setCheckpoint self.collection checkpoint])
    | none => (self, writes)
  else (self, writes)

/-- Yields the next chunk of pushes, or the write recording the last one. -/
def step (self : ReplicaSync) : ReplicaSync × Step :=
  if self.pushes.isEmpty then
    let (self, ops) := { self with state := .pendingWrite }.batch
    (self, .yielded (.wantsWrite ops))
  else
    let changes := self.pushes.take PUSH_CHUNK
    ({ self with
        pushes := self.pushes.drop PUSH_CHUNK
        inFlight := changes.map (·.handle)
        state := .pendingPush },
      .yielded (.wantsPush self.collection changes))

/-- An unordered enumeration is sorted, and a handle listed twice collapses to its first item. -/
def orderItems (items : List ReplicaRemoteItem) : List ReplicaRemoteItem :=
  let sorted := if items.Pairwise (fun a b => a.handle ≤ b.handle) then items
    else items.insertionSort (fun a b => a.handle ≤ b.handle)
  sorted.destutter (fun a b => a.handle ≠ b.handle)

/-- Opens the merge over what the enumerate reported. -/
def openMerge (self : ReplicaSync) (snapshot : ReplicaRemoteSnapshot) : ReplicaSync :=
  { self with
    loc := ∅
    merging := some
      { join := ⟨self.loc.toList, orderItems snapshot.items⟩
        vanished := snapshot.vanished.toFinset
        complete := snapshot.complete
        checkpoint := snapshot.checkpoint } }

/-- Merges one candidate and queues the change it derived. -/
def mergeCandidate (self : ReplicaSync) (candidate : Candidate) : ReplicaSync :=
  match self.merge candidate with
  | (self, some kind) =>
    { self with pushes := self.pushes ++ [ReplicaChange.new self.collection kind] }
  | (self, none) => self

/-- The join ran out: the merge closes and the run moves on to its pushes. -/
def closeMerge (self : ReplicaSync) : ReplicaSync × Step :=
  match self.merging with
  | some merge => { self with merging := none, nextCheckpoint := some merge.checkpoint }.step
  | none => self.panic.step

/-- Merges candidates until the write batch is full or the join runs out, within `fuel` handles. -/
def mergeLoop : ℕ → ReplicaSync → ReplicaSync × Step
  | 0, self => self.closeMerge
  | fuel + 1, self =>
    match self.merging.bind Merge.nextCandidate with
    | none => self.closeMerge
    | some (candidate, merge) =>
      let self := { self with merging := some merge }.mergeCandidate candidate
      if WRITE_CHUNK ≤ self.writes.length then
        let (self, ops) := { self with state := .merging }.batch
        (self, .yielded (.wantsWrite ops))
      else mergeLoop fuel self

def mergeStep (self : ReplicaSync) : ReplicaSync × Step :=
  self.mergeLoop (self.merging.elim 0 (·.join.size))

/-- An accepted flag push rebases onto the flags it carried. -/
def settleFlags (self : ReplicaSync) (handle : ReplicaHandle) : ReplicaSync × Bool :=
  match self.pendingFlagPushes[handle]? with
  | some placement =>
    let self := { self with pendingFlagPushes := self.pendingFlagPushes.erase handle }
    ((self.rebase placement placement.flags).emit (.flagsChanged handle), true)
  | none => (self, false)

def settleContent (self : ReplicaSync) (result : ReplicaPushResult) : ReplicaSync × Bool :=
  match self.pendingContentPushes[result.handle]? with
  | some placement =>
    let self := { self with pendingContentPushes := self.pendingContentPushes.erase result.handle }
    ((self.rebaseContent placement result.revision).emit (.contentChanged result.handle), true)
  | none => (self, false)

def settleDrop (self : ReplicaSync) (handle : ReplicaHandle) : ReplicaSync × Bool :=
  if handle ∈ self.pendingDrops then
    let self := { self with pendingDrops := self.pendingDrops.erase handle }
    ((self.drop handle .deleted).emit (.vanished handle), true)
  else (self, false)

def settleCreate (self : ReplicaSync) (result : ReplicaPushResult) : ReplicaSync × Bool :=
  match self.pendingCreates[result.handle]? with
  | some placeholder =>
    let self := { self with pendingCreates := self.pendingCreates.erase result.handle }
    let self := match result.assigned with
      | some assigned => self.rekeyCreate placeholder assigned result.revision
      | none => self.drop placeholder.handle .superseded
    (self.emit (.created (result.assigned.getD result.handle)), true)
  | none => (self, false)

/-- Records one push result. A rejected one leaves the row pending. -/
def settle (self : ReplicaSync) (result : ReplicaPushResult) : ReplicaSync :=
  match result.outcome with
  | .accepted =>
    let (self, flags) := self.settleFlags result.handle
    let (self, content) := self.settleContent result
    let (self, dropped) := self.settleDrop result.handle
    let (self, created) := self.settleCreate result
    self.countPushed (if flags || content || dropped || created then 1 else 0)
  | .rejected => self.countRejected

/-- Forgets the pending push of a handle. -/
def forget (self : ReplicaSync) (handle : ReplicaHandle) : ReplicaSync :=
  { self with
    pendingFlagPushes := self.pendingFlagPushes.erase handle
    pendingContentPushes := self.pendingContentPushes.erase handle
    pendingDrops := self.pendingDrops.erase handle
    pendingCreates := self.pendingCreates.erase handle }

/-- Records a chunk's results and forgets the handles it was in flight with. -/
def settleChunk (self : ReplicaSync) (results : List ReplicaPushResult) : ReplicaSync :=
  let self := results.foldl settle self
  { self.inFlight.foldl forget self with inFlight := [] }

def resume (self : ReplicaSync) (arg : Option ReplicaArg) : ReplicaSync × Step :=
  match self.state, arg with
  | .start, none =>
    ({ self with state := .pendingLoad }, .yielded (.wantsLoad self.collection .all))
  | .pendingLoad, some (.load loaded) =>
    let cursor := if self.opts.full then none else loaded.checkpoint
    ({ self with
        loc := collectPlacements loaded.placements
        checkpoint := cursor
        state := .pendingEnumerate },
      .yielded (.wantsEnumerate self.collection cursor))
  | .pendingEnumerate, some (.enumerate snapshot) => (self.openMerge snapshot).mergeStep
  | .merging, some .write => self.mergeStep
  | .pendingPush, some (.push results) =>
    let (self, ops) := { self.settleChunk results with state := .pendingWrite }.batch
    (self, .yielded (.wantsWrite ops))
  | .pendingWrite, some .write =>
    if self.pushes.isEmpty then
      ({ self with state := .done, report := .default }, .complete (.ok self.report))
    else self.step
  | _, some _ => (self, .complete (.error .unexpectedArg))
  | _, none => (self, .complete (.error .missingArg))

end ReplicaSync
end IoReplica

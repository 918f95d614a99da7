import IoReplica.Sync.Join

/-! The merge only appends: what it makes of a candidate never reads what the run queued before. -/
namespace IoReplica

/-- Two counters and their events, the second after the first. -/
def ReplicaSyncReport.extend (a b : ReplicaSyncReport) : ReplicaSyncReport :=
  ⟨a.pulled + b.pulled, a.pushed + b.pushed, a.conflicts + b.conflicts,
    a.rejected + b.rejected, a.refreshed + b.refreshed, a.events ++ b.events⟩

namespace ReplicaSync

/-- The run `self` went through, then everything `d` queued, under `d`'s tuning. -/
def extend (self d : ReplicaSync) : ReplicaSync :=
  { self with
    collection := d.collection
    opts := d.opts
    writes := self.writes ++ d.writes
    pushes := self.pushes ++ d.pushes
    pendingFlagPushes := self.pendingFlagPushes ∪ d.pendingFlagPushes
    pendingContentPushes := self.pendingContentPushes ∪ d.pendingContentPushes
    pendingDrops := self.pendingDrops ∪ d.pendingDrops
    pendingCreates := self.pendingCreates ∪ d.pendingCreates
    report := self.report.extend d.report
    panicked := self.panicked || d.panicked }

theorem extend_new (self : ReplicaSync) : self.extend (new self.collection self.opts) = self := by
  simp [extend, new, ReplicaSyncReport.extend, ReplicaSyncReport.default]

variable (self d : ReplicaSync)

@[simp] theorem extend_collection : (self.extend d).collection = d.collection := rfl

@[simp] theorem extend_opts : (self.extend d).opts = d.opts := rfl

@[simp] theorem extend_write (op : ReplicaWriteOp) :
    (self.extend d).write op = self.extend (d.write op) := by
  simp [extend, write]

@[simp] theorem extend_upsert (p : ReplicaPlacement) :
    (self.extend d).upsert p = self.extend (d.upsert p) := extend_write ..

@[simp] theorem extend_drop (h : ReplicaHandle) (r : ReplicaDropReason) :
    (self.extend d).drop h r = self.extend (d.drop h r) := extend_write ..

@[simp] theorem extend_emit (e : ReplicaEvent) :
    (self.extend d).emit e = self.extend (d.emit e) := by
  simp [extend, emit, ReplicaSyncReport.extend]

@[simp] theorem extend_countPulled : (self.extend d).countPulled = self.extend d.countPulled := by
  simp [extend, countPulled, ReplicaSyncReport.extend, Nat.add_assoc]

@[simp] theorem extend_countConflict :
    (self.extend d).countConflict = self.extend d.countConflict := by
  simp [extend, countConflict, ReplicaSyncReport.extend, Nat.add_assoc]

@[simp] theorem extend_countRefreshed :
    (self.extend d).countRefreshed = self.extend d.countRefreshed := by
  simp [extend, countRefreshed, ReplicaSyncReport.extend, Nat.add_assoc]

@[simp] theorem extend_panic : (self.extend d).panic = self.extend d.panic := by
  simp [extend, panic]

@[simp] theorem extend_stashFlags (h : ReplicaHandle) (p : ReplicaPlacement) :
    (self.extend d).stashFlags h p = self.extend (d.stashFlags h p) := by
  simp [extend, stashFlags, OrderedMap.union_insert]

@[simp] theorem extend_stashContent (h : ReplicaHandle) (p : ReplicaPlacement) :
    (self.extend d).stashContent h p = self.extend (d.stashContent h p) := by
  simp [extend, stashContent, OrderedMap.union_insert]

@[simp] theorem extend_stashDrop (h : ReplicaHandle) :
    (self.extend d).stashDrop h = self.extend (d.stashDrop h) := by
  simp [extend, stashDrop]

@[simp] theorem extend_stashCreate (h : ReplicaHandle) (p : ReplicaPlacement) :
    (self.extend d).stashCreate h p = self.extend (d.stashCreate h p) := by
  simp [extend, stashCreate, OrderedMap.union_insert]

@[simp] theorem extend_pullAdd (item : ReplicaRemoteItem) :
    (self.extend d).pullAdd item = self.extend (d.pullAdd item) := by
  simp [pullAdd]

@[simp] theorem extend_pullContent (p : ReplicaPlacement) (item : ReplicaRemoteItem) :
    (self.extend d).pullContent p item =
      (self.extend (d.pullContent p item).1, (d.pullContent p item).2) := by
  simp [pullContent]

@[simp] theorem extend_pullFlags (p : ReplicaPlacement) (flags : ReplicaFlags) :
    (self.extend d).pullFlags p flags = self.extend (d.pullFlags p flags) := by
  simp [pullFlags]

@[simp] theorem extend_rebase (p : ReplicaPlacement) (flags : ReplicaFlags) :
    (self.extend d).rebase p flags = self.extend (d.rebase p flags) := by
  simp [rebase]

@[simp] theorem extend_refuseDelete (p : ReplicaPlacement) :
    (self.extend d).refuseDelete p =
      (self.extend (d.refuseDelete p).1, (d.refuseDelete p).2) := by
  simp only [refuseDelete, extend_opts]
  split <;> simp

@[simp] theorem extend_markConflict (p : ReplicaPlacement) (item : ReplicaRemoteItem) :
    (self.extend d).markConflict p item =
      (self.extend (d.markConflict p item).1, (d.markConflict p item).2) := by
  simp [markConflict]

@[simp] theorem extend_stageConflictDup (p : ReplicaPlacement) :
    (self.extend d).stageConflictDup p = self.extend (d.stageConflictDup p) := by
  simp only [stageConflictDup, extend_collection]
  split <;> simp

@[simp] theorem extend_pushContent (p : ReplicaPlacement) (ifMatch : Option String) :
    (self.extend d).pushContent p ifMatch =
      (self.extend (d.pushContent p ifMatch).1, (d.pushContent p ifMatch).2) := by
  simp only [pushContent]
  split <;> simp

@[simp] theorem extend_resolveConflict (p : ReplicaPlacement) (item : ReplicaRemoteItem) :
    (self.extend d).resolveConflict p item =
      (self.extend (d.resolveConflict p item).1, (d.resolveConflict p item).2) := by
  cases hp : d.opts.conflict with
  | manual => simp [resolveConflict, hp]
  | preferLocal => cases hm : d.opts.mayContent <;> simp [resolveConflict, hp, hm]
  | preferRemote => simp [resolveConflict, hp]
  | keepBoth => simp [resolveConflict, hp]

@[simp] theorem extend_reconcileContent (p : ReplicaPlacement) (item : ReplicaRemoteItem) :
    (self.extend d).reconcileContent p item =
      (self.extend (d.reconcileContent p item).1, (d.reconcileContent p item).2) := by
  cases hb : p.base with
  | none =>
    cases hc : p.object.isSome && item.revision.isSome <;> simp [reconcileContent, hb, hc]
  | some base =>
    by_cases hs : p.status = .conflict
    · cases hr : movedFrom item p.conflictRevision <;> simp [reconcileContent, hb, hs, hr]
    · cases hl : localChanged p base <;> cases hr : movedFrom item base.revision
      · simp [reconcileContent, hb, hs, hl, hr]
      · simp [reconcileContent, hb, hs, hl, hr]
      · cases hm : d.opts.mayContent <;> simp [reconcileContent, hb, hs, hl, hr, hm]
      · simp [reconcileContent, hb, hs, hl, hr]

@[simp] theorem extend_reconcileFlags (p : ReplicaPlacement) (item : ReplicaRemoteItem)
    (allow : PushFlags) :
    (self.extend d).reconcileFlags p item allow =
      (self.extend (d.reconcileFlags p item allow).1, (d.reconcileFlags p item allow).2) := by
  simp only [reconcileFlags]
  cases p.baseFlags with
  | none => simp
  | some baseFlags =>
    dsimp only
    cases decide (ReplicaFlags.merge baseFlags p.flags item.flags ≠ p.flags) <;>
      cases decide (ReplicaFlags.merge baseFlags p.flags item.flags ≠ item.flags)
    · dsimp only
      split <;> simp
    · dsimp only
      simp only [Bool.false_eq_true, if_false, extend_opts]
      split <;> simp
    · simp
    · dsimp only
      simp only [if_true, extend_upsert, extend_countPulled, extend_emit, extend_opts]
      split <;> simp

@[simp] theorem extend_mergeTombstone (h : ReplicaHandle) (p : ReplicaPlacement)
    (item : ReplicaRemoteItem) :
    (self.extend d).mergeTombstone h p item =
      (self.extend (d.mergeTombstone h p item).1, (d.mergeTombstone h p item).2) := by
  cases hm : movedFrom item p.baseRevision with
  | true => simp [mergeTombstone, hm]
  | false =>
    cases he : p.stagedEdit.isSome && p.origin.isSome with
    | true =>
      cases hc : d.opts.mayContent <;> cases ho : p.object <;>
        simp [mergeTombstone, hm, he, hc, ho]
    | false => cases hr : d.opts.mayRemove <;> simp [mergeTombstone, hm, he, hr]

@[simp] theorem extend_pushAdd (h : ReplicaHandle) (p : ReplicaPlacement) :
    (self.extend d).pushAdd h p = (self.extend (d.pushAdd h p).1, (d.pushAdd h p).2) := by
  simp [pushAdd]

@[simp] theorem extend_mergeVanished (h : ReplicaHandle) (p : ReplicaPlacement) :
    (self.extend d).mergeVanished h p =
      (self.extend (d.mergeVanished h p).1, (d.mergeVanished h p).2) := by
  simp only [mergeVanished, extend_opts, extend_upsert]
  cases editedAgainstDelete p with
  | true => cases (d.upsert (resurrectedPlacement p)).opts.mayAdd <;> simp
  | false => simp

@[simp] theorem extend_mergePresent (p : ReplicaPlacement) (item : ReplicaRemoteItem) :
    (self.extend d).mergePresent p item =
      (self.extend (d.mergePresent p item).1, (d.mergePresent p item).2) := by
  simp only [mergePresent, extend_reconcileContent]
  cases d.reconcileContent p item with
  | mk d' outcome => cases outcome <;> simp

@[simp] theorem extend_mergeCreate (h : ReplicaHandle) (p : ReplicaPlacement) :
    (self.extend d).mergeCreate h p =
      (self.extend (d.mergeCreate h p).1, (d.mergeCreate h p).2) := by
  cases hadd : d.opts.mayAdd <;> by_cases hc : p.status = .created <;> simp [mergeCreate, hadd, hc]

@[simp] theorem extend_mergeAdded (h : ReplicaHandle) (item : ReplicaRemoteItem) :
    (self.extend d).mergeAdded h item =
      (self.extend (d.mergeAdded h item).1, (d.mergeAdded h item).2) := by
  simp [mergeAdded]

/-- Merging a candidate late in a run appends what merging it first would have queued. -/
theorem extend_merge (c : Candidate) :
    (self.extend d).merge c = (self.extend (d.merge c).1, (d.merge c).2) := by
  obtain ⟨h, loc, remote⟩ := c
  cases loc with
  | none => cases remote <;> simp
  | some p =>
    by_cases hp : p.status = .tombstone
    · rw [merge_tombstone _ _ hp, merge_tombstone _ _ hp]
      cases remote with
      | none => simp
      | some item =>
        dsimp only
        split <;> simp
    · rw [merge_live _ _ hp, merge_live _ _ hp]
      cases remote with
      | none =>
        dsimp only
        split <;> simp
      | some item => simp

end ReplicaSync
end IoReplica

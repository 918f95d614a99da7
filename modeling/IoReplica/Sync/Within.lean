import IoReplica.Sync.Inherit

/-! A sync run writes its own collection only. -/
namespace IoReplica

/-- The collection an op writes to: an object belongs to none. -/
def ReplicaWriteOp.collection : ReplicaWriteOp → Option ReplicaCollectionId
  | .upsertPlacement p => some p.collection
  | .dropPlacement collection .. => some collection
  | .storeObject .. => none
  | .setCheckpoint collection _ => some collection

theorem inherits_collection (c : ReplicaCollectionId) : Inherits c (fun p => p.collection = c) where
  pulled _ := rfl
  refreshed _ _ hp := hp
  conflicted _ _ hp := hp
  reopened _ _ hp := hp
  forked _ _ _ _ _ _ _ := rfl
  flagged _ _ hp := hp
  rebased _ _ hp := hp
  resurrected _ hp _ := hp
  contentRebased _ _ hp := hp
  rekeyed _ _ _ hp _ := hp

/-- A run over rows of its collection writes nothing outside it. -/
theorem Syncs.within {collection : ReplicaCollectionId} {opts : ReplicaSyncOptions}
    {loaded : ReplicaLoaded} {snapshot : ReplicaRemoteSnapshot} {t : Transcript}
    (h : Syncs collection opts loaded snapshot t) {s : CollectionRows}
    (hl : loaded.placements = s.placements)
    (hs : ∀ (g : ReplicaHandle) (p : ReplicaPlacement), s.rows[g]? = some p →
      p.collection = collection) :
    ∀ op ∈ t.writes, op.collection = some collection := by
  intro op hop
  have hobeys := h.obeys hl (inherits_collection collection) ⟨hs, fun g p hp _ => hs g p hp⟩ op hop
  cases op with
  | storeObject => exact hobeys.elim
  | upsertPlacement | dropPlacement | setCheckpoint => exact congrArg some hobeys

end IoReplica

import IoReplica.Sync.Whole
import IoReplica.Sync.Rights

/-! The change a merge derives: which row of it, against what the remote showed, on what
condition. -/
namespace IoReplica

open ReplicaSync in
/-- A change derived of a row: a flag set, the staged body over the revision it was made against or
over the one just observed, a removal of the revision deleted, or the create of a body nobody lists. -/
inductive Derived (opts : ReplicaSyncOptions) (p : ReplicaPlacement) :
    Option ReplicaRemoteItem → ReplicaChangeKind → Prop
  | flags {item : ReplicaRemoteItem} (h : ReplicaHandle) (flags : ReplicaFlags) :
      Derived opts p (some item) (.setFlags h flags)
  | edit {item : ReplicaRemoteItem} {object : ReplicaHash} (h : ReplicaHandle)
      (held : p.object = some object) (unmoved : movedFrom item p.baseRevision = false) :
      Derived opts p (some item) (.update h object p.baseRevision)
  | overwritten {item : ReplicaRemoteItem} {object : ReplicaHash} (h : ReplicaHandle)
      (held : p.object = some object) (moved : movedFrom item p.baseRevision = true)
      (preferred : opts.conflict = .preferLocal) :
      Derived opts p (some item) (.update h object item.revision)
  | remove {item : ReplicaRemoteItem} (h : ReplicaHandle) (deleted : p.status = .tombstone)
      (unmoved : movedFrom item p.baseRevision = false) :
      Derived opts p (some item)
        (.remove h (p.origin.map (·.collection)) p.linkId p.baseRevision)
  | create {q : ReplicaPlacement} (h : ReplicaHandle) (held : q.object = p.object) :
      Derived opts p none (.add h q.linkId q.flags q.origin q.object)

namespace ReplicaSync

variable {self : ReplicaSync} {p : ReplicaPlacement} {item : ReplicaRemoteItem}
  {kind : ReplicaChangeKind}

theorem reconcileFlags_derived {allow : PushFlags} (h : (self.reconcileFlags p item allow).2 = some kind) :
    ∃ g flags, kind = .setFlags g flags := by
  cases hb : p.base with
  | none => simp [reconcileFlags, ReplicaPlacement.baseFlags, hb] at h
  | some base =>
    obtain ⟨-, -, hchange⟩ := self.reconcileFlags_spec hb item allow
    rw [hchange] at h
    split at h <;> cases h
    exact ⟨_, _, rfl⟩

theorem pushContent_derived {ifMatch : Option String}
    (h : (self.pushContent p ifMatch).2 = .push kind) :
    ∃ object, p.object = some object ∧ kind = .update p.handle object ifMatch := by
  cases ho : p.object with
  | none => simp [pushContent, ho] at h
  | some object =>
    simp only [pushContent, ho, ContentOutcome.push.injEq] at h
    exact ⟨object, rfl, h.symm⟩

theorem reconcileContent_derived (h : (self.reconcileContent p item).2 = .push kind) :
    Derived self.opts p (some item) kind := by
  cases hb : p.base with
  | none =>
    simp only [reconcileContent, hb] at h
    split at h <;> cases h
  | some base =>
    have hrevision : p.baseRevision = base.revision := by simp [ReplicaPlacement.baseRevision, hb]
    simp only [reconcileContent, hb] at h
    split at h
    · split at h <;> cases h
    · cases hl : localChanged p base <;> cases hm : movedFrom item base.revision <;>
        simp only [hl, hm] at h
      · cases h
      · cases h
      · split at h
        · cases h
        · obtain ⟨object, ho, rfl⟩ := pushContent_derived h
          rw [← hrevision] at hm ⊢
          exact .edit _ ho hm
      · cases hc : self.opts.conflict with
        | manual | preferRemote | keepBoth => simp [resolveConflict, hc, markConflict] at h
        | preferLocal =>
          simp only [resolveConflict, hc] at h
          split at h
          · simp [markConflict] at h
          · obtain ⟨object, ho, rfl⟩ := pushContent_derived h
            rw [← hrevision] at hm
            exact .overwritten _ ho hm hc

theorem mergePresent_derived (h : (self.mergePresent p item).2 = some kind) :
    Derived self.opts p (some item) kind := by
  simp only [mergePresent] at h
  cases hc : self.reconcileContent p item with
  | mk d outcome =>
    rw [hc] at h
    cases outcome with
    | untouched | rewritten =>
      obtain ⟨g, flags, rfl⟩ := reconcileFlags_derived h
      exact .flags g flags
    | push change =>
      cases h
      exact reconcileContent_derived (by rw [hc])

theorem mergeTombstone_derived {g : ReplicaHandle} (hs : p.status = .tombstone)
    (h : (self.mergeTombstone g p item).2 = some kind) : Derived self.opts p (some item) kind := by
  simp only [mergeTombstone] at h
  split at h
  · cases h
  · rename_i hmoved
    have hunmoved := Bool.eq_false_iff.mpr hmoved
    split at h
    · split at h
      · simp [refuseDelete_silent] at h
      · cases ho : p.object with
        | none => simp [ho] at h
        | some object =>
          simp only [ho] at h
          cases h
          exact .edit g ho hunmoved
    · split at h
      · simp [refuseDelete_silent] at h
      · cases h
        exact .remove g hs hunmoved

/-- Every change a merge derives is derived of its candidate's row. -/
theorem merge_derived {c : Candidate} (h : (self.merge c).2 = some kind) :
    ∃ p, c.loc = some p ∧ Derived self.opts p c.remote kind := by
  obtain ⟨g, loc, remote⟩ := c
  cases loc with
  | none => cases remote <;> cases h
  | some p =>
    refine ⟨p, rfl, ?_⟩
    by_cases hs : p.status = .tombstone
    · rw [merge_tombstone _ _ hs] at h
      cases remote with
      | none => cases h
      | some item =>
        dsimp only at h
        split at h
        · exact mergeTombstone_derived hs h
        · cases h
    · rw [merge_live _ _ hs] at h
      cases remote with
      | some item => exact mergePresent_derived h
      | none =>
        dsimp only at h
        split at h
        · simp only [mergeVanished] at h
          split at h
          · split at h
            · cases h
            · cases h
              exact .create g rfl
          · cases h
        · simp only [mergeCreate] at h
          split at h
          · cases h
            exact .create g rfl
          · cases h

end ReplicaSync

/-- Every change a run pushes is derived of a row it loaded, against what it was told of the
member. -/
theorem Syncs.derived {collection : ReplicaCollectionId} {opts : ReplicaSyncOptions}
    {loaded : ReplicaLoaded} {snapshot : ReplicaRemoteSnapshot} {t : Transcript}
    (h : Syncs collection opts loaded snapshot t) {k : ReplicaChange} (hk : k ∈ t.changes) :
    ∃ p, (collectPlacements loaded.placements)[k.handle]? = some p ∧
      Derived opts p (Merge.seen (collectPlacements loaded.placements) snapshot k.handle) k.kind := by
  obtain ⟨box, hwhole⟩ := h.whole
  obtain ⟨c, hc, hh, hmap⟩ := hwhole.mem_changes.mp hk
  obtain ⟨kind, hkind, rfl⟩ := Option.map_eq_some_iff.mp hmap
  obtain ⟨p, hp, hderived⟩ := ReplicaSync.merge_derived hkind
  have hat := (mem_mergedCandidates c).mp hc
  have hloc := (Merge.candidateAt_spec hat).2
  have hseen : Merge.seen (collectPlacements loaded.placements) snapshot c.handle = c.remote := by
    rw [Merge.seen, hat, Option.bind_some]
  rw [← hh, hseen, ← hloc]
  exact ⟨p, hp, hderived⟩

/-- The body a change uploads. -/
def ReplicaChangeKind.body : ReplicaChangeKind → Option ReplicaHash
  | .add _ _ _ _ object => object
  | .update _ object _ => some object
  | .remove .. | .setFlags .. => none

theorem Derived.body {opts : ReplicaSyncOptions} {p : ReplicaPlacement}
    {item : Option ReplicaRemoteItem} {kind : ReplicaChangeKind} (h : Derived opts p item kind)
    {o : ReplicaHash} (ho : kind.body = some o) : p.object = some o := by
  cases h with
  | flags | remove => cases ho
  | edit _ held => exact held.trans ho
  | overwritten _ held => exact held.trans ho
  | create _ held => exact held.symm.trans ho

end IoReplica

import IoReplica.Sync.Owned
import IoReplica.Sync.Present

/-! What a run that settles a moved remote revision by pulling it writes of the row it meets. -/
namespace IoReplica

open ReplicaSync in
/-- The merge of a based row pulls what the remote moved to. -/
inductive Pulls (opts : ReplicaSyncOptions) (p : ReplicaPlacement) (base : ReplicaBase) : Prop
  | remote (live : p.status ≠ .tombstone) (settled : p.status ≠ .conflict)
      (unedited : localChanged p base = false)
  | policy (edited : localChanged p base = true)
      (resolves : opts.conflict = .preferRemote ∨ opts.conflict = .keepBoth)
  | deleted (tombstone : p.status = .tombstone)

open ReplicaSync in
instance (opts : ReplicaSyncOptions) (p : ReplicaPlacement) (base : ReplicaBase) :
    Decidable (Pulls opts p base) :=
  decidable_of_iff ((p.status ≠ .tombstone ∧ p.status ≠ .conflict ∧ localChanged p base = false) ∨
    (localChanged p base = true ∧ (opts.conflict = .preferRemote ∨ opts.conflict = .keepBoth)) ∨
    p.status = .tombstone) <| by
  constructor
  · rintro (⟨live, settled, unedited⟩ | ⟨edited, resolves⟩ | tombstone)
    · exact .remote live settled unedited
    · exact .policy edited resolves
    · exact .deleted tombstone
  · rintro (⟨live, settled, unedited⟩ | ⟨edited, resolves⟩ | tombstone)
    · exact Or.inl ⟨live, settled, unedited⟩
    · exact Or.inr (Or.inl ⟨edited, resolves⟩)
    · exact Or.inr (Or.inr ‹_›)

/-- A live row of `p`'s handle at the revision last pulled, its body unknown to it and its base. -/
structure RefreshedRow (p : ReplicaPlacement) (revision : Option String) (q : ReplicaPlacement) :
    Prop where
  handle : q.handle = p.handle
  linkId : q.linkId = none ∨ q.linkId = p.linkId
  object : q.object = none
  live : q.status ≠ .tombstone
  settled : q.status ≠ .conflict
  based : ∃ base, q.base = some base ∧ base.revision = revision ∧ base.object = none

namespace RefreshedRow

open ReplicaSync

variable {p q : ReplicaPlacement} {revision : Option String}

theorem flagged (h : RefreshedRow p revision q) (flags : ReplicaFlags) :
    RefreshedRow p revision { q with flags := flags } :=
  ⟨h.handle, h.linkId, h.object, h.live, h.settled, h.based⟩

theorem rebased (h : RefreshedRow p revision q) (flags flags' : ReplicaFlags) :
    RefreshedRow p revision
      { q with flags := flags, status := settledStatus q, base := flagBase q flags' } := by
  have hstatus : settledStatus q = .clean := by simp [settledStatus, h.settled]
  obtain ⟨base, hb, hr, ho⟩ := h.based
  refine ⟨h.handle, h.linkId, h.object, ?_, ?_, _, rfl, ?_, ?_⟩
  · simp [hstatus]
  · simp [hstatus]
  · simp [ReplicaPlacement.baseRevision, hb, hr]
  · simp [ReplicaPlacement.baseObject, hb, ho]

/-- The flag axis leaves a refreshed row refreshed. -/
theorem flagRow (h : RefreshedRow p revision q) {base : ReplicaBase} {item : ReplicaRemoteItem}
    {q' : ReplicaPlacement} (hq : ReplicaSync.flagRow base q item = some q') :
    RefreshedRow p revision q' := by
  simp only [ReplicaSync.flagRow] at hq
  split at hq
  · split at hq
    · cases hq
      exact h.rebased _ _
    · cases hq
  · split at hq
    · cases hq
      exact h.flagged _
    · cases hq

end RefreshedRow

namespace ReplicaSync

variable {collection : ReplicaCollectionId} {opts : ReplicaSyncOptions} {p : ReplicaPlacement}
  {base : ReplicaBase} {item : ReplicaRemoteItem}

/-- What a merge that pulls leaves of a run: refreshed rows of its handle, a keep-both fork apart. -/
structure PulledRun (collection : ReplicaCollectionId) (p : ReplicaPlacement)
    (revision : Option String) (d : ReplicaSync) : Prop where
  refreshed : ∃ q, .upsertPlacement q ∈ d.writes ∧ RefreshedRow p revision q
  writes : ∀ op ∈ d.writes, (∃ q, op = .upsertPlacement q ∧ RefreshedRow p revision q) ∨
    ∃ o, p.object = some o ∧ op = .upsertPlacement (forkedPlacement collection p o)
  flags : ∀ q, (d.pendingAt p.handle).flags = some q → RefreshedRow p revision q
  others : (d.pendingAt p.handle).content = none ∧ (d.pendingAt p.handle).dropped = false ∧
    (d.pendingAt p.handle).created = none

/-- The content axis of a live row that pulls. -/
theorem reconcileContent_pulls (collection : ReplicaCollectionId) (hb : p.base = some base) (hp : Pulls opts p base)
    (hlive : p.status ≠ .tombstone) {revision : String} (hr : item.revision = some revision)
    (hm : base.revision ≠ some revision) :
    RefreshedRow p item.revision (refreshedPlacement p item) ∧
      ∃ d, (new collection opts).reconcileContent p item =
          (d, .rewritten (refreshedPlacement p item)) ∧ PulledRun collection p item.revision d := by
  have hmoved : movedFrom item base.revision = true := by
    simp [movedFrom, hr, Ne.symm hm]
  have hrow : ∀ settled : p.status ≠ .conflict,
      RefreshedRow p item.revision (refreshedPlacement p item) := fun settled =>
    ⟨rfl, Or.inr rfl, rfl, hlive, settled, _, by rw [refreshedPlacement, hb]; rfl, rfl, rfl⟩
  have hnone : (new collection opts).pendingAt p.handle = .none := new_pendingAt collection opts _
  have hpulled : ∀ d : ReplicaSync, p.status ≠ .conflict →
      (∀ op ∈ d.writes, ∃ o, p.object = some o ∧
        op = .upsertPlacement (forkedPlacement collection p o)) →
      d.pendingAt p.handle = .none → PulledRun collection p item.revision (d.pullContent p item).1 := by
    intro d settled hforks hpending
    refine ⟨⟨_, List.mem_append_right _ (List.mem_singleton_self _), hrow settled⟩, ?_, ?_, ?_⟩
    · intro op hop
      rcases List.mem_append.mp hop with hop | hop
      · exact Or.inr (hforks op hop)
      · exact Or.inl ⟨_, List.mem_singleton.mp hop, hrow settled⟩
    · intro q hq
      have hsame : (d.pullContent p item).1.pendingAt p.handle = .none := hpending
      rw [hsame] at hq
      cases hq
    · have hsame : (d.pullContent p item).1.pendingAt p.handle = .none := hpending
      rw [hsame]
      exact ⟨rfl, rfl, rfl⟩
  cases hp with
  | deleted tombstone => exact absurd tombstone hlive
  | remote _ settled unedited =>
    refine ⟨hrow settled, _, ?_, hpulled (new collection opts) settled (fun op hop => by cases hop) hnone⟩
    simp only [reconcileContent, hb, if_neg settled, unedited, hmoved]
    rfl
  | policy edited resolves =>
    have hdirty : p.status = .dirty := by
      simp only [localChanged, Bool.and_eq_true, decide_eq_true_eq] at edited
      exact edited.1.1
    have settled : p.status ≠ .conflict := by simp [hdirty]
    have hresolve : (new collection opts).reconcileContent p item =
        (new collection opts).resolveConflict p item := by
      simp only [reconcileContent, hb, if_neg settled, edited, hmoved]
    rw [hresolve]
    refine ⟨hrow settled, ?_⟩
    have hopts : (new collection opts).opts.conflict = opts.conflict := rfl
    rcases resolves with hpolicy | hpolicy
    · refine ⟨_, ?_, hpulled (new collection opts) settled (fun op hop => by cases hop) hnone⟩
      simp only [resolveConflict, hopts, hpolicy]
      rfl
    · obtain ⟨o, ho⟩ : ∃ o, p.object = some o := by
        simp only [localChanged, Bool.and_eq_true] at edited
        exact Option.isSome_iff_exists.mp edited.1.2
      refine ⟨_, ?_, hpulled ((new collection opts).stageConflictDup p) settled ?_ ?_⟩
      · simp only [resolveConflict, hopts, hpolicy]
        rfl
      · intro op hop
        simp only [stageConflictDup, ho] at hop
        exact ⟨o, ho, List.mem_singleton.mp hop⟩
      · simp only [stageConflictDup, ho]
        exact hnone

/-- The flag axis keeps to refreshed rows. -/
theorem PulledRun.reconcileFlags {revision : Option String} {d : ReplicaSync}
    (h : PulledRun collection p revision d) {q : ReplicaPlacement} (hq : RefreshedRow p revision q)
    (item : ReplicaRemoteItem) :
    PulledRun collection p revision (d.reconcileFlags q item .derive).1 := by
  obtain ⟨base, hb, -, -⟩ := hq.based
  obtain ⟨hwrites, hpending, -⟩ := d.reconcileFlags_spec hb item .derive
  have hat : d.pendingAt q.handle = d.pendingAt p.handle := congrArg d.pendingAt hq.handle
  rw [hat] at hpending
  obtain ⟨first, hfirst, hrow⟩ := h.refreshed
  refine ⟨⟨first, ?_, hrow⟩, ?_, ?_, ?_⟩
  · rw [hwrites]
    exact List.mem_append_left _ hfirst
  · intro op hop
    rw [hwrites] at hop
    rcases List.mem_append.mp hop with hop | hop
    · exact h.writes op hop
    · simp only [asWrites, Option.mem_toList, Option.map_eq_some_iff] at hop
      obtain ⟨q', hflagged, rfl⟩ := hop
      exact Or.inl ⟨q', rfl, hq.flagRow hflagged⟩
  · intro q' hq'
    rw [← hq.handle, hpending] at hq'
    split at hq'
    · cases hq'
      exact hq.flagged _
    · exact h.flags q' hq'
  · rw [← hq.handle, hpending]
    split
    · exact h.others
    · exact h.others

/-- The whole merge of a row that pulls. -/
theorem effect_pulls (hb : p.base = some base) (hp : Pulls opts p base) {revision : String}
    (hr : item.revision = some revision) (hm : base.revision ≠ some revision)
    (hi : item.handle = p.handle) :
    PulledRun collection p item.revision
      (effect collection opts ⟨p.handle, some p, some item⟩).1 := by
  by_cases hs : p.status = .tombstone
  · have hmoved : movedFrom item p.baseRevision = true := by
      simp [movedFrom, hr, ReplicaPlacement.baseRevision, hb, Ne.symm hm]
    have hnone : (new collection opts).pendingAt p.handle = .none := new_pendingAt collection opts _
    have hrow : RefreshedRow p item.revision (pulledPlacement collection item) :=
      ⟨hi, Or.inl rfl, rfl, by simp [pulledPlacement], by simp [pulledPlacement], _, rfl, rfl, rfl⟩
    have heffect : (effect collection opts ⟨p.handle, some p, some item⟩).1 =
        (((new collection opts).pullAdd item).countPulled).emit (.added p.handle) := by
      rw [effect, merge_tombstone _ _ hs]
      simp only [hb, Option.isSome_some, if_true, mergeTombstone, if_pos hmoved]
    have hpending : ((((new collection opts).pullAdd item).countPulled).emit
        (.added p.handle)).pendingAt p.handle = .none := hnone
    rw [heffect]
    refine ⟨⟨_, List.mem_singleton_self _, hrow⟩, ?_, ?_, ?_⟩
    · intro op hop
      exact Or.inl ⟨_, List.mem_singleton.mp hop, hrow⟩
    · intro q hq
      rw [hpending] at hq
      cases hq
    · rw [hpending]
      exact ⟨rfl, rfl, rfl⟩
  · obtain ⟨hrow, d, hd, hrun⟩ := reconcileContent_pulls collection hb hp hs hr hm
    have heffect : (effect collection opts ⟨p.handle, some p, some item⟩).1 =
        (d.reconcileFlags (refreshedPlacement p item) item .derive).1 := by
      rw [effect, merge_live _ _ hs]
      simp only [mergePresent, hd]
    rw [heffect]
    exact hrun.reconcileFlags hrow item

end ReplicaSync

section
variable {collection : ReplicaCollectionId} {opts : ReplicaSyncOptions} {loaded : ReplicaLoaded}
  {snapshot : ReplicaRemoteSnapshot} {t : Transcript} {link : ReplicaLinkId}
  {p : ReplicaPlacement} {base : ReplicaBase} {item : ReplicaRemoteItem} {revision : String}

open ReplicaSync in
/-- A run that pulls a row writes it refreshed, and everything else it writes elsewhere. -/
theorem Syncs.pulled_writes (h : Syncs collection opts loaded snapshot t)
    (hc : Merge.candidateAt (collectPlacements loaded.placements) snapshot p.handle =
      some ⟨p.handle, some p, some item⟩)
    (hb : p.base = some base) (hp : Pulls opts p base) (hr : item.revision = some revision)
    (hm : base.revision ≠ some revision)
    (hu : Undisturbed (CollectionRows.ofLoad loaded.placements) p.handle t)
    (hfork : ∀ o, p.object = some o → keepBothLink o ≠ link)
    (hapart : ∀ (g : ReplicaHandle) (q : ReplicaPlacement),
      (collectPlacements loaded.placements)[g]? = some q → g ≠ p.handle → Apart link q) :
    (∃ q, .upsertPlacement q ∈ t.writes ∧ RefreshedRow p item.revision q) ∧
      ∀ op ∈ t.writes, (∃ q, op = .upsertPlacement q ∧ RefreshedRow p item.revision q) ∨
        op.Elsewhere p.handle link := by
  obtain ⟨box, hwhole⟩ := h.whole
  have hown : (⟨p.handle, some p, some item⟩ : Candidate) ∈ mergedCandidates loaded snapshot :=
    (mem_mergedCandidates _).mpr hc
  have hpaired := mergedCandidates_paired hown
  have hpulled : PulledRun collection p item.revision
      (effect collection opts ⟨p.handle, some p, some item⟩).1 :=
    effect_pulls hb hp hr hm (hpaired.remote item rfl)
  have hawaits := hwhole.awaits _ hown
  dsimp only at hawaits
  refine ⟨?_, ?_⟩
  · obtain ⟨q, hq, hrow⟩ := hpulled.refreshed
    refine ⟨q, ?_, hrow⟩
    rw [hwhole.writes]
    exact List.mem_append_left _ (List.mem_flatMap.mpr ⟨_, hown, hq⟩)
  · intro op hop
    rcases hwhole.sources hu hapart hop with ⟨c, hc, hh, hop⟩ | ⟨r, hh, hop⟩ | helsewhere
    · rw [mergedCandidates_unique hc hown hh] at hop
      rcases hpulled.writes op hop with hrow | ⟨o, ho, rfl⟩
      · exact Or.inl hrow
      · refine Or.inr ⟨fun he => keepBothHandle_ne p.handle o (Option.some.inj he), ?_⟩
        intro q hq
        cases hq
        exact fun hl => hfork o ho (Option.some.inj hl)
    · rw [hawaits] at hop
      obtain ⟨hcontent, hdropped, hcreated⟩ := hpulled.others
      simp only [Pending.record, hcontent, hdropped, hcreated, Option.map_none,
        Option.toList_none, Option.getD_none, List.append_nil, Bool.false_eq_true, if_false,
        Option.mem_toList, Option.map_eq_some_iff] at hop
      obtain ⟨q, hq, rfl⟩ := hop
      exact Or.inl ⟨_, rfl, (hpulled.flags q hq).rebased q.flags q.flags⟩
    · exact Or.inr helsewhere

end
end IoReplica

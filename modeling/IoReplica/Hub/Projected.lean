import IoReplica.Hub.Cell
import IoReplica.Sync.PushedFlags
import IoReplica.Sync.Whole

/-! The row a source loads of an item it is bound to, and what its next sync derives for it. -/
namespace IoReplica

/-- The remote still holds the member at this revision: a full or delta listing says so, or a delta
leaves it out. -/
structure StillAt (snapshot : ReplicaRemoteSnapshot) (h : ReplicaHandle) (flags : ReplicaFlags)
    (revision : Option String) : Prop where
  kept : snapshot.complete = true ∨ h ∉ snapshot.vanished
  state : snapshot.reported h = some ⟨h, flags, revision⟩ ∨
    (snapshot.complete = false ∧ snapshot.reported h = none)

section Still
variable {rows : HandleMap ReplicaPlacement} {snapshot : ReplicaRemoteSnapshot} {h : ReplicaHandle}
  {flags : ReplicaFlags} {base : ReplicaBase} {p : ReplicaPlacement}

/-- A based row is merged against the listed member, or against its own base. -/
theorem StillAt.candidate (hs : StillAt snapshot h flags base.revision) (hp : rows[h]? = some p)
    (hb : p.base = some base) (hc : p.conflictRevision = none) {c : Candidate}
    (hat : Merge.candidateAt rows snapshot h = some c) :
    ∃ told, (told = flags ∨ told = base.flags) ∧
      c = ⟨h, some p, some ⟨h, told, base.revision⟩⟩ := by
  have hstand : Merge.standIn h p = some ⟨h, base.flags, base.revision⟩ := by
    simp [Merge.standIn, hb, hc]
  simp only [Merge.candidateAt, hp, Option.isSome_some, true_or, if_true] at hat
  cases hcomplete : snapshot.complete with
  | true =>
    rcases hs.state with hi | ⟨hf, -⟩
    · rw [hi] at hat
      simp only [Merge.select, Merge.between, hcomplete, if_true, Option.some.injEq] at hat
      exact ⟨flags, Or.inl rfl, hat.symm⟩
    · rw [hcomplete] at hf
      cases hf
  | false =>
    have hv : h ∉ snapshot.vanished := by
      rcases hs.kept with hk | hk
      · rw [hcomplete] at hk
        cases hk
      · exact hk
    rcases hs.state with hi | ⟨-, hi⟩
    · rw [hi] at hat
      simp only [Merge.select, Merge.between, Merge.narrow, hcomplete, Bool.false_eq_true, if_false,
        List.mem_toFinset, hv, Option.isSome_some, if_true, Option.some.injEq] at hat
      exact ⟨flags, Or.inl rfl, hat.symm⟩
    · rw [hi] at hat
      simp only [Merge.select, Merge.between, Merge.narrow, hcomplete, Bool.false_eq_true, if_false,
        List.mem_toFinset, hv, Option.isSome_none, hstand] at hat
      split at hat
      · cases hat
      · simp only [Option.some.injEq] at hat
        exact ⟨base.flags, Or.inr rfl, hat.symm⟩

/-- A row that is not clean is merged whatever the snapshot. -/
theorem exists_candidate (snapshot : ReplicaRemoteSnapshot) (hp : rows[h]? = some p)
    (hs : p.status ≠ .clean) :
    ∃ c, Merge.candidateAt rows snapshot h = some c :=
  ⟨_, Merge.candidateAt_seen snapshot hp hs⟩

end Still

namespace ReplicaSync

/-- A row no remote edit meets: its own edit goes up where the run may push it, and its flags are
reconciled where it may not, or holds none. -/
theorem effect_unmoved {p : ReplicaPlacement} {base : ReplicaBase} {h : ReplicaHandle}
    (hb : p.base = some base) (hs : p.status = .clean ∨ p.status = .dirty) (flags : ReplicaFlags)
    (collection : ReplicaCollectionId) (opts : ReplicaSyncOptions) :
    (∃ o, p.object = some o ∧ localChanged p base = true ∧ opts.mayContent = true ∧
      (effect collection opts ⟨h, some p, some ⟨h, flags, base.revision⟩⟩).2 =
        some (.update p.handle o base.revision)) ∨
    ((localChanged p base = false ∨ opts.mayContent = false) ∧
      effect collection opts ⟨h, some p, some ⟨h, flags, base.revision⟩⟩ =
        (new collection opts).reconcileFlags p ⟨h, flags, base.revision⟩ .derive) := by
  have htomb : p.status ≠ .tombstone := by rcases hs with hs | hs <;> simp [hs]
  have hconf : p.status ≠ .conflict := by rcases hs with hs | hs <;> simp [hs]
  have hmoved : movedFrom ⟨h, flags, base.revision⟩ base.revision = false := by simp [movedFrom]
  have hopts : (new collection opts).opts = opts := rfl
  rw [effect, merge_live _ _ htomb]
  dsimp only
  cases hl : localChanged p base with
  | false =>
    right
    refine ⟨Or.inl rfl, ?_⟩
    simp [mergePresent, reconcileContent, hb, hconf, hl, hmoved]
  | true =>
    cases hm : opts.mayContent with
    | false =>
      right
      refine ⟨Or.inr rfl, ?_⟩
      simp [mergePresent, reconcileContent, hb, hconf, hl, hmoved, hopts, hm]
    | true =>
      left
      have hsome : p.object.isSome := by
        simp only [localChanged, Bool.and_eq_true] at hl
        exact hl.1.2
      obtain ⟨o, ho⟩ := Option.isSome_iff_exists.mp hsome
      refine ⟨o, ho, rfl, rfl, ?_⟩
      simp [mergePresent, reconcileContent, hb, hconf, hl, hmoved, hopts, hm, pushContent, ho]

/-- Flags that agree all round derive nothing. -/
theorem reconcileFlags_agreed (d : ReplicaSync) {p : ReplicaPlacement} {base : ReplicaBase}
    (hb : p.base = some base) (hf : p.flags = base.flags) {item : ReplicaRemoteItem}
    (hi : item.flags = base.flags) : (d.reconcileFlags p item .derive).2 = none := by
  rw [(d.reconcileFlags_spec hb item .derive).2.2]
  have hmerged : mergedFlags base p item = item.flags := by
    rw [mergedFlags, hf, hi, ReplicaFlags.merge_self]
  simp [pushesFlags, hmerged]

end ReplicaSync

namespace HubStore

/-- A load hands over one row per handle. -/
def Distinct (s : HubStore) (source : ReplicaSourceId) (collection : ReplicaCollectionId) : Prop :=
  (s.load source collection).placements.Pairwise (fun p q => p.handle ≠ q.handle)

instance (s : HubStore) (source : ReplicaSourceId) (collection : ReplicaCollectionId) :
    Decidable (s.Distinct source collection) := inferInstanceAs (Decidable (List.Pairwise _ _))

variable {s : HubStore} {source : ReplicaSourceId} {collection : ReplicaCollectionId}
  {link : ReplicaLinkId} {item : ReplicaHubItem} {binding : ReplicaSourceBinding}

theorem load_placement (hitem : s.hub.items[link]? = some item) {p : ReplicaPlacement}
    (hp : item.placement collection link source = some p) :
    p ∈ (s.load source collection).placements := by
  refine List.mem_append_left _ ?_
  rw [ReplicaHub.project, List.mem_filterMap]
  exact ⟨(link, item), (OrderedMap.mem_toList_iff _ _ _).mpr hitem, hp⟩

/-- What a bound item projects stands under the handle it is bound to. -/
theorem placement_bound (collection : ReplicaCollectionId) (link : ReplicaLinkId)
    (item : ReplicaHubItem) (hb : item.sources[source]? = some binding) :
    ∃ p, item.placement collection link source = some p ∧ p.handle = binding.handle ∧
      p.linkId = some link := by
  cases hd : item.deleted with
  | true =>
    exact ⟨item.tombstonePlacement collection link binding,
      by simp only [ReplicaHubItem.placement, hd, hb], rfl, rfl⟩
  | false =>
    exact ⟨item.boundPlacement collection link binding,
      by simp only [ReplicaHubItem.placement, hd, hb], rfl, rfl⟩

/-- What a bound item projects holds its body, over the binding's base. -/
theorem placement_holds (hb : item.sources[source]? = some binding) {p : ReplicaPlacement}
    (hp : item.placement collection link source = some p) :
    p.base = binding.base ∧ p.object = item.object := by
  cases hd : item.deleted with
  | true =>
    simp only [ReplicaHubItem.placement, hd, hb, Option.some.injEq] at hp
    rw [← hp]
    exact ⟨rfl, rfl⟩
  | false =>
    simp only [ReplicaHubItem.placement, hd, hb, Option.some.injEq] at hp
    rw [← hp]
    exact ⟨rfl, rfl⟩

/-- The row loaded of a bound item is the item's projection. -/
theorem load_bound (hd : Distinct s source collection) (hitem : s.hub.items[link]? = some item)
    (hlive : item.deleted = false) (hb : item.sources[source]? = some binding) :
    (collectPlacements (s.load source collection).placements)[binding.handle]? =
      some (item.boundPlacement collection link binding) := by
  have hp : item.placement collection link source =
      some (item.boundPlacement collection link binding) := by
    simp only [ReplicaHubItem.placement, hlive, hb]
  exact CollectionRows.collect_mem hd (load_placement hitem hp)

/-- One row per handle is one item per handle. -/
theorem holds_of_distinct (hd : Distinct s source collection)
    (hitem : s.hub.items[link]? = some item) (hb : item.sources[source]? = some binding) :
    s.hub.Holds source link binding.handle item := by
  refine ⟨hitem, ReplicaHubItem.boundTo_iff.mpr (by rw [hb]; rfl), ?_⟩
  intro other i hi hbound
  rw [ReplicaHubItem.boundTo_iff, Option.map_eq_some_iff] at hbound
  obtain ⟨b, hb', hh⟩ := hbound
  obtain ⟨p, hp, hph, hpl⟩ := placement_bound collection link item hb
  obtain ⟨q, hq, hqh, hql⟩ := placement_bound collection other i hb'
  have hpq := CollectionRows.collect_mem hd (load_placement hitem hp)
  have hqp := CollectionRows.collect_mem hd (load_placement hi hq)
  rw [hph] at hpq
  rw [hqh, hh, hpq, Option.some.injEq] at hqp
  rw [hqp, hql] at hpl
  exact Option.some.inj hpl

/-- A binding whose sync is not stuck on a conflict holds no conflict revision. -/
def Unstuck (item : ReplicaHubItem) : Prop :=
  ∀ (source : ReplicaSourceId) (b : ReplicaSourceBinding), item.sources[source]? = some b →
    b.conflicted = false → b.conflictRevision = none

theorem unstuck_absorb {hub : ReplicaHub} {policy : ReplicaHubConflict}
    (hpolicy : hub.conflict = policy) (h : hub.All Unstuck) (source : ReplicaSourceId)
    (ops : List ReplicaWriteOp) :
    (hub.absorb source ops).All Unstuck ∧ (hub.absorb source ops).conflict = policy := by
  refine ReplicaHub.All.absorb ?_ ?_ ?_ hpolicy h source ops
  · intro p src b hb
    simp [ReplicaHubItem.ofPlacement] at hb
  · intro item src p hi other b hb hconflicted
    rw [ReplicaHubItem.absorb_sources] at hb
    split at hb
    · cases hb
      have hs : p.status ≠ .conflict := by
        simpa [ReplicaHubItem.bindingOf] using hconflicted
      simp [ReplicaHubItem.bindingOf, hs]
    · exact hi other b hb hconflicted
  · intro item src handle reason hi other b hb
    refine hi other b ?_
    simp only [ReplicaHubItem.dropBinding] at hb
    split at hb
    · simp only [OrderedMap.get_erase] at hb
      split at hb
      · cases hb
      · exact hb
    · exact hb

theorem Reachable.unstuck {conflict : ReplicaHubConflict} {s : HubStore}
    (h : Reachable conflict s) : s.hub.All Unstuck ∧ s.hub.conflict = conflict := by
  refine h.invariant (P := fun hub => hub.All Unstuck ∧ hub.conflict = conflict) ⟨?_, rfl⟩ ?_
  · intro link item hitem
    simp [ReplicaHub.empty] at hitem
  · intro hub source ops hhub
    exact unstuck_absorb hhub.2 hhub.1 source ops

end HubStore
end IoReplica

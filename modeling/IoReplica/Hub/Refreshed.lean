import IoReplica.Hub.Hydrated
import IoReplica.Sync.Refreshed

/-! One source pulling what its remote moved a shared item to, and what its next sync makes of the
body the hub still shares. -/
namespace IoReplica

namespace ReplicaHubItem

variable {policy : ReplicaHubConflict} {source : ReplicaSourceId} {item : ReplicaHubItem}
  {handle : ReplicaHandle} {revision : Option String} {p q : ReplicaPlacement}

/-- A bodiless row of the source erases the shared body: it is the one the source last agreed on,
and the source held one itself or leaves a conflict. -/
def Erasable (item : ReplicaHubItem) (source : ReplicaSourceId) : Prop :=
  item.object = item.agreedObject source ∧
    (item.syncedObject source ≠ none ∨ item.sources[source]?.any (·.conflicted) = true)

/-- A live item its source is bound to at a pulled revision, the body there unknown to the
binding. -/
structure RefreshedAt (item : ReplicaHubItem) (source : ReplicaSourceId) (handle : ReplicaHandle)
    (revision : Option String) : Prop where
  live : item.deleted = false
  bound : ∃ binding, item.sources[source]? = some binding ∧ binding.handle = handle ∧
    binding.conflicted = false ∧ binding.conflictRevision = none ∧
    ∃ base, binding.base = some base ∧ base.revision = revision ∧ base.object = none

theorem RefreshedAt.not_erasable (h : item.RefreshedAt source handle revision) :
    ¬ item.Erasable source := by
  obtain ⟨binding, hb, -, hconflicted, -, base, hbase, -, hbody⟩ := h.bound
  rintro ⟨-, hsynced | hstuck⟩
  · refine hsynced ?_
    rw [syncedObject, hb, Option.bind_some, hbase, Option.bind_some, hbody]
  · rw [hb, Option.any_some, hconflicted] at hstuck
    cases hstuck

/-- What one refreshed row leaves of the item. -/
theorem absorb_refreshed (policy : ReplicaHubConflict) (item : ReplicaHubItem)
    (source : ReplicaSourceId) (hq : RefreshedRow p revision q) :
    (item.absorb policy source q).RefreshedAt source p.handle revision ∧
      (item.Erasable source → (item.absorb policy source q).object = none) ∧
      (¬ item.Erasable source → (item.absorb policy source q).object = item.object) := by
  have hresolving : (item.refresh q).resolving source q =
      item.sources[source]?.any (·.conflicted) := by
    have hsettled : decide (q.status ≠ .conflict) = true := decide_eq_true hq.settled
    rw [resolving, hsettled, Bool.and_true]
    rfl
  have hsynced : (item.refresh q).syncedObject source = item.syncedObject source := rfl
  have hagreed : (item.refresh q).agreedObject source = item.agreedObject source := rfl
  have hshared : (item.refresh q).object = item.object := rfl
  have hobject := (item.absorb_live policy source hq.live).1
  refine ⟨⟨(item.absorb_shared policy source hq.live).2, ?_⟩, ?_, ?_⟩
  · have hb := item.absorb_sources policy source q source
    rw [if_pos rfl] at hb
    obtain ⟨base, hbase, hrevision, hbody⟩ := hq.based
    refine ⟨_, hb, hq.handle, ?_, ?_, base, hbase, hrevision, hbody⟩
    · simp [bindingOf, hq.settled]
    · simp [bindingOf, hq.settled]
  · rintro ⟨hmoved, hspoken⟩
    rw [hobject]
    simp only [reconcileContent, hsynced, hagreed, hshared, hresolving, hq.object, hmoved,
      Option.isSome_none, Bool.and_false, Bool.false_and, Bool.false_eq_true, if_false]
    have hedited : (decide (none ≠ item.syncedObject source) ||
        item.sources[source]?.any (·.conflicted)) = true := by
      rcases hspoken with hs | hs
      · simp [Ne.symm hs]
      · simp [hs]
    rw [hedited]
    by_cases hnone : item.agreedObject source = none
    · simp [hnone, hshared, hmoved]
    · simp [Ne.symm hnone]
  · intro hkept
    rw [hobject]
    simp only [reconcileContent, hsynced, hagreed, hshared, hresolving, hq.object,
      Option.isSome_none, Bool.and_false, Bool.false_and, Bool.false_eq_true, if_false]
    split
    · rename_i hall
      simp only [Bool.and_eq_true, Bool.or_eq_true, decide_eq_true_eq, Bool.not_eq_true',
        decide_eq_false_iff_not, not_not] at hall
      obtain ⟨⟨hspoken, hmoved⟩, -⟩ := hall
      refine absurd ⟨hmoved, ?_⟩ hkept
      rcases hspoken with hs | hs
      · exact Or.inl (Ne.symm hs)
      · exact Or.inr hs
    · rfl

/-- Refreshed rows after the first change nothing of the body. -/
theorem RefreshedAt.absorbAll (h : item.RefreshedAt source p.handle revision)
    (policy : ReplicaHubConflict) {ps : List ReplicaPlacement} (hps : ∀ q ∈ ps, RefreshedRow p revision q) :
    (item.absorbAll policy source ps).RefreshedAt source p.handle revision ∧
      (item.absorbAll policy source ps).object = item.object := by
  induction ps generalizing item with
  | nil => exact ⟨h, rfl⟩
  | cons q ps ih =>
    obtain ⟨hnext, -, hkept⟩ := item.absorb_refreshed policy source
      (hps q List.mem_cons_self)
    obtain ⟨hrest, hobject⟩ := ih hnext (fun r hr => hps r (List.mem_cons_of_mem _ hr))
    exact ⟨hrest, hobject.trans (hkept h.not_erasable)⟩

/-- What a run of refreshed rows leaves of the item. -/
theorem absorbAll_refreshed (policy : ReplicaHubConflict) (item : ReplicaHubItem)
    (source : ReplicaSourceId) {ps : List ReplicaPlacement} (hne : ps ≠ [])
    (hps : ∀ q ∈ ps, RefreshedRow p revision q) :
    (item.absorbAll policy source ps).RefreshedAt source p.handle revision ∧
      (item.Erasable source → (item.absorbAll policy source ps).object = none) ∧
      (¬ item.Erasable source → (item.absorbAll policy source ps).object = item.object) := by
  cases ps with
  | nil => exact absurd rfl hne
  | cons q ps =>
    obtain ⟨hfirst, herased, hkept⟩ := item.absorb_refreshed policy source
      (hps q List.mem_cons_self)
    obtain ⟨hrest, hobject⟩ := hfirst.absorbAll policy
      (fun r hr => hps r (List.mem_cons_of_mem _ hr))
    exact ⟨hrest, fun h => hobject.trans (herased h), fun h => hobject.trans (hkept h)⟩

/-- An upsert of a body its source had not synced, or spoken by a source leaving its conflict. -/
def Edits (item : ReplicaHubItem) (source : ReplicaSourceId) (p : ReplicaPlacement) : Prop :=
  p.status ≠ .tombstone ∧ p.object.isSome ∧
    (p.object ≠ item.syncedObject source ∨ item.resolving source p = true)

/-- An upsert that edits nothing gives a bodiless item no body. -/
theorem absorb_bodiless (hnone : item.object = none) (hedit : ¬ item.Edits source p) :
    (item.absorb policy source p).object = none := by
  by_cases hp : p.status = .tombstone
  · rw [absorb, if_pos hp]
    exact hnone
  · rw [(item.absorb_live policy source hp).1]
    have hshared : (item.refresh p).object = none := hnone
    have hsynced : (item.refresh p).syncedObject source = item.syncedObject source := rfl
    have hresolving : (item.refresh p).resolving source p = item.resolving source p := rfl
    simp only [reconcileContent, hshared, hsynced, hresolving, Option.isSome_none, Bool.and_false,
      Bool.false_eq_true, if_false]
    split
    · rename_i hall
      simp only [Bool.and_eq_true, Bool.or_eq_true, decide_eq_true_eq] at hall
      exact absurd ⟨hp, Option.isSome_iff_ne_none.mpr hall.2, hall.1.1⟩ hedit
    · exact hshared

end ReplicaHubItem

namespace ReplicaHub

variable {hub : ReplicaHub} {source other : ReplicaSourceId} {link : ReplicaLinkId}
  {binding : ReplicaSourceBinding}

/-- The item holds no body, and binds the source so. -/
def Bare (hub : ReplicaHub) (source : ReplicaSourceId) (link : ReplicaLinkId)
    (binding : ReplicaSourceBinding) : Prop :=
  ∃ item, hub.items[link]? = some item ∧ item.object = none ∧
    item.sources[source]? = some binding

/-- An op of another source edits the item as it stands. -/
def Edits (hub : ReplicaHub) (source : ReplicaSourceId) (link : ReplicaLinkId)
    (op : ReplicaWriteOp) : Prop :=
  ∃ p item, op = .upsertPlacement p ∧ p.linkId = some link ∧ hub.items[link]? = some item ∧
    item.Edits source p

theorem Bare.absorbOp (h : hub.Bare source link binding) (hne : other ≠ source)
    {op : ReplicaWriteOp} (hedit : ¬ hub.Edits other link op) :
    (hub.absorbOp other op).Bare source link binding := by
  obtain ⟨item, hitem, hnone, hb⟩ := h
  have hget := (hub.absorbOp_get other link op).1
  rw [hitem] at hget
  cases op with
  | storeObject | setCheckpoint => exact ⟨item, hget, hnone, hb⟩
  | dropPlacement c handle reason =>
    refine ⟨_, hget, ?_⟩
    simp only [ReplicaHubItem.dropBinding]
    split
    · refine ⟨hnone, ?_⟩
      rw [OrderedMap.get_erase, if_neg hne]
      exact hb
    · exact ⟨hnone, hb⟩
  | upsertPlacement p =>
    simp only [cell, Option.getD_some] at hget
    split at hget
    · rename_i hlink
      refine ⟨_, hget, ?_, ?_⟩
      · exact ReplicaHubItem.absorb_bodiless hnone
          (fun hp => hedit ⟨p, item, rfl, hlink, hitem, hp⟩)
      · rw [ReplicaHubItem.absorb_sources, if_neg hne]
        exact hb
    · exact ⟨item, hget, hnone, hb⟩

/-- A batch none of whose ops edits the item as it finds it. -/
def Unedited (hub : ReplicaHub) (source : ReplicaSourceId) (link : ReplicaLinkId) :
    List ReplicaWriteOp → Prop
  | [] => True
  | op :: ops => ¬ hub.Edits source link op ∧ Unedited (hub.absorbOp source op) source link ops

theorem Bare.absorb {ops : List ReplicaWriteOp} (h : hub.Bare source link binding)
    (hne : other ≠ source) (hops : hub.Unedited other link ops) :
    (hub.absorb other ops).Bare source link binding := by
  have hfold : (ops.foldl (fun hub op => hub.absorbOp other op) hub).Bare source link binding := by
    induction ops generalizing hub with
    | nil => exact h
    | cons op ops ih => exact ih (h.absorbOp hne hops.1) hops.2
  obtain ⟨item, hitem, hnone, hb⟩ := hfold
  refine ⟨item, ?_, hnone, hb⟩
  have hheld : item.boundTo source binding.handle = true := by
    rw [ReplicaHubItem.boundTo_iff, hb]
    rfl
  rw [(hub.absorb_get other link ops).1, ← (hub.absorbOps_get other link ops).1, hitem,
    Option.filter_some, if_pos (ReplicaHubItem.sources_ne_empty hheld)]

end ReplicaHub

namespace HubStore

/-- The stores the batches of the other sources lead to, none of which edits the item. -/
inductive Between (source : ReplicaSourceId) (link : ReplicaLinkId) (s : HubStore) :
    HubStore → Prop
  | refl : Between source link s s
  | write {s' : HubStore} (before : Between source link s s') {other : ReplicaSourceId}
      (apart : other ≠ source) {ops : List ReplicaWriteOp}
      (unedited : s'.hub.Unedited other link (ops.map (keyBack s'.hub other))) :
      Between source link s (s'.write other ops)

theorem Between.bare {source : ReplicaSourceId} {link : ReplicaLinkId} {s s' : HubStore}
    {binding : ReplicaSourceBinding} (h : Between source link s s')
    (hs : s.hub.Bare source link binding) : s'.hub.Bare source link binding := by
  induction h with
  | refl => exact hs
  | write _ apart unedited ih => exact ih.absorb apart unedited

/-- Whatever the other sources write without editing the item, the source's next sync pushes no body
for it over the revision its remote stands at. -/
def Spared (source : ReplicaSourceId) (collection : ReplicaCollectionId) (link : ReplicaLinkId)
    (handle : ReplicaHandle) (revision : String) (s : HubStore) : Prop :=
  ∀ (s' : HubStore) (opts : ReplicaSyncOptions) (snapshot : ReplicaRemoteSnapshot)
    (flags : ReplicaFlags) (u : Transcript), Between source link s s' →
    s'.Distinct source collection → Syncs collection opts (s'.load source collection) snapshot u →
    StillAt snapshot handle flags (some revision) →
    ∀ k ∈ u.changes, ∀ (object : ReplicaHash) (ifMatch : Option String),
      k.kind ≠ .update handle object ifMatch

/-- A completed sync of a source that settles what its remote moved an item to by pulling it: no
other row of the run is written onto the item. -/
structure Refreshes (s : HubStore) (source : ReplicaSourceId) (collection : ReplicaCollectionId)
    (link : ReplicaLinkId) (item : ReplicaHubItem) (binding : ReplicaSourceBinding)
    (revision : String) (t : Transcript) (s' : HubStore) : Prop where
  shared : s.hub.items[link]? = some item
  bound : item.sources[source]? = some binding
  attends : Coroutine.Attends (service source) s t s'
  distinct : s.Distinct source collection
  settles : ∃ opts snapshot base remote, Syncs collection opts (s.load source collection) snapshot t ∧
    binding.base = some base ∧ base.revision ≠ some revision ∧
    snapshot.reported binding.handle = some remote ∧ remote.revision = some revision ∧
    (snapshot.complete = true ∨ binding.handle ∉ snapshot.vanished) ∧
    ∀ p, item.placement collection link source = some p → Pulls opts p base
  undisturbed : Undisturbed (.ofLoad (s.load source collection).placements) binding.handle t
  unforked : ∀ p ∈ (s.load source collection).placements, ∀ o, p.object = some o →
    ReplicaSync.keepBothLink o ≠ link

section
variable {conflict : ReplicaHubConflict} {s s' : HubStore} {link : ReplicaLinkId}
  {item : ReplicaHubItem} {source : ReplicaSourceId} {binding : ReplicaSourceBinding}
  {collection : ReplicaCollectionId} {revision : String} {t : Transcript}

/-- The item the pull leaves: at the pulled revision, its body erased where it could be. -/
theorem Refreshes.leaves (hreach : Reachable conflict s)
    (h : Refreshes s source collection link item binding revision t s') :
    ∃ item', s'.hub.items[link]? = some item' ∧
      item'.RefreshedAt source binding.handle (some revision) ∧
      (item.Erasable source → item'.object = none) ∧
      (¬ item.Erasable source → item'.object = item.object) := by
  obtain ⟨opts, snapshot, base, remote, hsync, hbase, hmoved, hlisted, hremote, hkept, hpulls⟩ :=
    h.settles
  obtain ⟨p, hp, hhandle, hlink⟩ := placement_bound collection link item h.bound
  have hrow := CollectionRows.collect_mem h.distinct (load_placement h.shared hp)
  have hpbase : p.base = some base := (placement_holds h.bound hp).1.trans hbase
  have hread : Reads (.ofLoad (s.load source collection).placements) snapshot p remote :=
    reads_of_listed hrow (by rw [hhandle]; exact hlisted) (by rw [hhandle]; exact hkept)
  have hundisturbed := h.undisturbed
  rw [← hhandle] at hundisturbed
  obtain ⟨⟨first, hfirst, hfirstRow⟩, hall⟩ := hsync.pulled_writes hread hpbase (hpulls p hp) hremote
    hmoved hundisturbed (h.unforked p (load_placement h.shared hp)) (by
      intro g q hq hg
      have hmem := CollectionRows.mem_of_collect hq
      refine ⟨fun hl => hg ?_, h.unforked q hmem⟩
      rw [hhandle, ← load_linked hreach h.shared h.bound hmem hl]
      exact (CollectionRows.collect_keyed hq).symm)
  rw [hremote] at hfirstRow hall
  have hown : ∀ q ∈ ownRows binding.handle t.writes, RefreshedRow p (some revision) q := by
    intro q hq
    obtain ⟨hmem, hh⟩ := mem_ownRows.mp hq
    rcases hall _ hmem with ⟨q', heq, hrefreshed⟩ | ⟨haway, -⟩
    · cases heq
      exact hrefreshed
    · exact absurd (congrArg some (hh.trans hhandle.symm)) haway
  have hconfined : Confined link binding.handle t.writes := by
    refine ⟨?_, ?_, ?_⟩
    · intro q hq hl
      rcases hall _ hq with ⟨q', heq, hrefreshed⟩ | ⟨-, haway⟩
      · cases heq
        exact hrefreshed.handle.trans hhandle
      · exact absurd hl (haway q rfl)
    · intro q hq hh
      have hrefreshed := hown q (mem_ownRows.mpr ⟨hq, hh⟩)
      rw [← hlink]
      exact hrefreshed.linkId
    · intro c reason hdrop
      rcases hall _ hdrop with ⟨q, heq, -⟩ | ⟨haway, -⟩
      · cases heq
      · exact haway (congrArg some hhandle.symm)
  have hne : ownRows binding.handle t.writes ≠ [] := by
    have hin := mem_ownRows.mpr ⟨hfirst, hfirstRow.handle.trans hhandle⟩
    exact List.ne_nil_of_mem hin
  have hholds := holds_of_distinct h.distinct h.shared h.bound
  obtain ⟨hafter, -⟩ := attends_holds h.attends hholds hconfined
  obtain ⟨hat, herased, hkeeps⟩ := item.absorbAll_refreshed s.hub.conflict source hne hown
  rw [hhandle] at hat
  exact ⟨_, hafter.shared, hat, herased, hkeeps⟩

/-- A bodiless item pushes no body. -/
theorem Bare.spared (h : s.hub.Bare source link binding) :
    Spared source collection link binding.handle revision s := by
  intro s' opts snapshot flags u hbetween hd hsync _ k hk object ifMatch hkind
  obtain ⟨item, hitem, hnone, hb⟩ := hbetween.bare h
  obtain ⟨p, hp, hhandle, -⟩ := placement_bound collection link item hb
  have hrow := CollectionRows.collect_mem hd (load_placement hitem hp)
  have hbody : p.object = none := (placement_holds hb hp).2.trans hnone
  obtain ⟨box, hwhole⟩ := hsync.whole
  obtain ⟨c, hc, hh, hchange⟩ := hwhole.mem_changes.mp hk
  obtain ⟨kind, hderived, rfl⟩ := Option.map_eq_some_iff.mp hchange
  rw [ReplicaChange.new_kind] at hkind
  rw [ReplicaChange.new_handle, hkind] at hh
  rw [hkind] at hderived
  obtain ⟨q, hq, hqbody⟩ := ReplicaSync.effect_update_body hderived
  rw [mem_mergedCandidates] at hc
  have hloc := (Merge.candidateAt_spec hc).2
  have hat : c.handle = p.handle := hh.trans hhandle.symm
  rw [hat, hrow, hq, Option.some.injEq] at hloc
  rw [hloc, hbody] at hqbody
  cases hqbody

/-- A body still shared over a fresh base is pushed over what was pulled. -/
theorem not_spared (hitem : s.hub.items[link]? = some item)
    (hat : item.RefreshedAt source binding.handle (some revision)) (hbody : item.object.isSome)
    (hd : s.Distinct source collection) :
    ¬ Spared source collection link binding.handle revision s := by
  obtain ⟨b, hb, hhandle, hconflicted, hcr, base, hbase, hrevision, hnone⟩ := hat.bound
  obtain ⟨o, ho⟩ := Option.isSome_iff_exists.mp hbody
  let p := item.boundPlacement collection link b
  have hp : (collectPlacements (s.load source collection).placements)[b.handle]? = some p :=
    load_bound hd hitem hat.live hb
  have hpbase : p.base = some base := hbase
  have hdirty : p.status = .dirty := by
    have hstatus : p.status = item.boundStatus b := rfl
    rw [hstatus]
    simp [ReplicaHubItem.boundStatus, hconflicted, hbase, ReplicaHubItem.inSync, hnone, ho]
  let snapshot : ReplicaRemoteSnapshot := ⟨[⟨b.handle, base.flags, base.revision⟩], [], true, ⟨[]⟩⟩
  have hstill : StillAt snapshot b.handle base.flags base.revision := by
    refine ⟨Or.inl rfl, Or.inl ?_⟩
    simp [snapshot, ReplicaRemoteSnapshot.reported]
  obtain ⟨u, hsync⟩ := exists_syncs collection .default (s.load source collection) snapshot
  intro hspared
  obtain ⟨c, hc⟩ := exists_candidate snapshot hp (by simp [hdirty])
  obtain ⟨told, -, rfl⟩ := hstill.candidate hp hpbase hcr hc
  obtain ⟨box, hwhole⟩ := hsync.whole
  have hchanged : ReplicaSync.localChanged p base = true := by
    have hobject : p.object = some o := ho
    simp [ReplicaSync.localChanged, hdirty, hobject, hnone]
  rcases ReplicaSync.effect_unmoved (h := b.handle) hpbase (Or.inr hdirty) told collection .default
    with ⟨o', -, -, -, hupdate⟩ | ⟨hleft | hleft, -⟩
  · have hin : (⟨b.handle, some p, some ⟨b.handle, told, base.revision⟩⟩ : Candidate) ∈
        mergedCandidates (s.load source collection) snapshot := (mem_mergedCandidates _).mpr hc
    have hmem : ReplicaChange.new collection (.update p.handle o' base.revision) ∈ u.changes := by
      refine hwhole.mem_changes.mpr ⟨_, hin, ?_, ?_⟩
      · rw [ReplicaChange.new_handle]
        rfl
      · rw [hupdate]
        rfl
    rw [hhandle, hrevision] at hstill
    refine hspared s .default snapshot base.flags u .refl hd hsync hstill _ hmem o' base.revision ?_
    rw [ReplicaChange.new_kind, ← hhandle]
    rfl
  · rw [hchanged] at hleft
    cases hleft
  · cases hleft

/-- What a source pulled is never overwritten unseen exactly when the hub held no body for it, or the
pull erased the one it held. -/
theorem refresh_spared_iff (hreach : Reachable conflict s)
    (h : Refreshes s source collection link item binding revision t s')
    (hd : s'.Distinct source collection) :
    Spared source collection link binding.handle revision s' ↔
      item.object = none ∨ item.Erasable source := by
  obtain ⟨item', hitem, hat, herased, hkept⟩ := h.leaves hreach
  have hbound := hat.bound
  obtain ⟨b, hb, hhandle, -⟩ := hbound
  have hbare : item'.object = none →
      Spared source collection link binding.handle revision s' := by
    intro hnone
    rw [← hhandle]
    exact Bare.spared ⟨item', hitem, hnone, hb⟩
  constructor
  · intro hspared
    by_contra hnot
    obtain ⟨hsome, hfirm⟩ := not_or.mp hnot
    refine not_spared hitem hat ?_ hd hspared
    rw [hkept hfirm]
    exact Option.isSome_iff_ne_none.mpr hsome
  · rintro (hnone | herasable)
    · by_cases herasable : item.Erasable source
      · exact hbare (herased herasable)
      · exact hbare ((hkept herasable).trans hnone)
    · exact hbare (herased herasable)

end

/-- The member of the right source, its content moved on. -/
def movedOn : Script := ⟨⟨[⟨⟨"theirs"⟩, .empty, some "2"⟩], [], true, ⟨[]⟩⟩, [], []⟩

/-- The right source's sync of its moved member, where it is its only row. -/
def pulling (opts : ReplicaSyncOptions) (s : HubStore) : Bool :=
  decide (s.Distinct ⟨"right"⟩ ⟨"inbox"⟩) &&
  (s.load ⟨"right"⟩ ⟨"inbox"⟩).placements.all (fun p => decide (p.handle = ⟨"theirs"⟩) &&
    decide (Pulls opts p ⟨.empty, some "1", none⟩) &&
    p.object.all (fun o => decide (ReplicaSync.keepBothLink o ≠ ⟨"item"⟩))) &&
  (movedOn.syncs 8 ⟨"right"⟩ ⟨"inbox"⟩ opts s).any (fun out =>
    decide (out.1.Distinct ⟨"right"⟩ ⟨"inbox"⟩) && out.2.pushes.isEmpty)

theorem pulling_refreshes {opts : ReplicaSyncOptions} {s : HubStore} (h : pulling opts s = true)
    {item : ReplicaHubItem} {binding : ReplicaSourceBinding}
    (hitem : s.hub.items[(⟨"item"⟩ : ReplicaLinkId)]? = some item)
    (hb : item.sources[(⟨"right"⟩ : ReplicaSourceId)]? = some binding)
    (hhandle : binding.handle = ⟨"theirs"⟩)
    (hbase : binding.base = some ⟨.empty, some "1", none⟩) :
    ∃ t s', Refreshes s ⟨"right"⟩ ⟨"inbox"⟩ ⟨"item"⟩ item binding "2" t s' ∧
      s'.Distinct ⟨"right"⟩ ⟨"inbox"⟩ := by
  simp only [pulling, Bool.and_eq_true, decide_eq_true_eq, List.all_eq_true, Option.any_eq_true,
    Option.all_eq_true] at h
  obtain ⟨⟨hd, hrows⟩, ⟨s', t⟩, hsyncs, hd', hpushes⟩ := h
  obtain ⟨hsync, hattends⟩ := Script.syncs_spec hsyncs
  have hpushed : t.pushes = [] := List.isEmpty_iff.mp hpushes
  refine ⟨t, s', ⟨hitem, hb, hattends, hd, ?_, ⟨?_, ?_⟩, ?_⟩, hd'⟩
  · refine ⟨opts, movedOn.snapshot, _, ⟨⟨"theirs"⟩, .empty, some "2"⟩, hsync, hbase, by decide, ?_,
      rfl, Or.inl rfl, ?_⟩
    · rw [hhandle]
      decide
    · exact fun p hp => (hrows p (load_placement hitem hp)).1.2
  · intro g p hp hg
    have hmem := CollectionRows.mem_of_collect hp
    refine absurd ?_ hg
    rw [hhandle, ← (hrows p hmem).1.1]
    exact (CollectionRows.collect_keyed hp).symm
  · intro e he
    rw [hpushed] at he
    cases he
  · exact fun p hp o ho => (hrows p hp).2 o ho

/-- The body the left source fetched is pushed over what the right one pulled. -/
theorem refresh_overwritten : ∃ s item binding t s', Reachable .manual s ∧
    Refreshes s ⟨"right"⟩ ⟨"inbox"⟩ ⟨"item"⟩ item binding "2" t s' ∧
    s'.Distinct ⟨"right"⟩ ⟨"inbox"⟩ ∧
    ¬ Spared ⟨"right"⟩ ⟨"inbox"⟩ ⟨"item"⟩ binding.handle "2" s' := by
  let s := (oneMember ⟨"ours"⟩ (some (.inline ⟨"body"⟩ [0]))).leaves 8 ⟨"left"⟩
    (.upgrade ⟨"inbox"⟩ [⟨"ours"⟩] .full) bodilessStore
  have hreach : Reachable .manual s := Script.leaves_reachable bodilessStore_reachable _ _ _ _
  have hpulling : pulling { ReplicaSyncOptions.default with conflict := .preferRemote } s = true := by
    decide +kernel
  have hhub : s.hub.items[(⟨"item"⟩ : ReplicaLinkId)]?.any (fun item =>
      decide (item.object ≠ none) && decide (item.object ≠ item.agreedObject ⟨"right"⟩) &&
      item.sources[(⟨"right"⟩ : ReplicaSourceId)]?.any (fun b => decide (b.handle = ⟨"theirs"⟩) &&
        decide (b.base = some ⟨.empty, some "1", none⟩))) = true := by decide +kernel
  obtain ⟨item, hitem, hi⟩ := (Option.any_eq_true _ _).mp hhub
  simp only [Bool.and_eq_true, decide_eq_true_eq, Option.any_eq_true] at hi
  obtain ⟨⟨hbody, hmoved⟩, binding, hb, hhandle, hbase⟩ := hi
  obtain ⟨t, s', hrefresh, hd⟩ := pulling_refreshes hpulling hitem hb hhandle hbase
  obtain ⟨item', hitem', hat, -, hkept⟩ := hrefresh.leaves hreach
  refine ⟨s, item, binding, t, s', hreach, hrefresh, hd, not_spared hitem' hat ?_ hd⟩
  rw [hkept (fun herasable => hmoved herasable.1)]
  exact Option.isSome_iff_ne_none.mpr hbody

/-- A pull of an item the hub holds no body for is not overwritten. -/
theorem bodiless_refresh_spared : ∃ binding t s',
    binding.handle = ⟨"theirs"⟩ ∧
    (∃ item, Refreshes bodilessStore ⟨"right"⟩ ⟨"inbox"⟩ ⟨"item"⟩ item binding "2" t s') ∧
    Spared ⟨"right"⟩ ⟨"inbox"⟩ ⟨"item"⟩ binding.handle "2" s' := by
  obtain ⟨item, ours, binding, hbodiless, -, hhandle, hbase⟩ := bodilessStore_bodiless
  have hpulling : pulling .default bodilessStore = true := by decide +kernel
  obtain ⟨t, s', hrefresh, hd⟩ :=
    pulling_refreshes hpulling hbodiless.shared hbodiless.boundOther hhandle hbase
  exact ⟨binding, t, s', hhandle, ⟨item, hrefresh⟩,
    (refresh_spared_iff bodilessStore_reachable hrefresh hd).mpr (Or.inl hbodiless.object)⟩

end HubStore
end IoReplica

import IoReplica.Hub.Edited
import IoReplica.Hub.Projected
import IoReplica.Upgrade.Row

/-! One source hydrating a shared item, and what the next sync of another makes of its body. -/
namespace IoReplica

/-- A row in sync holding a body its base holds too. -/
structure HydratedRow (p q : ReplicaPlacement) : Prop where
  status : q.status = p.status
  flags : q.flags = p.flags
  body : ∃ o, q.object = some o ∧ q.baseObject = some o

namespace ReplicaHubItem

variable {policy : ReplicaHubConflict} {source : ReplicaSourceId} {item : ReplicaHubItem}

/-- The shared body is the one the source last synced and last agreed on. -/
structure Agrees (item : ReplicaHubItem) (source : ReplicaSourceId) : Prop where
  synced : item.object = item.syncedObject source
  agreed : item.object = item.agreedObject source

/-- The source agreed on a body the item no longer holds. -/
structure Erases (item : ReplicaHubItem) (source : ReplicaSourceId) : Prop where
  object : item.object = none
  agreed : (item.agreedObject source).isSome

theorem absorb_binding (policy : ReplicaHubConflict) (item : ReplicaHubItem)
    (source : ReplicaSourceId) {p : ReplicaPlacement} (hlive : p.status ≠ .tombstone) :
    (item.absorb policy source p).syncedObject source = p.baseObject ∧
      (item.absorb policy source p).agreedObject source =
        (item.absorb policy source p).object.or p.baseObject := by
  have hb := item.absorb_sources policy source p source
  rw [if_pos rfl, if_neg hlive] at hb
  refine ⟨?_, ?_⟩
  · rw [syncedObject, hb]
    rfl
  · rw [agreedObject, syncedObject, hb]
    rfl

/-- A live upsert undeletes the item, and its flags are the upsert's unless unknown. -/
theorem absorb_shared (policy : ReplicaHubConflict) (item : ReplicaHubItem)
    (source : ReplicaSourceId) {p : ReplicaPlacement} (hlive : p.status ≠ .tombstone) :
    (item.absorb policy source p).flags = (item.refresh p).flags ∧
      (item.absorb policy source p).deleted = false := by
  have hr : (reconcileContent policy (item.refresh p) source p).flags = (item.refresh p).flags ∧
      (reconcileContent policy (item.refresh p) source p).deleted = (item.refresh p).deleted := by
    simp only [reconcileContent]
    split
    · cases policy <;> exact ⟨rfl, rfl⟩
    · split <;> exact ⟨rfl, rfl⟩
  rw [absorb, if_neg hlive]
  exact hr

/-- A hydrated row is adopted where the item agrees with its source. -/
theorem Agrees.absorb (h : item.Agrees source) (policy : ReplicaHubConflict) {p q : ReplicaPlacement} (hq : HydratedRow p q)
    (hlive : q.status ≠ .tombstone) :
    (item.absorb policy source q).Agrees source ∧
      (item.absorb policy source q).object = q.object := by
  obtain ⟨o, ho, hbase⟩ := hq.body
  have hobject : (item.absorb policy source q).object = q.object := by
    rw [(item.absorb_live policy source hlive).1]
    have hsynced : (item.refresh q).syncedObject source = item.object := h.synced.symm
    have hagreed : (item.refresh q).agreedObject source = item.object := h.agreed.symm
    have hshared : (item.refresh q).object = item.object := rfl
    simp only [reconcileContent, hsynced, hagreed, hshared, ne_eq, not_true_eq_false, decide_false,
      Bool.and_false, Bool.false_and, Bool.false_eq_true, if_false, Bool.not_false, Bool.and_true]
    split
    · rfl
    · rename_i hnot
      by_cases heq : q.object = item.object
      · exact heq.symm
      · simp [heq] at hnot
  obtain ⟨hsynced, hagreed⟩ := item.absorb_binding policy source hlive
  refine ⟨⟨?_, ?_⟩, hobject⟩
  · rw [hsynced, hobject, ho, hbase]
  · rw [hagreed, hobject, ho]
    rfl

/-- A hydrated row is left out where the item's body was erased under its source's agreement. -/
theorem Erases.absorb (h : item.Erases source) (policy : ReplicaHubConflict) {p q : ReplicaPlacement} (hq : HydratedRow p q)
    (hlive : q.status ≠ .tombstone) : (item.absorb policy source q).Erases source := by
  obtain ⟨o, ho, hbase⟩ := hq.body
  have hobject : (item.absorb policy source q).object = none := by
    rw [(item.absorb_live policy source hlive).1]
    have hshared : (item.refresh q).object = none := h.object
    have hmoved : (none : Option ReplicaHash) ≠ (item.refresh q).agreedObject source := by
      intro heq
      have hnone : item.agreedObject source = none := heq.symm
      have hsome := h.agreed
      rw [hnone] at hsome
      cases hsome
    simp [reconcileContent, hshared, hmoved]
  obtain ⟨-, hagreed⟩ := item.absorb_binding policy source hlive
  refine ⟨hobject, ?_⟩
  rw [hagreed, hobject, hbase]
  rfl

/-- What a run of hydrated rows leaves of the item: adopted, or erased still. -/
structure Hydrated (item item' : ReplicaHubItem) (source : ReplicaSourceId)
    (ps : List ReplicaPlacement) : Prop where
  flags : item'.flags = item.flags
  deleted : item.deleted = false → item'.deleted = false
  others : ∀ other, source ≠ other → item'.sources[other]? = item.sources[other]?
  adopted : item.Agrees source → ps ≠ [] → item'.object.isSome
  erased : item.Erases source → item'.object = none

theorem absorbAll_hydrated (policy : ReplicaHubConflict) (item : ReplicaHubItem)
    (source : ReplicaSourceId) {p : ReplicaPlacement} (hlive : p.status ≠ .tombstone)
    (hflags : p.flags = item.flags) {ps : List ReplicaPlacement}
    (hps : ∀ q ∈ ps, HydratedRow p q) :
    Hydrated item (item.absorbAll policy source ps) source ps := by
  induction ps generalizing item with
  | nil => exact ⟨rfl, id, fun _ _ => rfl, fun _ hne => absurd rfl hne, fun h => h.object⟩
  | cons q ps ih =>
    have hq := hps q List.mem_cons_self
    have hqlive : q.status ≠ .tombstone := by rwa [hq.status]
    obtain ⟨hshared, hundeleted⟩ := item.absorb_shared policy source hqlive
    have hkept : (item.absorb policy source q).flags = item.flags := by
      have hown : (item.refresh q).flags = item.flags := by
        simp only [refresh, hq.flags.trans hflags]
        split <;> rfl
      exact hshared.trans hown
    have hrest := ih (item.absorb policy source q) (hflags.trans hkept.symm)
      (fun r hr => hps r (List.mem_cons_of_mem _ hr))
    refine ⟨hrest.flags.trans hkept, fun _ => hrest.deleted hundeleted, ?_, ?_, ?_⟩
    · intro other hne
      have hothers := hrest.others other hne
      rw [absorb_sources, if_neg hne] at hothers
      exact hothers
    · intro hagrees _
      obtain ⟨hnext, hobject⟩ := hagrees.absorb policy hq hqlive
      by_cases hnil : ps = []
      · subst hnil
        obtain ⟨o, ho, -⟩ := hq.body
        have hone : (item.absorbAll policy source [q]).object = some o := hobject.trans ho
        rw [hone]
        rfl
      · exact hrest.adopted hnext hnil
    · exact fun herases => hrest.erased (herases.absorb policy hq hqlive)

end ReplicaHubItem

namespace HubStore

/-- The rows held beside the hub are the unlinked ones. -/
theorem Reachable.unlinked {conflict : ReplicaHubConflict} {s : HubStore} (h : Reachable conflict s)
    (source : ReplicaSourceId) : ∀ (g : ReplicaHandle) (p : ReplicaPlacement),
      (s.residual source).rows[g]? = some p → p.linkId = none := by
  refine h.stores (P := fun s => ∀ (source : ReplicaSourceId) (g : ReplicaHandle)
    (p : ReplicaPlacement), (s.residual source).rows[g]? = some p → p.linkId = none) ?_ ?_ source
  · intro source g p hp
    simp [HubStore.new, CollectionRows.empty] at hp
  · intro s source ops hs other
    by_cases ho : other = source
    · subst ho
      simp only [HubStore.write, Function.update_self]
      have hone := hs other
      generalize s.residual other = rows at hone
      induction ops generalizing rows with
      | nil => exact hone
      | cons op ops ih =>
        refine ih _ ?_
        intro g p hp
        have hkept : ∀ init, rowAfter g rows.rows[g]? [init] = some p →
            (∀ q, init = .upsertPlacement q → q.linkId = none) → p.linkId = none := by
          intro op hafter hunlinked
          cases op with
          | storeObject | setCheckpoint => exact hone g p hafter
          | dropPlacement c g' reason =>
            rw [rowAfter_drop, rowAfter_nil] at hafter
            split at hafter
            · cases hafter
            · exact hone g p hafter
          | upsertPlacement q =>
            rw [rowAfter_upsert, rowAfter_nil] at hafter
            split at hafter
            · cases hafter
              exact hunlinked p rfl
            · exact hone g p hafter
        generalize keyBack s.hub other op = op' at hp
        cases op' with
        | upsertPlacement q =>
          simp only [holdRow] at hp
          split at hp
          · rw [CollectionRows.get_write] at hp
            exact hkept _ hp (fun q hq => by cases hq)
          · rename_i hnone
            rw [CollectionRows.get_write] at hp
            refine hkept _ hp (fun q' hq => ?_)
            cases hq
            simpa using hnone
        | storeObject | setCheckpoint | dropPlacement =>
          simp only [holdRow] at hp
          rw [CollectionRows.get_write] at hp
          exact hkept _ hp (fun q hq => by cases hq)
    · simp only [HubStore.write, Function.update_of_ne ho]
      exact hs other

/-- The rows a source loads under an item's link id stand where it is bound. -/
theorem load_linked {conflict : ReplicaHubConflict} {s : HubStore} (h : Reachable conflict s)
    {source : ReplicaSourceId} {collection : ReplicaCollectionId} {link : ReplicaLinkId}
    {item : ReplicaHubItem} (hitem : s.hub.items[link]? = some item)
    {binding : ReplicaSourceBinding} (hb : item.sources[source]? = some binding)
    {p : ReplicaPlacement} (hp : p ∈ (s.load source collection).placements)
    (hl : p.linkId = some link) : p.handle = binding.handle := by
  rcases List.mem_append.mp hp with hp | hp
  · have hplaced := ReplicaHub.project_linked hitem hp hl
    obtain ⟨q, hq, hh, -⟩ := placement_bound collection link item hb
    rw [hplaced, Option.some.injEq] at hq
    rw [hq]
    exact hh
  · have hrow := (CollectionRows.mem_placements _ p).mp (List.mem_of_mem_filter hp)
    rw [h.unlinked source p.handle p hrow] at hl
    cases hl

open ReplicaUpgrade in
/-- An upgrade reads the store as it stood before its write. -/
theorem upgrade_loads {source : ReplicaSourceId} {s s' : HubStore} {c : ReplicaUpgrade}
    {a : Option ReplicaArg} {t : Transcript} {report : ReplicaUpgradeReport}
    (h : Coroutine.Runs resume c a t (.ok report))
    (hs : Coroutine.Attends (service source) s t s') :
    (c.state = .pendingWrite → t = []) ∧
      ∀ p ∈ t.loaded, p ∈ (s.load source c.collection).placements := by
  generalize hr : (.ok report : Except ReplicaArgError ReplicaUpgradeReport) = r at h
  induction h generalizing s with
  | done => exact ⟨fun _ => rfl, fun p hp => by cases hp⟩
  | @ask c c' a y b t r yields runs ih =>
    subst hr
    obtain ⟨hstate, hcollection, hasks⟩ := resume_asks yields
    refine ⟨fun hwrite => absurd hwrite hstate, ?_⟩
    cases hasks with
    | load scope =>
      cases hs with
      | other passes => cases passes
      | own serves rest =>
        cases serves
        intro p hp
        rcases List.mem_append.mp hp with hp | hp
        · exact hp
        · rw [← hcollection]
          exact (ih rest rfl).2 p hp
    | lookup links =>
      cases hs with
      | other passes => cases passes
      | own serves rest =>
        cases serves
        rw [← hcollection]
        exact (ih rest rfl).2
    | fetch hs' next =>
      cases hs with
      | own serves => cases serves
      | other passes rest =>
        have hends := runs.ends
        cases b with
        | fetch items =>
          rw [← hcollection]
          exact (ih rest rfl).2
        | load | enumerate | push | write | lookupObject =>
          simp [resume, next, Coroutine.Ends] at hends
    | write ops last =>
      cases hs with
      | other passes => cases passes
      | own serves rest =>
        cases serves
        rw [(ih rest rfl).1 last]
        intro p hp
        cases hp

/-- Two sources hold a live item in sync, its body unknown to the hub. -/
structure Bodiless (s : HubStore) (link : ReplicaLinkId) (item : ReplicaHubItem)
    (source other : ReplicaSourceId) (binding theirs : ReplicaSourceBinding) : Prop where
  shared : s.hub.items[link]? = some item
  live : item.deleted = false
  object : item.object = none
  apart : source ≠ other
  bound : item.sources[source]? = some binding
  boundOther : item.sources[other]? = some theirs
  clean : item.boundStatus binding = .clean
  cleanOther : item.boundStatus theirs = .clean

/-- A completed Full upgrade of a source that fetches the body of its member of an item, whatever
else it fetches: no key minted on the way is the item's own link id. -/
structure Hydrates (s : HubStore) (source : ReplicaSourceId) (collection : ReplicaCollectionId)
    (link : ReplicaLinkId) (handle : ReplicaHandle) (t : Transcript) (s' : HubStore) : Prop where
  runs : ∃ handles report, Coroutine.Runs ReplicaUpgrade.resume
    (ReplicaUpgrade.new collection handles .full) none t (.ok report)
  attends : Coroutine.Attends (service source) s t s'
  distinct : s.Distinct source collection
  fetched : ∃ i ∈ t.fetched, i.handle = handle
  bodies : ∀ i ∈ t.fetched, i.handle = handle → i.body.isSome
  fresh : ∀ i ∈ t.fetched, ReplicaUpgrade.mint i.linkId i.handle ≠ link

section
variable {conflict : ReplicaHubConflict} {s s' : HubStore} {link : ReplicaLinkId}
  {item : ReplicaHubItem} {source other : ReplicaSourceId} {binding theirs : ReplicaSourceBinding}
  {collection : ReplicaCollectionId} {t : Transcript}

/-- A binding in sync holds a base of the item's own flags and body. -/
theorem clean_base (hc : item.boundStatus binding = .clean) :
    binding.conflicted = false ∧
      ∃ base, binding.base = some base ∧ base.flags = item.flags ∧ base.object = item.object := by
  simp only [ReplicaHubItem.boundStatus] at hc
  split at hc
  · cases hc
  · rename_i hconflicted
    refine ⟨by simpa using hconflicted, ?_⟩
    split at hc
    · cases hc
    · split at hc
      · rename_i hsync
        obtain ⟨base, hbase, hagree⟩ := (Option.any_eq_true _ _).mp hsync
        obtain ⟨hflags, hobject⟩ := Bool.and_eq_true_iff.mp hagree
        exact ⟨base, hbase, of_decide_eq_true hflags, of_decide_eq_true hobject⟩
      · cases hc

open ReplicaUpgrade in
/-- What the upgrade loads, and what it writes of the item: hydrated rows of its handle, nothing
else. -/
theorem Hydrates.writes (hreach : Reachable conflict s)
    (hb : Bodiless s link item source other binding theirs)
    (h : Hydrates s source collection link binding.handle t s') :
    Confined link binding.handle t.writes ∧ ownRows binding.handle t.writes ≠ [] ∧
      ∀ q ∈ ownRows binding.handle t.writes,
        HydratedRow (item.boundPlacement collection link binding) q := by
  obtain ⟨handles, report, hruns⟩ := h.runs
  have hupgrades : Upgrades collection handles .full (s.load source collection) t := by
    obtain ⟨b, u, rfl, -⟩ := hruns.ends
    have hattends := h.attends
    cases hattends with
    | other passes => cases passes
    | own serves =>
      cases serves
      exact ⟨u, report, rfl, hruns⟩
  let p := item.boundPlacement collection link binding
  have hp : (collectPlacements (s.load source collection).placements)[p.handle]? = some p :=
    load_bound h.distinct hb.shared hb.live hb.bound
  obtain ⟨-, base, hbase, -, -⟩ := clean_base hb.clean
  have hpbase : p.base = some base := hbase
  have hnc : ¬ ((.full : ReplicaTier) = .full ∧ isConflicted p = true) := by
    have hstatus : p.status = .clean := hb.clean
    simp [isConflicted, hstatus]
  have hloads := (upgrade_loads hruns h.attends).2
  have hfilled : ∀ (claimed : LinkMap ReplicaHandle), ∀ i ∈ t.fetched,
      i.handle = p.handle → HydratedRow p (answer .full claimed p i) := by
    intro claimed i hi hnamed
    obtain ⟨body, hbody⟩ := Option.isSome_iff_exists.mp (h.bodies i hi hnamed)
    simp only [answer, hbody]
    rw [identify_eq]
    exact ⟨rfl, rfl, _, rfl, by simp [ReplicaPlacement.baseObject, filled, summarised, hpbase]⟩
  refine ⟨⟨?_, ?_, ?_⟩, ?_, ?_⟩
  · intro q hq hl
    obtain ⟨r, hr, hrl, hqr⟩ := upsert_link hupgrades hp (rfl : p.linkId = some link) h.fresh hq hl
    rw [hqr]
    exact load_linked hreach hb.shared hb.bound (hloads r hr) hrl
  · intro q hq hh
    right
    rcases upsert_cases hupgrades hp hnc hq hh with ⟨hash, rfl⟩ | ⟨i, -, -, claimed, rfl⟩
    · rfl
    · cases hbody : i.body <;> simp [answer, hbody, identify, p, ReplicaHubItem.boundPlacement,
        ReplicaHubItem.project, filled, summarised]
  · intro c reason
    exact not_dropped hupgrades c binding.handle reason
  · intro hnil
    obtain ⟨i, hi, hnamed⟩ := h.fetched
    obtain ⟨claimed, hmem⟩ := upsert_answer hupgrades hp hnc hi hnamed
    have hown := mem_ownRows.mpr ⟨hmem, (answer_leaves .full claimed p i).handle⟩
    rw [show p.handle = binding.handle from rfl, hnil] at hown
    cases hown
  · intro q hq
    obtain ⟨hmem, hh⟩ := mem_ownRows.mp hq
    rcases upsert_cases hupgrades hp hnc hmem hh with ⟨hash, rfl⟩ | ⟨i, hi, hnamed, claimed, rfl⟩
    · exact ⟨rfl, rfl, hash, rfl, by simp [ReplicaPlacement.baseObject, linked, hpbase]⟩
    · exact hfilled claimed i hi hnamed

/-- The item the upgrade leaves: its body adopted, unless the source agreed on one it lost. -/
theorem Hydrates.leaves (hreach : Reachable conflict s)
    (hb : Bodiless s link item source other binding theirs)
    (h : Hydrates s source collection link binding.handle t s') :
    ∃ item', s'.hub.items[link]? = some item' ∧ item'.deleted = false ∧
      item'.flags = item.flags ∧ item'.sources[other]? = some theirs ∧
      item'.object.isSome = binding.sharedObject.isNone := by
  obtain ⟨hconfined, hne, hrows⟩ := h.writes hreach hb
  have hholds := holds_of_distinct h.distinct hb.shared hb.bound
  obtain ⟨hafter, -⟩ := attends_holds h.attends hholds hconfined
  obtain ⟨-, base, hbase, -, hbody⟩ := clean_base hb.clean
  have hlive : (item.boundPlacement collection link binding).status ≠ .tombstone := by
    have hstatus : (item.boundPlacement collection link binding).status = .clean := hb.clean
    simp [hstatus]
  have hhydrated := item.absorbAll_hydrated s.hub.conflict source hlive rfl hrows
  have hsynced : item.syncedObject source = none := by
    rw [ReplicaHubItem.syncedObject, hb.bound, Option.bind_some, hbase, Option.bind_some, hbody,
      hb.object]
  have hagreed : item.agreedObject source = binding.sharedObject := by
    rw [ReplicaHubItem.agreedObject, hb.bound, Option.bind_some, hsynced, Option.or_none]
  refine ⟨_, hafter.shared, hhydrated.deleted hb.live, hhydrated.flags,
    (hhydrated.others other hb.apart).trans hb.boundOther, ?_⟩
  cases hshared : binding.sharedObject with
  | none =>
    rw [hshared] at hagreed
    exact hhydrated.adopted ⟨hb.object.trans hsynced.symm, hb.object.trans hagreed.symm⟩ hne
  | some o =>
    rw [hshared] at hagreed
    rw [hhydrated.erased ⟨hb.object, by rw [hagreed]; rfl⟩]
    rfl

/-- What the next sync of a source derives for an item it holds in sync but for the body, its remote
unmoved: the body's push, if there is one to push. -/
theorem sync_unmoved (hunstuck : Unstuck item) (hitem : s.hub.items[link]? = some item)
    (hlive : item.deleted = false) (hb : item.sources[source]? = some binding)
    (hd : s.Distinct source collection) (hconflicted : binding.conflicted = false)
    {base : ReplicaBase} (hbase : binding.base = some base) (hflags : base.flags = item.flags)
    (hbody : base.object = none) {opts : ReplicaSyncOptions} {snapshot : ReplicaRemoteSnapshot}
    {u : Transcript} (hsync : Syncs collection opts (s.load source collection) snapshot u)
    (hstill : StillAt snapshot binding.handle base.flags base.revision) :
    (∀ k ∈ u.changes, k.handle ≠ binding.handle) ↔
      item.object = none ∨ opts.mayContent = false := by
  let p := item.boundPlacement collection link binding
  have hp : (collectPlacements (s.load source collection).placements)[binding.handle]? = some p :=
    load_bound hd hitem hlive hb
  have hcr : p.conflictRevision = none := hunstuck source binding hb hconflicted
  have hpbase : p.base = some base := hbase
  have hstatus : p.status = item.boundStatus binding := rfl
  simp only [ReplicaHubItem.boundStatus, hconflicted, hbase, Option.isNone_some, Bool.false_and,
    Bool.false_eq_true, if_false] at hstatus
  have hsettled : p.status = .clean ∨ p.status = .dirty := by
    rw [hstatus]
    split
    · exact Or.inl rfl
    · exact Or.inr rfl
  obtain ⟨box, hwhole⟩ := hsync.whole
  constructor
  · intro hnone
    by_contra hnot
    obtain ⟨hsome, hmay⟩ := not_or.mp hnot
    have hdirty : p.status = .dirty := by
      rw [hstatus, if_neg]
      simp [ReplicaHubItem.inSync, hbase, hflags, hbody, Ne.symm hsome]
    obtain ⟨c, hc⟩ := exists_candidate snapshot hp (by simp [hdirty])
    obtain ⟨told, -, rfl⟩ := hstill.candidate hp hpbase hcr hc
    have hmem : (⟨binding.handle, some p, some ⟨binding.handle, told, base.revision⟩⟩ : Candidate) ∈
        mergedCandidates (s.load source collection) snapshot := (mem_mergedCandidates _).mpr hc
    rcases ReplicaSync.effect_unmoved (h := binding.handle) hpbase hsettled told collection opts with
      ⟨o, -, -, -, hupdate⟩ | ⟨hleft, -⟩
    · refine hnone (ReplicaChange.new collection (.update p.handle o base.revision)) ?_ ?_
      · refine hwhole.mem_changes.mpr ⟨_, hmem, ?_, ?_⟩
        · rw [ReplicaChange.new_handle]
          rfl
        · rw [hupdate]
          rfl
      · rw [ReplicaChange.new_handle]
        rfl
    · have hchanged : ReplicaSync.localChanged p base = true := by
        have hobject : p.object = item.object := rfl
        simp [ReplicaSync.localChanged, hdirty, hobject, hbody, hsome, Option.isSome_iff_ne_none]
      rw [hchanged] at hleft
      exact hmay (hleft.resolve_left (by simp))
  · intro hquiet k hk hh
    obtain ⟨c, hc, hch, hchange⟩ := hwhole.mem_changes.mp hk
    rw [mem_mergedCandidates, hch, hh] at hc
    obtain ⟨told, htold, rfl⟩ := hstill.candidate hp hpbase hcr hc
    have hagreed : told = base.flags := htold.elim id id
    obtain ⟨kind, hkind, -⟩ := Option.map_eq_some_iff.mp hchange
    rcases ReplicaSync.effect_unmoved (h := binding.handle) hpbase hsettled told collection opts with
      ⟨o, ho, -, hmay, -⟩ | ⟨-, hflagged⟩
    · rcases hquiet with hnone | hno
      · have hobject : p.object = item.object := rfl
        rw [hobject, hnone] at ho
        cases ho
      · rw [hno] at hmay
        cases hmay
    · rw [hflagged, ReplicaSync.reconcileFlags_agreed _ hpbase hflags.symm hagreed] at hkind
      cases hkind

/-- Hydrating one source of an item in sync leaves another nothing to push exactly when that run may
not push content, or the hydrating source had agreed on a body the hub has since lost. -/
theorem hydration_unpushed_iff (hreach : Reachable conflict s)
    (hb : Bodiless s link item source other binding theirs)
    (h : Hydrates s source collection link binding.handle t s')
    (hd : s'.Distinct other collection) {opts : ReplicaSyncOptions}
    {snapshot : ReplicaRemoteSnapshot} {u : Transcript}
    (hsync : Syncs collection opts (s'.load other collection) snapshot u)
    {base : ReplicaBase} (hbase : theirs.base = some base)
    (hstill : StillAt snapshot theirs.handle base.flags base.revision) :
    (∀ k ∈ u.changes, k.handle ≠ theirs.handle) ↔
      binding.sharedObject.isSome ∨ opts.mayContent = false := by
  obtain ⟨item', hitem, hlive, hflags, hother, hobject⟩ := h.leaves hreach hb
  obtain ⟨handles, report, hruns⟩ := h.runs
  have hran : s.Ran source (.upgrade collection handles .full) t s' := ⟨⟨_, hruns⟩, h.attends⟩
  have hreach' : Reachable conflict s' := hreach.run hran
  obtain ⟨hconflicted, base', hbase', hbflags, hbobject⟩ := clean_base hb.cleanOther
  rw [hbase, Option.some.injEq] at hbase'
  subst hbase'
  have hunstuck := hreach'.unstuck.1 link item' hitem
  rw [sync_unmoved hunstuck hitem hlive hother hd hconflicted hbase (hbflags.trans hflags.symm)
    (hbobject.trans hb.object) hsync hstill]
  cases ho : item'.object <;> cases hs : binding.sharedObject <;> simp [ho, hs] at hobject ⊢

end

/-- A remote of one member of the item, and the body a fetch of it replies. -/
def oneMember (handle : ReplicaHandle) (body : Option ReplicaFetchedBody) : Script where
  snapshot := ⟨[⟨handle, .empty, some "1"⟩], [], true, ⟨[]⟩⟩
  items := [⟨handle, ⟨"item"⟩, ⟨""⟩, .unknown, body, some "1"⟩]
  results := []

/-- Two sources list a member each of one item, and learn its identity without its body. -/
def bodilessStore : HubStore :=
  let listed (handle : ReplicaHandle) (source : ReplicaSourceId) (s : HubStore) : HubStore :=
    let s := (oneMember handle none).leaves 8 source (.sync ⟨"inbox"⟩ .default) s
    (oneMember handle none).leaves 8 source (.upgrade ⟨"inbox"⟩ [handle] .metadata) s
  listed ⟨"theirs"⟩ ⟨"right"⟩ (listed ⟨"ours"⟩ ⟨"left"⟩ (.new .manual))

theorem bodilessStore_reachable : Reachable .manual bodilessStore :=
  Script.leaves_reachable (Script.leaves_reachable (Script.leaves_reachable
    (Script.leaves_reachable .new _ _ _ _) _ _ _ _) _ _ _ _) _ _ _ _

theorem bodilessStore_bodiless : ∃ item binding theirs,
    bodilessStore.Bodiless ⟨"item"⟩ item ⟨"left"⟩ ⟨"right"⟩ binding theirs ∧
      binding.handle = ⟨"ours"⟩ ∧ theirs.handle = ⟨"theirs"⟩ ∧
      theirs.base = some ⟨.empty, some "1", none⟩ := by
  have hitem : bodilessStore.hub.items[(⟨"item"⟩ : ReplicaLinkId)]?.any (fun item =>
      decide (item.deleted = false) && decide (item.object = none) &&
      item.sources[(⟨"left"⟩ : ReplicaSourceId)]?.any (fun b =>
        decide (item.boundStatus b = .clean) && decide (b.handle = ⟨"ours"⟩)) &&
      item.sources[(⟨"right"⟩ : ReplicaSourceId)]?.any (fun b =>
        decide (item.boundStatus b = .clean) && decide (b.handle = ⟨"theirs"⟩) &&
        decide (b.base = some ⟨.empty, some "1", none⟩))) = true := by decide +kernel
  obtain ⟨item, hget, hi⟩ := (Option.any_eq_true _ _).mp hitem
  simp only [Bool.and_eq_true, decide_eq_true_eq, Option.any_eq_true] at hi
  obtain ⟨⟨⟨hlive, hobject⟩, binding, hb, hclean, hours⟩, theirs, ht, ⟨hclean', htheirs⟩, hbase⟩ := hi
  exact ⟨item, binding, theirs,
    ⟨hget, hlive, hobject, by decide, hb, ht, hclean, hclean'⟩, hours, htheirs, hbase⟩

/-- Does the right source's sync after the left one's hydration ask for what `seen` looks for? -/
def hydratedThen (opts : ReplicaSyncOptions) (seen : Transcript → Bool) : Bool :=
  let fetching := oneMember ⟨"ours"⟩ (some (.inline ⟨"body"⟩ [0]))
  (fetching.upgrades 8 ⟨"left"⟩ ⟨"inbox"⟩ [⟨"ours"⟩] .full bodilessStore).any (fun out =>
    decide (out.2.fetched = fetching.items) && decide (bodilessStore.Distinct ⟨"left"⟩ ⟨"inbox"⟩) &&
    decide (out.1.Distinct ⟨"right"⟩ ⟨"inbox"⟩) &&
    ((oneMember ⟨"theirs"⟩ none).syncs 8 ⟨"right"⟩ ⟨"inbox"⟩ opts out.1).any (fun o => seen o.2))

theorem hydratedThen_spec {opts : ReplicaSyncOptions} {seen : Transcript → Bool}
    (h : hydratedThen opts seen = true) : ∃ t s' u,
      Hydrates bodilessStore ⟨"left"⟩ ⟨"inbox"⟩ ⟨"item"⟩ ⟨"ours"⟩ t s' ∧
      s'.Distinct ⟨"right"⟩ ⟨"inbox"⟩ ∧
      Syncs ⟨"inbox"⟩ opts (s'.load ⟨"right"⟩ ⟨"inbox"⟩) (oneMember ⟨"theirs"⟩ none).snapshot u ∧
      seen u = true := by
  obtain ⟨⟨s', t⟩, hd, ho⟩ := (Option.any_eq_true _ _).mp h
  simp only [Bool.and_eq_true, decide_eq_true_eq, Option.any_eq_true] at ho
  obtain ⟨⟨⟨hfetched, hdistinct⟩, hdistinct'⟩, ⟨s'', u⟩, hd', hseen⟩ := ho
  obtain ⟨⟨report, hruns⟩, hattends⟩ := Script.upgrades_spec hd
  refine ⟨t, s', u, ⟨⟨_, report, hruns⟩, hattends, hdistinct, ?_, ?_, ?_⟩, hdistinct',
    (Script.syncs_spec hd').1, hseen⟩
  · rw [hfetched]
    exact ⟨_, List.mem_singleton_self _, rfl⟩
  · rw [hfetched]
    intro i hi _
    rw [List.mem_singleton.mp hi]
    rfl
  · rw [hfetched]
    intro i hi
    rw [List.mem_singleton.mp hi]
    decide

theorem theirs_still : StillAt (oneMember ⟨"theirs"⟩ none).snapshot ⟨"theirs"⟩ .empty (some "1") :=
  ⟨Or.inl rfl, Or.inl (by decide)⟩

/-- A body fetched for one source is pushed over the member another still holds in sync. -/
theorem hydration_pushed : ∃ s item binding theirs base t s' u,
    Reachable .manual s ∧
    s.Bodiless ⟨"item"⟩ item ⟨"left"⟩ ⟨"right"⟩ binding theirs ∧
    Hydrates s ⟨"left"⟩ ⟨"inbox"⟩ ⟨"item"⟩ binding.handle t s' ∧
    s'.Distinct ⟨"right"⟩ ⟨"inbox"⟩ ∧
    Syncs ⟨"inbox"⟩ .default (s'.load ⟨"right"⟩ ⟨"inbox"⟩) (oneMember ⟨"theirs"⟩ none).snapshot u ∧
    theirs.base = some base ∧
    StillAt (oneMember ⟨"theirs"⟩ none).snapshot theirs.handle base.flags base.revision ∧
    ∃ k ∈ u.changes, k.handle = theirs.handle := by
  obtain ⟨item, binding, theirs, hb, hours, htheirs, hbase⟩ := bodilessStore_bodiless
  have hthen : hydratedThen .default (fun u =>
      u.changes.any (fun k => decide (k.handle = ⟨"theirs"⟩))) = true := by decide +kernel
  obtain ⟨t, s', u, hhydrates, hd, hsync, hseen⟩ := hydratedThen_spec hthen
  obtain ⟨k, hk, hh⟩ := List.any_eq_true.mp hseen
  refine ⟨_, item, binding, theirs, _, t, s', u, bodilessStore_reachable, hb, ?_, hd, hsync, hbase,
    ?_, k, hk, ?_⟩
  · rw [hours]
    exact hhydrates
  · rw [htheirs]
    exact theirs_still
  · rw [htheirs]
    exact of_decide_eq_true hh

/-- A pull-only sync after a hydration pushes nothing for the item. -/
theorem pulled_after_hydration : ∃ t s' u,
    Hydrates bodilessStore ⟨"left"⟩ ⟨"inbox"⟩ ⟨"item"⟩ ⟨"ours"⟩ t s' ∧
    Syncs ⟨"inbox"⟩ { ReplicaSyncOptions.default with push := false }
      (s'.load ⟨"right"⟩ ⟨"inbox"⟩) (oneMember ⟨"theirs"⟩ none).snapshot u ∧
    ∀ k ∈ u.changes, k.handle ≠ ⟨"theirs"⟩ := by
  obtain ⟨item, binding, theirs, hb, hours, htheirs, hbase⟩ := bodilessStore_bodiless
  have hthen : hydratedThen { ReplicaSyncOptions.default with push := false } (fun _ => true) =
      true := by decide +kernel
  obtain ⟨t, s', u, hhydrates, hd, hsync, -⟩ := hydratedThen_spec hthen
  rw [← hours] at hhydrates
  have hstill : StillAt (oneMember ⟨"theirs"⟩ none).snapshot theirs.handle .empty (some "1") := by
    rw [htheirs]
    exact theirs_still
  have hquiet := (hydration_unpushed_iff bodilessStore_reachable hb hhydrates hd hsync hbase
    hstill).mpr (Or.inr rfl)
  rw [hours] at hhydrates
  rw [htheirs] at hquiet
  exact ⟨t, s', u, hhydrates, hsync, hquiet⟩

end HubStore
end IoReplica

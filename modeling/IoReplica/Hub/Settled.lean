import IoReplica.Hub.Edited
import IoReplica.Hub.Sequence

/-! The two conflicts of an item kept apart: a source never diverges from itself, and its conflict with
its own remote outlives whatever the other sources do. -/
namespace IoReplica

namespace ReplicaHubItem

variable {item : ReplicaHubItem} {source : ReplicaSourceId}

/-- The item is in no cross-source conflict, and the source agrees with its shared body. -/
structure Settled (item : ReplicaHubItem) (source : ReplicaSourceId) : Prop where
  conflicted : item.conflicted = false
  conflictObject : item.conflictObject = none
  agreed : ∃ binding, item.sources[source]? = some binding ∧ binding.sharedObject = item.object

/-- A source agreeing with the shared body is never behind it. -/
theorem Settled.reconcileContent (h : item.Settled source) (policy : ReplicaHubConflict)
    (p : ReplicaPlacement) :
    (reconcileContent policy item source p).conflicted = false ∧
      (reconcileContent policy item source p).conflictObject = none := by
  obtain ⟨binding, hb, hshared⟩ := h.agreed
  simp only [ReplicaHubItem.reconcileContent]
  split
  · rename_i hdiverged
    simp only [Bool.and_eq_true, decide_eq_true_eq] at hdiverged
    obtain ⟨⟨⟨⟨-, hmoved⟩, -⟩, -⟩, hsome⟩ := hdiverged
    refine absurd ?_ hmoved
    obtain ⟨o, ho⟩ := Option.isSome_iff_exists.mp hsome
    rw [agreedObject, hb, Option.bind_some, hshared, ho, Option.some_or]
  · split
    · exact ⟨rfl, rfl⟩
    · exact ⟨h.conflicted, h.conflictObject⟩

/-- Whatever a source upserts, it agrees with what that leaves shared. -/
theorem Settled.absorb (h : item.Settled source) (policy : ReplicaHubConflict)
    (p : ReplicaPlacement) : (item.absorb policy source p).Settled source := by
  have hb := item.absorb_sources policy source p source
  rw [if_pos rfl] at hb
  by_cases hp : p.status = .tombstone
  · obtain ⟨binding, hbound, hshared⟩ := h.agreed
    rw [if_pos hp, hbound, Option.bind_some] at hb
    rw [ReplicaHubItem.absorb, if_pos hp] at hb ⊢
    exact ⟨h.conflicted, h.conflictObject, _, hb, hshared⟩
  · have hr : (item.refresh p).Settled source := ⟨h.conflicted, h.conflictObject, h.agreed⟩
    obtain ⟨hconflicted, hobject⟩ := hr.reconcileContent policy p
    obtain ⟨-, hconflicted', hobject'⟩ := item.absorb_live policy source hp
    rw [if_neg hp] at hb
    exact ⟨hconflicted'.trans hconflicted, hobject'.trans hobject, _, hb, rfl⟩

end ReplicaHubItem

namespace ReplicaHub

/-- A source alone, over an item it agrees with, never diverges: whatever it upserts, under whatever
policy, no conflict is recorded and it agrees with the shared body again. -/
theorem never_diverges_from_itself (hub : ReplicaHub) {link : ReplicaLinkId}
    {item : ReplicaHubItem} {source : ReplicaSourceId} (hitem : hub.items[link]? = some item)
    (h : item.Settled source) {batches : List (ReplicaSourceId × List ReplicaWriteOp)}
    (hown : ∀ batch ∈ batches, batch.1 = source)
    (hkept : ∀ batch ∈ batches, ∀ c handle reason, .dropPlacement c handle reason ∉ batch.2) :
    ∃ item', (hub.absorbs batches).items[link]? = some item' ∧ item'.Settled source := by
  rw [(hub.absorbs_get link batches).1, hitem]
  refine steps_keep ?_ h
  intro step hstep item h
  rw [itemSteps, List.mem_flatMap] at hstep
  obtain ⟨batch, hbatch, hstep⟩ := hstep
  rcases List.mem_append.mp hstep with hop | hprune
  · obtain ⟨op, hin, rfl⟩ := List.mem_map.mp hop
    rw [hown batch hbatch]
    cases op with
    | storeObject | setCheckpoint => exact ⟨item, rfl, h⟩
    | dropPlacement c handle reason => exact absurd hin (hkept batch hbatch c handle reason)
    | upsertPlacement p =>
      simp only [ItemStep.run, cell]
      split
      · exact ⟨_, rfl, h.absorb hub.conflict p⟩
      · exact ⟨item, rfl, h⟩
  · cases List.mem_singleton.mp hprune
    obtain ⟨binding, hb, -⟩ := h.agreed
    exact ⟨item, prune_bound _ _ hb, h⟩

/-- A card of one contact, as a source holds it over its own base. -/
def cardRow (handle : ReplicaHandle) (status : ReplicaStatus) (object base : Option ReplicaHash) :
    ReplicaPlacement where
  collection := ⟨"contacts"⟩
  handle := handle
  linkId := some ⟨"ada"⟩
  object := object
  level := .full
  metadata := none
  sortKey := .unknown
  flags := .empty
  status := status
  conflictRevision := if status = .conflict then some "2" else none
  conflictObject := none
  base := some ⟨.empty, some "1", base⟩
  origin := none

/-- Two sources holding one card at the same body. -/
def sharedCard : ReplicaHub :=
  (ReplicaHub.empty .manual).absorbs
    [(⟨"left"⟩, [.upsertPlacement (cardRow ⟨"1"⟩ .clean (some ⟨"old"⟩) (some ⟨"old"⟩))]),
      (⟨"right"⟩, [.upsertPlacement (cardRow ⟨"a"⟩ .clean (some ⟨"old"⟩) (some ⟨"old"⟩))])]

/-- Two offline edits about a staged delete are one source's own. -/
theorem offline_edits_settled : ∃ item',
    (sharedCard.absorbs
      [(⟨"left"⟩, [.upsertPlacement (cardRow ⟨"1"⟩ .dirty (some ⟨"new"⟩) (some ⟨"old"⟩))]),
        (⟨"left"⟩, [.upsertPlacement (cardRow ⟨"1"⟩ .tombstone (some ⟨"new"⟩) (some ⟨"old"⟩))]),
        (⟨"left"⟩, [.upsertPlacement (cardRow ⟨"1"⟩ .dirty (some ⟨"newer"⟩) (some ⟨"old"⟩))])
      ]).items[(⟨"ada"⟩ : ReplicaLinkId)]? = some item' ∧ item'.Settled ⟨"left"⟩ := by
  have hshared : sharedCard.items[(⟨"ada"⟩ : ReplicaLinkId)]?.any (fun item =>
      decide (item.conflicted = false ∧ item.conflictObject = none) &&
        item.sources[(⟨"left"⟩ : ReplicaSourceId)]?.any (fun binding =>
          decide (binding.sharedObject = item.object))) = true := by decide +kernel
  obtain ⟨item, hitem, hi⟩ := (Option.any_eq_true _ _).mp hshared
  obtain ⟨hquiet, hbound⟩ := Bool.and_eq_true_iff.mp hi
  obtain ⟨binding, hb, hagreed⟩ := (Option.any_eq_true _ _).mp hbound
  obtain ⟨hconflicted, hobject⟩ := of_decide_eq_true hquiet
  exact sharedCard.never_diverges_from_itself hitem
    ⟨hconflicted, hobject, binding, hb, of_decide_eq_true hagreed⟩ (by simp) (by simp)

/-- The ops say nothing of the item its source holds under the handle. -/
structure Silent (link : ReplicaLinkId) (handle : ReplicaHandle) (ops : List ReplicaWriteOp) :
    Prop where
  links : ∀ p, .upsertPlacement p ∈ ops → p.linkId ≠ some link
  kept : ∀ c reason, .dropPlacement c handle reason ∉ ops

/-- The row reads as the conflict its source stated. -/
structure StatesConflict (p q : ReplicaPlacement) : Prop where
  linkId : q.linkId = p.linkId
  handle : q.handle = p.handle
  status : q.status = .conflict
  conflictRevision : q.conflictRevision = p.conflictRevision
  conflictObject : q.conflictObject = p.conflictObject
  base : q.base = p.base

/-- An absorbed conflict is its source's binding, whatever the rest of the batch says of others. -/
theorem absorb_conflict (hub : ReplicaHub) (source : ReplicaSourceId) {p : ReplicaPlacement}
    {link : ReplicaLinkId} (hlink : p.linkId = some link) (before after : List ReplicaWriteOp)
    (hafter : Silent link p.handle after) :
    ∃ item shared, (hub.absorb source (before ++ .upsertPlacement p :: after)).items[link]? =
        some item ∧ item.sources[source]? = some (ReplicaHubItem.bindingOf p shared) := by
  have hget := (hub.absorb_get source link (before ++ .upsertPlacement p :: after)).1
  rw [List.foldl_append, List.foldl_cons] at hget
  generalize before.foldl (cell hub.conflict source link) hub.items[link]? = old at hget
  simp only [cell, if_pos hlink] at hget
  have hb := (old.getD (.ofPlacement p)).absorb_sources hub.conflict source p source
  rw [if_pos rfl] at hb
  generalize (old.getD (.ofPlacement p)).absorb hub.conflict source p = item at hget hb
  have hsilent : after.foldl (cell hub.conflict source link) (some item) = some item := by
    clear hget
    induction after with
    | nil => rfl
    | cons op after ih =>
      have hrest := ih ⟨fun q hq => hafter.links q (List.mem_cons_of_mem _ hq),
        fun c reason hd => hafter.kept c reason (List.mem_cons_of_mem _ hd)⟩
      rw [List.foldl_cons]
      cases op with
      | storeObject | setCheckpoint => exact hrest
      | upsertPlacement q =>
        rw [cell, if_neg (hafter.links q List.mem_cons_self)]
        exact hrest
      | dropPlacement c handle reason =>
        have hne : item.boundTo source handle = false := by
          rw [← Bool.not_eq_true, ReplicaHubItem.boundTo_iff, hb]
          rintro heq
          cases heq
          exact hafter.kept c reason List.mem_cons_self
        rw [cell, Option.map_some, ReplicaHubItem.dropBinding_of_ne hne]
        exact hrest
  have hprune := prune_bound hub.conflict link hb
  rw [ItemStep.run] at hprune
  rw [hsilent, hprune] at hget
  exact ⟨item, _, hget, hb⟩

theorem binding_of_others (hub : ReplicaHub) (link : ReplicaLinkId) {source : ReplicaSourceId}
    {batches : List (ReplicaSourceId × List ReplicaWriteOp)} (h : ∀ b ∈ batches, b.1 ≠ source) :
    (hub.absorbs batches).binding link source = hub.binding link source := by
  rw [binding, binding, (hub.absorbs_get link batches).1]
  exact foreign_sources (foreign_itemSteps h) _

/-- A conflict of a source with its remote is projected back to it as it was stated, whatever the
other sources absorb that leaves the item live; no source's binding is moved but by its own absorbs;
and the next upsert of the source in another status clears it. -/
theorem conflict_survives (hub : ReplicaHub) (source : ReplicaSourceId) {p : ReplicaPlacement}
    {link : ReplicaLinkId} (hp : p.status = .conflict) (hlink : p.linkId = some link)
    (before after : List ReplicaWriteOp) (hafter : Silent link p.handle after)
    (others : List (ReplicaSourceId × List ReplicaWriteOp)) (hothers : ∀ b ∈ others, b.1 ≠ source) :
    let later := (hub.absorb source (before ++ .upsertPlacement p :: after)).absorbs others
    (∃ item, later.items[link]? = some item ∧ (item.deleted = false → ∀ collection,
      ∃ q ∈ later.project collection source, StatesConflict p q ∧
        ∀ q' ∈ later.project collection source, q'.linkId = some link → q' = q)) ∧
      (∀ (any : ReplicaHub) l batches other, (∀ b ∈ batches, b.1 ≠ other) →
        (any.absorbs batches).binding l other = any.binding l other) ∧
      ∀ (any : ReplicaHub) q, q.linkId = some link → q.status ≠ .conflict →
        ∃ own, (any.absorb source [.upsertPlacement q]).binding link source = some own ∧
          own.conflicted = false ∧ own.conflictRevision = none ∧ own.conflictObject = none := by
  intro later
  refine ⟨?_, fun any l batches other h => any.binding_of_others l h, ?_⟩
  · obtain ⟨told, shared, htold, hb⟩ := hub.absorb_conflict source hlink before after hafter
    have hkept := (hub.absorb source (before ++ .upsertPlacement p :: after)).binding_of_others link
      hothers
    rw [binding, binding, htold, Option.bind_some, hb] at hkept
    obtain ⟨item, hitem, hown⟩ := Option.bind_eq_some_iff.mp hkept
    refine ⟨item, hitem, ?_⟩
    intro hlive collection
    have hplacement : item.placement collection link source =
        some (item.boundPlacement collection link (ReplicaHubItem.bindingOf p shared)) := by
      simp only [ReplicaHubItem.placement, hlive, hown]
    refine ⟨_, mem_project.mpr ⟨link, item, hitem, hplacement⟩, ?_, ?_⟩
    · refine ⟨hlink.symm, rfl, ?_, ?_, ?_, rfl⟩
      · simp [ReplicaHubItem.boundPlacement, ReplicaHubItem.boundStatus, ReplicaHubItem.bindingOf, hp]
      · simp [ReplicaHubItem.boundPlacement, ReplicaHubItem.bindingOf, hp]
      · simp [ReplicaHubItem.boundPlacement, ReplicaHubItem.bindingOf, hp]
    · intro q' hq' hl
      have hplaced := project_linked hitem hq' hl
      rw [hplacement] at hplaced
      exact (Option.some.inj hplaced).symm
  · intro any q hq hstatus
    obtain ⟨item, shared, hitem, hb⟩ := any.absorb_conflict source hq [] []
      ⟨by simp, by simp⟩
    rw [List.nil_append] at hitem
    refine ⟨ReplicaHubItem.bindingOf q shared, ?_, ?_, ?_, ?_⟩
    · rw [binding, hitem]
      exact hb
    · simp [ReplicaHubItem.bindingOf, hstatus]
    · simp [ReplicaHubItem.bindingOf, hstatus]
    · simp [ReplicaHubItem.bindingOf, hstatus]

/-- The left source's row in conflict with its own remote. -/
def conflictRow : ReplicaPlacement := cardRow ⟨"1"⟩ .conflict (some ⟨"new"⟩) (some ⟨"old"⟩)

/-- The right source's member is deleted, and comes back under another handle. -/
def deletedThenBack : List (ReplicaSourceId × List ReplicaWriteOp) :=
  [(⟨"right"⟩, [.dropPlacement ⟨"contacts"⟩ ⟨"a"⟩ .deleted]),
    (⟨"right"⟩, [.upsertPlacement (cardRow ⟨"b"⟩ .created (some ⟨"old"⟩) none)])]

theorem conflict_survives_delete :
    ∃ q ∈ ((sharedCard.absorb ⟨"left"⟩ ([] ++ .upsertPlacement conflictRow :: [])).absorbs
      deletedThenBack).project ⟨"contacts"⟩ ⟨"left"⟩, StatesConflict conflictRow q := by
  obtain ⟨item, hitem, hprojects⟩ := (sharedCard.conflict_survives ⟨"left"⟩
    (p := conflictRow) rfl rfl [] [] ⟨by simp, by simp⟩ deletedThenBack (by decide)).1
  have hlive : ((sharedCard.absorb ⟨"left"⟩ ([] ++ .upsertPlacement conflictRow :: [])).absorbs
      deletedThenBack).items[(⟨"ada"⟩ : ReplicaLinkId)]?.all (fun item => !item.deleted) = true := by
    decide +kernel
  rw [hitem, Option.all_some, Bool.not_eq_true'] at hlive
  obtain ⟨q, hq, hstates, -⟩ := hprojects hlive ⟨"contacts"⟩
  exact ⟨q, hq, hstates⟩

end ReplicaHub
end IoReplica

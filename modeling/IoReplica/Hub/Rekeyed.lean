import IoReplica.Hub.Projected
import IoReplica.Hub.Settled
import IoReplica.Rekey.Exact
import IoReplica.Rekey.Stale

/-! A rekey seen through the hub, which keys its items by link id: what a renumbering leaves bound to
the source it ran for. -/
namespace IoReplica

namespace ReplicaHub

/-- No two items are bound to the source under one handle. -/
def Apart (hub : ReplicaHub) (source : ReplicaSourceId) : Prop :=
  ∀ link link' b b', hub.binding link source = some b → hub.binding link' source = some b' →
    b.handle = b'.handle → link = link'

/-- A row the source is handed of an item it is bound to. -/
def Bound (hub : ReplicaHub) (collection : ReplicaCollectionId) (source : ReplicaSourceId)
    (row : ReplicaPlacement) : Prop :=
  ∃ (link : ReplicaLinkId) (item : ReplicaHubItem) (binding : ReplicaSourceBinding),
    hub.items[link]? = some item ∧ item.sources[source]? = some binding ∧
      item.placement collection link source = some row

section Projection

variable {hub : ReplicaHub} {collection : ReplicaCollectionId} {source : ReplicaSourceId}
  {row : ReplicaPlacement} {link : ReplicaLinkId} {item : ReplicaHubItem}
  {binding : ReplicaSourceBinding}

theorem binding_of_item (hitem : hub.items[link]? = some item) :
    hub.binding link source = item.sources[source]? := by
  rw [ReplicaHub.binding, hitem, Option.bind_some]

/-- A bound row reads its binding back. -/
theorem Bound.reads (h : hub.Bound collection source row) :
    ∃ (link : ReplicaLinkId) (item : ReplicaHubItem) (binding : ReplicaSourceBinding),
      row.linkId = some link ∧ hub.items[link]? = some item ∧
      item.sources[source]? = some binding ∧ item.placement collection link source = some row ∧
      row.handle = binding.handle ∧ row.base = binding.base ∧ row.object = item.object := by
  obtain ⟨link, item, binding, hitem, hb, hrow⟩ := h
  obtain ⟨p, hp, hh, -⟩ := HubStore.placement_bound collection link item hb
  rw [hrow, Option.some.injEq] at hp
  obtain ⟨hbase, hobject⟩ := HubStore.placement_holds hb hrow
  exact ⟨link, item, binding, ReplicaHubItem.placement_linkId hrow, hitem, hb, hrow, hp ▸ hh,
    hbase, hobject⟩

/-- Every bound item hands its source one bound row. -/
theorem bound_of_binding (collection : ReplicaCollectionId)
    (hitem : hub.items[link]? = some item)
    (hb : item.sources[source]? = some binding) :
    ∃ row, hub.Bound collection source row ∧ row.linkId = some link ∧
      row.handle = binding.handle ∧ row.base = binding.base ∧
      item.placement collection link source = some row := by
  obtain ⟨row, hrow, hh, hl⟩ := HubStore.placement_bound collection link item hb
  exact ⟨row, ⟨link, item, binding, hitem, hb, hrow⟩, hl, hh,
    (HubStore.placement_holds hb hrow).1, hrow⟩

/-- The rows a rekey moves are bound. -/
theorem bound_of_spine (h : row ∈ ReplicaRekey.spineOf (hub.project collection source)) :
    hub.Bound collection source row := by
  obtain ⟨hp, hlive⟩ := List.mem_filter.mp h
  obtain ⟨link, item, hitem, hrow⟩ := mem_project.mp hp
  cases hb : item.sources[source]? with
  | some binding => exact ⟨link, item, binding, hitem, hb, hrow⟩
  | none =>
    cases hd : item.deleted with
    | true => simp [ReplicaHubItem.placement, hd, hb] at hrow
    | false =>
      have hcreated : item.createdPlacement collection link = some row := by
        simpa only [ReplicaHubItem.placement, hd, hb] using hrow
      rw [ReplicaHubItem.createdPlacement] at hcreated
      split at hcreated
      · cases hcreated
        simp at hlive
      · cases hcreated

/-- A bound item is one the prune keeps. -/
theorem held_of_binding (hb : item.sources[source]? = some binding) :
    (!item.sources.isEmpty) = true := by
  have hbound : item.boundTo source binding.handle = true :=
    ReplicaHubItem.boundTo_iff.mpr (by rw [hb]; rfl)
  exact ReplicaHubItem.sources_ne_empty hbound

theorem mem_spineOf : row ∈ ReplicaRekey.spineOf (hub.project collection source) ↔
    hub.Bound collection source row ∧ row.status ≠ .created := by
  constructor
  · intro h
    refine ⟨bound_of_spine h, ?_⟩
    simpa using (List.mem_filter.mp h).2
  · rintro ⟨⟨link, item, binding, hitem, -, hrow⟩, hlive⟩
    exact List.mem_filter.mpr ⟨mem_project.mpr ⟨link, item, hitem, hrow⟩, by simpa using hlive⟩

/-- Bound rows of one link id are one row. -/
theorem Bound.unique {row' : ReplicaPlacement} (h : hub.Bound collection source row)
    (h' : hub.Bound collection source row') (hl : row.linkId = row'.linkId) : row = row' := by
  obtain ⟨link, item, -, hlink, hitem, -, hrow, -⟩ := h.reads
  obtain ⟨link', item', -, hlink', hitem', -, hrow', -⟩ := h'.reads
  rw [hlink, hlink', Option.some.injEq] at hl
  subst hl
  rw [hitem, Option.some.injEq] at hitem'
  subst hitem'
  exact Option.some.inj (hrow.symm.trans hrow')

/-- Bound rows under one handle are one row, where items stand apart. -/
theorem Apart.unique {row' : ReplicaPlacement} (ha : hub.Apart source)
    (h : hub.Bound collection source row) (h' : hub.Bound collection source row')
    (hh : row.handle = row'.handle) : row = row' := by
  obtain ⟨link, item, binding, hlink, hitem, hb, -, hhandle, -⟩ := h.reads
  obtain ⟨link', item', binding', hlink', hitem', hb', -, hhandle', -⟩ := h'.reads
  have hsame : link = link' := ha link link' binding binding'
    ((binding_of_item hitem).trans hb) ((binding_of_item hitem').trans hb')
    (hhandle.symm.trans (hh.trans hhandle'))
  exact h.unique h' (by rw [hlink, hlink', hsame])

/-- A projection hands over one row per link id. -/
theorem project_pairwise (hub : ReplicaHub) (collection : ReplicaCollectionId)
    (source : ReplicaSourceId) :
    (hub.project collection source).Pairwise (fun p q => p.linkId ≠ q.linkId) := by
  refine List.Pairwise.filterMap _ ?_ (OrderedMap.toList_pairwise hub.items)
  intro a b hab p hp q hq
  rw [ReplicaHubItem.placement_linkId hp, ReplicaHubItem.placement_linkId hq]
  exact fun heq => absurd (Option.some.inj heq) (ne_of_lt hab)

theorem spineOf_pairwise (ha : hub.Apart source) :
    (ReplicaRekey.spineOf (hub.project collection source)).Pairwise
      (fun p q => p.handle ≠ q.handle) := by
  refine ((hub.project_pairwise collection source).filter _).imp_of_mem ?_
  intro p q hp hq hne hh
  exact hne (congrArg _ (ha.unique (bound_of_spine hp) (bound_of_spine hq) hh))

end Projection

section Cell

variable {policy : ReplicaHubConflict} {source : ReplicaSourceId} {link : ReplicaLinkId}

/-- Upserts of other link ids pass an item by. -/
theorem upserts_of_ne {ps : List ReplicaPlacement} (h : ∀ p ∈ ps, p.linkId ≠ some link)
    (item : Option ReplicaHubItem) :
    (ps.map .upsertPlacement).foldl (cell policy source link) item = item := by
  induction ps with
  | nil => rfl
  | cons p ps ih =>
    rw [List.map_cons, List.foldl_cons, cell, if_neg (h p List.mem_cons_self)]
    exact ih fun q hq => h q (List.mem_cons_of_mem _ hq)

/-- The last upsert of a link id is the one absorbed last. -/
theorem upserts_last {before after : List ReplicaPlacement} {p : ReplicaPlacement}
    (hp : p.linkId = some link) (hafter : ∀ q ∈ after, q.linkId ≠ some link)
    (item : Option ReplicaHubItem) :
    ((before ++ p :: after).map .upsertPlacement).foldl (cell policy source link) item =
      some ((((before.map .upsertPlacement).foldl (cell policy source link) item).getD
        (.ofPlacement p)).absorb policy source p) := by
  rw [List.map_append, List.map_cons, List.foldl_append, List.foldl_cons, upserts_of_ne hafter,
    cell, if_pos hp]

/-- Superseding drops leave an item they do not name. -/
theorem drops_of_ne {item : ReplicaHubItem} (collection : ReplicaCollectionId)
    {dropped : List ReplicaPlacement}
    (h : ∀ q ∈ dropped, item.boundTo source q.handle = false) :
    (dropped.map (fun q => .dropPlacement collection q.handle .superseded)).foldl
      (cell policy source link) (some item) = some item := by
  induction dropped with
  | nil => rfl
  | cons q dropped ih =>
    rw [List.map_cons, List.foldl_cons, cell, Option.map_some,
      ReplicaHubItem.dropBinding_of_ne (h q List.mem_cons_self)]
    exact ih fun r hr => h r (List.mem_cons_of_mem _ hr)

/-- A superseding drop of an item's handle unbinds the source, and deletes nothing. -/
theorem drops_unbind {item : ReplicaHubItem} (collection : ReplicaCollectionId)
    {dropped : List ReplicaPlacement} {q : ReplicaPlacement} (hq : q ∈ dropped)
    (hb : item.boundTo source q.handle = true) :
    (dropped.map (fun q => .dropPlacement collection q.handle .superseded)).foldl
      (cell policy source link) (some item) =
        some { item with sources := item.sources.erase source } := by
  induction dropped with
  | nil => cases hq
  | cons r dropped ih =>
    rw [List.map_cons, List.foldl_cons, cell, Option.map_some]
    by_cases hr : item.boundTo source r.handle = true
    · have hunbound : item.dropBinding source r.handle .superseded =
          { item with sources := item.sources.erase source } := by
        rw [ReplicaHubItem.boundTo] at hr
        simp [ReplicaHubItem.dropBinding, hr]
      rw [hunbound]
      exact drops_of_ne collection fun _ _ => by simp [ReplicaHubItem.boundTo]
    · rw [ReplicaHubItem.dropBinding_of_ne (by simpa using hr)]
      rcases List.mem_cons.mp hq with rfl | hq
      · exact absurd hb hr
      · exact ih hq

end Cell

end ReplicaHub

theorem ReplicaHubItem.absorb_deleted (policy : ReplicaHubConflict) (item : ReplicaHubItem)
    (source : ReplicaSourceId) (p : ReplicaPlacement) :
    (item.absorb policy source p).deleted = decide (p.status = .tombstone) := by
  have hkept : (reconcileContent policy (item.refresh p) source p).deleted = false := by
    simp only [reconcileContent]
    split
    · cases policy <;> rfl
    · split <;> rfl
  by_cases hp : p.status = .tombstone
  · simp [absorb, hp, bind]
  · simp [absorb, hp, bind, hkept]

/-- A source stating the shared body moves none. -/
theorem ReplicaHubItem.absorb_same (policy : ReplicaHubConflict) (item : ReplicaHubItem)
    (source : ReplicaSourceId) {p : ReplicaPlacement} (hlive : p.status ≠ .tombstone)
    (hp : p.object = item.object) : (item.absorb policy source p).object = item.object := by
  rw [(item.absorb_live policy source hlive).1]
  have hsame : p.object = (item.refresh p).object := hp
  simp only [reconcileContent, hsame, ne_eq, not_true_eq_false, decide_false, Bool.and_false,
    Bool.false_and, Bool.false_eq_true, if_false]
  rfl

namespace ReplicaHub

open ReplicaRekey (Rebuilt batchOps resurrected)

section Batch

variable {old rows survivors drops : List ReplicaPlacement} {links : HandleMap Resolved}
  {items : List ReplicaRemoteItem} {link : ReplicaLinkId}

/-- A batch over an item: the upserts, then the drops, then the prune. -/
theorem absorb_batchOps (hub : ReplicaHub) (source : ReplicaSourceId) (link : ReplicaLinkId)
    (collection : ReplicaCollectionId) (checkpoint : ReplicaCheckpoint)
    (rows survivors drops : List ReplicaPlacement) :
    (hub.absorb source (batchOps collection checkpoint rows survivors drops)).items[link]? =
      ((drops.map (fun q => .dropPlacement collection q.handle .superseded)).foldl
        (cell hub.conflict source link)
        (((rows ++ survivors.map resurrected).map .upsertPlacement).foldl
          (cell hub.conflict source link) hub.items[link]?)).filter
            (fun item => !item.sources.isEmpty) := by
  rw [(hub.absorb_get source link _).1, batchOps, List.foldl_append, List.foldl_append,
    ← List.map_append]
  rfl

/-- An item a rebuild upserts is left by the last of its upserts. -/
theorem absorb_upserted (hub : ReplicaHub) (source : ReplicaSourceId)
    (hb : Rebuilt old links items rows survivors drops) (collection : ReplicaCollectionId)
    (checkpoint : ReplicaCheckpoint) {before after : List ReplicaPlacement} {p : ReplicaPlacement}
    (hsplit : rows ++ survivors.map resurrected = before ++ p :: after)
    (hp : p.linkId = some link) (hafter : ∀ q ∈ after, q.linkId ≠ some link) :
    (hub.absorb source (batchOps collection checkpoint rows survivors drops)).items[link]? =
      some ((((before.map .upsertPlacement).foldl (cell hub.conflict source link)
        hub.items[link]?).getD (.ofPlacement p)).absorb hub.conflict source p) := by
  have hmem : p ∈ rows ++ survivors.map resurrected := by
    rw [hsplit]
    exact List.mem_append_right _ List.mem_cons_self
  have hspared : ∀ r ∈ drops, r.handle ≠ p.handle := by
    intro r hr
    obtain ⟨-, hitems, hedits⟩ := (hb.dropped r).mp hr
    rcases List.mem_append.mp hmem with hrow | hedit
    · obtain ⟨i, hi, hholds⟩ := Listing.forall₂_mem_left hb.members.flip p hrow
      exact fun hh => hitems i hi (hholds.handle.symm.trans hh.symm)
    · obtain ⟨e, he, rfl⟩ := List.mem_map.mp hedit
      exact fun hh => hedits e ((hb.edits e).mp he) hh.symm
  rw [absorb_batchOps, hsplit, upserts_last hp hafter]
  generalize ((before.map ReplicaWriteOp.upsertPlacement).foldl (cell hub.conflict source link)
    hub.items[link]?).getD (.ofPlacement p) = prev
  have hbound : ((prev.absorb hub.conflict source p).sources[source]?).map (·.handle) =
      some p.handle := ReplicaHubItem.absorb_bound prev p
  rw [drops_of_ne, Option.filter_some, if_pos]
  · exact ReplicaHubItem.sources_ne_empty (ReplicaHubItem.boundTo_iff.mpr hbound)
  · intro r hr
    rw [← Bool.not_eq_true, ReplicaHubItem.boundTo_iff, hbound]
    exact fun heq => hspared r hr (Option.some.inj heq).symm

/-- An item a rebuild neither upserts nor drops is left as it stood. -/
theorem absorb_kept (hub : ReplicaHub) (source : ReplicaSourceId)
    (collection : ReplicaCollectionId) (checkpoint : ReplicaCheckpoint)
    (hne : ∀ p ∈ rows ++ survivors.map resurrected, p.linkId ≠ some link)
    (hdrops : ∀ b, hub.binding link source = some b → ∀ q ∈ drops, q.handle ≠ b.handle) :
    (hub.absorb source (batchOps collection checkpoint rows survivors drops)).items[link]? =
      hub.items[link]?.filter (fun item => !item.sources.isEmpty) := by
  rw [absorb_batchOps, upserts_of_ne hne]
  cases hitem : hub.items[link]? with
  | none =>
    have hnone : ∀ (l : List ReplicaPlacement),
        (l.map (fun q => ReplicaWriteOp.dropPlacement collection q.handle .superseded)).foldl
          (cell hub.conflict source link) none = none := by
      intro l
      induction l with
      | nil => rfl
      | cons q l ih => exact ih
    rw [hnone]
  | some item =>
    rw [drops_of_ne]
    intro q hq
    rw [← Bool.not_eq_true, ReplicaHubItem.boundTo_iff, Option.map_eq_some_iff]
    rintro ⟨b, hb, hh⟩
    exact hdrops b ((binding_of_item hitem).trans hb) q hq hh.symm

/-- An item a rebuild only drops is bound to the source no more, and marked deleted by nothing. -/
theorem absorb_dropped (hub : ReplicaHub) {source : ReplicaSourceId}
    (collection : ReplicaCollectionId) (checkpoint : ReplicaCheckpoint)
    (hne : ∀ p ∈ rows ++ survivors.map resurrected, p.linkId ≠ some link)
    {item : ReplicaHubItem} (hitem : hub.items[link]? = some item) {b : ReplicaSourceBinding}
    (hbound : item.sources[source]? = some b) {q : ReplicaPlacement} (hq : q ∈ drops)
    (hh : q.handle = b.handle) :
    (hub.absorb source (batchOps collection checkpoint rows survivors drops)).items[link]? =
      (some { item with sources := item.sources.erase source }).filter
        (fun item => !item.sources.isEmpty) := by
  rw [absorb_batchOps, upserts_of_ne hne, hitem, drops_unbind collection hq]
  rw [ReplicaHubItem.boundTo_iff, hbound, hh]
  rfl

end Batch

/-- The rows of a source a rekey moves. -/
def spine (hub : ReplicaHub) (collection : ReplicaCollectionId) (source : ReplicaSourceId) :
    List ReplicaPlacement := ReplicaRekey.spineOf (hub.project collection source)

end ReplicaHub

namespace ReplicaRekey

open ReplicaHub (bound_of_spine absorb_upserted absorb_kept absorb_dropped)

/-- A row standing for a resurrected edit: its handle, its identity and its body, pending again. -/
structure Resurrects (p row : ReplicaPlacement) : Prop where
  handle : row.handle = p.handle
  linkId : row.linkId = p.linkId
  object : row.object = p.object
  status : row.status = .created
  base : row.base = none

section Rebuild

variable {hub : ReplicaHub} {collection : ReplicaCollectionId} {source : ReplicaSourceId}
  {links : HandleMap Resolved} {items : List ReplicaRemoteItem} {link : ReplicaLinkId}
  {rows survivors drops : List ReplicaPlacement} {p : ReplicaPlacement}

/-- The rows of a spine are told apart by their link ids. -/
theorem spine_unique {q : ReplicaPlacement} (hq : q ∈ hub.spine collection source)
    (hp : p ∈ hub.spine collection source) (h : q.linkId = p.linkId) : q = p :=
  (bound_of_spine hq).unique (bound_of_spine hp) h

/-- No stranded edit holds the link id of a row that staged none. -/
theorem unstranded (hp : p ∈ hub.spine collection source) (hl : p.linkId = some link)
    (hunedited : edited p = false) (q : ReplicaPlacement)
    (hq : Stranded (hub.spine collection source) links items q) : q.linkId ≠ some link := by
  intro hql
  rw [← spine_unique hq.moved hp (hql.trans hl.symm), hq.edited] at hunedited
  cases hunedited

/-- A row of the spine is resolved to by the members reporting its link id. -/
theorem resolves_iff (hp : p ∈ hub.spine collection source) (hl : p.linkId = some link) :
    Resolves links items (holder (hub.spine collection source)) p ↔
      ∃ i ∈ items, linkOf links i = some link := by
  have hholder : holder (hub.spine collection source) link = some p := by
    cases hh : holder (hub.spine collection source) link with
    | none =>
      rw [holder, List.getLast?_eq_none_iff, List.filter_eq_nil_iff] at hh
      exact absurd hl (by simpa using hh p hp)
    | some q =>
      obtain ⟨hq, hql⟩ := holder_linkId hh
      rw [spine_unique hq hp (hql.trans hl.symm)]
  constructor
  · rintro ⟨i, hi, r, hr, hheld⟩
    have hown := (holder_linkId hheld).2
    rw [hl, Option.some.injEq] at hown
    exact ⟨i, hi, by rw [linkOf, hr, Option.map_some, hown]⟩
  · rintro ⟨i, hi, hil⟩
    obtain ⟨r, hr, hrl⟩ := Option.map_eq_some_iff.mp hil
    exact ⟨i, hi, r, hr, by rw [hrl, hholder]⟩

/-- An upsert of a rebuild is a member's or a stranded edit's. -/
theorem upsert_cases (hb : Rebuilt (hub.spine collection source) links items rows survivors drops)
    (hp : p ∈ rows ++ survivors.map resurrected) (hl : p.linkId = some link) :
    (p ∈ rows ∧ ∃ i ∈ items, linkOf links i = some link ∧ Holds links i p) ∨
      ∃ q, Stranded (hub.spine collection source) links items q ∧ q.linkId = some link ∧
        p = resurrected q := by
  rcases List.mem_append.mp hp with hrow | hedit
  · obtain ⟨i, hi, hholds⟩ := Listing.forall₂_mem_left hb.members.flip p hrow
    exact Or.inl ⟨hrow, i, hi, hholds.linkId.symm.trans hl, hholds⟩
  · obtain ⟨q, hq, rfl⟩ := List.mem_map.mp hedit
    exact Or.inr ⟨q, (hb.edits q).mp hq, hl, rfl⟩

/-- A reported link id is bound under a member reporting it, the last one listed. -/
theorem rebuilt_member (hb : Rebuilt (hub.spine collection source) links items rows survivors drops)
    (checkpoint : ReplicaCheckpoint) {i : ReplicaRemoteItem} (hi : i ∈ items)
    (hl : linkOf links i = some link) :
    ∃ j ∈ items, linkOf links j = some link ∧ ∃ p ∈ rows, Holds links j p ∧
      ∃ item b, (hub.absorb source
          (batchOps collection checkpoint rows survivors drops)).items[link]? = some item ∧
        item.sources[source]? = some b ∧ b.handle = p.handle ∧ b.base = p.base ∧
        item.deleted = decide (p.status = .tombstone) := by
  obtain ⟨r, hr, hholds⟩ := Listing.forall₂_mem_left hb.members i hi
  have hrl : r.linkId = some link := hholds.linkId.trans hl
  obtain ⟨before, p, after, hsplit, hp, hafter⟩ :=
    Listing.last_listed (·.linkId) (List.mem_append_left (survivors.map resurrected) hr)
  have hpl : p.linkId = some link := hp.trans hrl
  have hitem := absorb_upserted hub source hb collection checkpoint hsplit hpl
    (fun q hq => by rw [← hrl]; exact hafter q hq)
  have hmem : p ∈ rows ++ survivors.map resurrected := by
    rw [hsplit]
    exact List.mem_append_right _ List.mem_cons_self
  rcases upsert_cases hb hmem hpl with ⟨hrow, j, hj, hjl, hjp⟩ | ⟨q, hq, hql, -⟩
  · have hbound := fun prev : ReplicaHubItem => prev.absorb_sources hub.conflict source p source
    simp only [if_pos] at hbound
    exact ⟨j, hj, hjl, p, hrow, hjp, _, _, hitem, hbound _, rfl, rfl,
      ReplicaHubItem.absorb_deleted _ _ _ _⟩
  · exact absurd ((resolves_iff hq.moved hql).mpr ⟨i, hi, hl⟩) hq.unmatched

/-- A stranded edit is left a pending create under its old handle. -/
theorem rebuilt_stranded
    (hb : Rebuilt (hub.spine collection source) links items rows survivors drops)
    (checkpoint : ReplicaCheckpoint) (hp : Stranded (hub.spine collection source) links items p) :
    ∃ row, (hub.absorb source (batchOps collection checkpoint rows survivors drops)).Bound
      collection source row ∧ Resurrects p row := by
  obtain ⟨own, item, b, hl, hitem, hbound, hrow, hh, hbase, hobject⟩ := (bound_of_spine hp.moved).reads
  have hsurvives := (hb.edits p).mpr hp
  obtain ⟨earlier, later, hsplit⟩ := List.append_of_mem hsurvives
  have hdistinct := hb.distinct
  rw [hsplit, List.pairwise_append, List.pairwise_cons] at hdistinct
  obtain ⟨-, ⟨hlater, -⟩, hearlier⟩ := hdistinct
  have hother : ∀ q ∈ survivors, q.handle ≠ p.handle → (resurrected q).linkId ≠ some own := by
    intro q hq hne hql
    have hqs := ((hb.edits q).mp hq).moved
    exact hne (congrArg _ (spine_unique hqs hp.moved (Eq.trans hql hl.symm)))
  have hbefore : ∀ q ∈ rows ++ earlier.map resurrected, q.linkId ≠ some own := by
    intro q hq
    rcases List.mem_append.mp hq with hrow | hedit
    · obtain ⟨i, hi, hholds⟩ := Listing.forall₂_mem_left hb.members.flip q hrow
      exact fun hql => hp.unmatched ((resolves_iff hp.moved hl).mpr
        ⟨i, hi, hholds.linkId.symm.trans hql⟩)
    · obtain ⟨e, he, rfl⟩ := List.mem_map.mp hedit
      refine hother e ?_ (hearlier e he p List.mem_cons_self)
      rw [hsplit]
      exact List.mem_append_left _ he
  have hafter : ∀ q ∈ later.map resurrected, q.linkId ≠ some own := by
    intro q hq
    obtain ⟨e, he, rfl⟩ := List.mem_map.mp hq
    refine hother e ?_ (hlater e he).symm
    rw [hsplit]
    exact List.mem_append_right _ (List.mem_cons_of_mem _ he)
  have hwrites : rows ++ survivors.map resurrected =
      (rows ++ earlier.map resurrected) ++ resurrected p :: later.map resurrected := by
    rw [hsplit]
    simp
  have hitem' := absorb_upserted hub source hb collection checkpoint hwrites hl hafter
  rw [ReplicaHub.upserts_of_ne hbefore, hitem, Option.getD_some] at hitem'
  have hbound' := item.absorb_sources hub.conflict source (resurrected p) source
  have hlive : (resurrected p).status ≠ .tombstone := by simp [resurrected]
  have hdeleted := item.absorb_deleted hub.conflict source (resurrected p)
  rw [if_pos rfl, if_neg hlive] at hbound'
  rw [decide_eq_false hlive] at hdeleted
  have hbody := item.absorb_same hub.conflict source hlive hobject
  obtain ⟨o, ho⟩ := Option.isSome_iff_exists.mp ((edited_iff p).mp hp.edited).2
  have hsome : p.object = some o := (ReplicaPlacement.stagedEdit_eq_some.mp ho).1
  generalize item.absorb hub.conflict source (resurrected p) = item' at *
  refine ⟨item'.boundPlacement collection own
      (ReplicaHubItem.bindingOf (resurrected p) item'.object), ⟨own, item', _, hitem', hbound', ?_⟩,
    ⟨rfl, hl.symm, hbody.trans hobject.symm, ?_, rfl⟩⟩
  · simp only [ReplicaHubItem.placement, hdeleted, hbound']
  · have hbody' : item'.object = some o := hbody.trans (hobject.symm.trans hsome)
    simp [ReplicaHubItem.boundPlacement, ReplicaHubItem.boundStatus, ReplicaHubItem.bindingOf,
      resurrected, hbody']

/-- A link id no member reports and no stranded edit holds is dropped with the handle it stood under,
unless a member reuses that. -/
theorem rebuilt_other (ha : hub.Apart source)
    (hb : Rebuilt (hub.spine collection source) links items rows survivors drops)
    (checkpoint : ReplicaCheckpoint) (hlink : ∀ i ∈ items, linkOf links i ≠ some link)
    (hedit : ∀ q, Stranded (hub.spine collection source) links items q → q.linkId ≠ some link) :
    (∃ p ∈ hub.spine collection source, p.linkId = some link ∧
        (∀ i ∈ items, i.handle ≠ p.handle) ∧ ∃ item, hub.items[link]? = some item ∧
          (hub.absorb source (batchOps collection checkpoint rows survivors drops)).items[link]? =
            (some { item with sources := item.sources.erase source }).filter
              (fun item => !item.sources.isEmpty)) ∨
      (∀ p ∈ hub.spine collection source, p.linkId = some link → ∃ i ∈ items, i.handle = p.handle) ∧
        (hub.absorb source (batchOps collection checkpoint rows survivors drops)).items[link]? =
          hub.items[link]?.filter (fun item => !item.sources.isEmpty) := by
  have hne : ∀ p ∈ rows ++ survivors.map resurrected, p.linkId ≠ some link := by
    intro p hp hl
    rcases upsert_cases hb hp hl with ⟨-, i, hi, hil, -⟩ | ⟨q, hq, hql, -⟩
    · exact hlink i hi hil
    · exact hedit q hq hql
  by_cases hgone : ∃ p ∈ hub.spine collection source, p.linkId = some link ∧
      ∀ i ∈ items, i.handle ≠ p.handle
  · obtain ⟨p, hp, hl, hfree⟩ := hgone
    obtain ⟨own, item, b, hown, hitem, hbound, -, hh, -⟩ := (bound_of_spine hp).reads
    rw [hl, Option.some.injEq] at hown
    subst hown
    have hdropped : p ∈ drops := by
      refine (hb.dropped p).mpr ⟨hp, hfree, ?_⟩
      intro q hq hqh
      have hqp := ha.unique (bound_of_spine hq.moved) (bound_of_spine hp) hqh
      exact hedit q hq (hqp ▸ hl)
    exact Or.inl ⟨p, hp, hl, hfree, item, hitem,
      absorb_dropped hub collection checkpoint hne hitem hbound hdropped hh⟩
  · push Not at hgone
    refine Or.inr ⟨hgone, absorb_kept hub source collection checkpoint hne ?_⟩
    intro b hbound q hq hh
    obtain ⟨hqs, hfree, -⟩ := (hb.dropped q).mp hq
    obtain ⟨item, hitem, hb'⟩ := Option.bind_eq_some_iff.mp hbound
    obtain ⟨row, hrow, hrl, hrh, -⟩ :=
      ReplicaHub.bound_of_binding collection hitem hb'
    have hqr := ha.unique (bound_of_spine hqs) hrow (hh.trans hrh.symm)
    obtain ⟨i, hi, hih⟩ := hgone q hqs (hqr ▸ hrl)
    exact hfree i hi hih

end Rebuild

end ReplicaRekey
end IoReplica

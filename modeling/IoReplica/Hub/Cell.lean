import IoReplica.Hub.Store

/-! What a source's writes make of one shared item: the upserts of the handle it is bound under, in
order, and nothing else. -/
namespace IoReplica

namespace ReplicaHub

/-- What one op leaves under a link id. -/
def cell (policy : ReplicaHubConflict) (source : ReplicaSourceId) (link : ReplicaLinkId)
    (item : Option ReplicaHubItem) : ReplicaWriteOp → Option ReplicaHubItem
  | .upsertPlacement p =>
    if p.linkId = some link then some ((item.getD (.ofPlacement p)).absorb policy source p)
    else item
  | .dropPlacement _ handle reason => item.map (·.dropBinding source handle reason)
  | .storeObject .. => item
  | .setCheckpoint .. => item

theorem absorbOp_get (hub : ReplicaHub) (source : ReplicaSourceId) (link : ReplicaLinkId)
    (op : ReplicaWriteOp) :
    (hub.absorbOp source op).items[link]? = cell hub.conflict source link hub.items[link]? op ∧
      (hub.absorbOp source op).conflict = hub.conflict := by
  cases op with
  | storeObject | setCheckpoint => exact ⟨rfl, rfl⟩
  | dropPlacement c handle reason =>
    refine ⟨?_, rfl⟩
    simp only [absorbOp, absorbDrop, cell, Std.ExtTreeMap.getElem?_map]
  | upsertPlacement p =>
    cases hl : p.linkId with
    | none => simp [absorbOp, absorbUpsert, cell, hl]
    | some own =>
      refine ⟨?_, by simp only [absorbOp, absorbUpsert, hl]⟩
      simp only [absorbOp, absorbUpsert, cell, hl, OrderedMap.get_insert, Option.some.injEq]
      split
      · rename_i heq
        rw [heq]
      · rfl

theorem absorbOps_get (hub : ReplicaHub) (source : ReplicaSourceId) (link : ReplicaLinkId)
    (ops : List ReplicaWriteOp) :
    (ops.foldl (fun hub op => hub.absorbOp source op) hub).items[link]? =
        ops.foldl (cell hub.conflict source link) hub.items[link]? ∧
      (ops.foldl (fun hub op => hub.absorbOp source op) hub).conflict = hub.conflict := by
  induction ops generalizing hub with
  | nil => exact ⟨rfl, rfl⟩
  | cons op ops ih =>
    obtain ⟨hget, hconflict⟩ := hub.absorbOp_get source link op
    obtain ⟨hrest, hconflict'⟩ := ih (hub.absorbOp source op)
    refine ⟨?_, hconflict'.trans hconflict⟩
    rw [List.foldl_cons, hrest, hconflict, hget]
    rfl

/-- A batch leaves under a link id what its ops do, unless no source holds it any more. -/
theorem absorb_get (hub : ReplicaHub) (source : ReplicaSourceId) (link : ReplicaLinkId)
    (ops : List ReplicaWriteOp) :
    (hub.absorb source ops).items[link]? =
        (ops.foldl (cell hub.conflict source link) hub.items[link]?).filter
          (fun item => !item.sources.isEmpty) ∧
      (hub.absorb source ops).conflict = hub.conflict := by
  obtain ⟨hget, hconflict⟩ := hub.absorbOps_get source link ops
  refine ⟨?_, hconflict⟩
  rw [← hget]
  exact Std.ExtTreeMap.getElem?_filter'

end ReplicaHub

namespace ReplicaHubItem

variable (policy : ReplicaHubConflict) (source : ReplicaSourceId)

/-- The item after a source's upserts of it, in order. -/
def absorbAll (item : ReplicaHubItem) (ps : List ReplicaPlacement) : ReplicaHubItem :=
  ps.foldl (fun item p => item.absorb policy source p) item

variable {policy source}

/-- An upsert binds its source under its own handle, and no other source. -/
theorem absorb_sources (policy : ReplicaHubConflict) (item : ReplicaHubItem)
    (source : ReplicaSourceId) (p : ReplicaPlacement) (other : ReplicaSourceId) :
    (item.absorb policy source p).sources[other]? =
      if source = other then
        some (bindingOf p (if p.status = .tombstone then item.sources[source]?.bind (·.sharedObject)
          else (item.absorb policy source p).object))
      else item.sources[other]? := by
  by_cases hp : p.status = .tombstone
  · simp only [absorb, if_pos hp, bind, OrderedMap.get_insert]
  · have hkept : (reconcileContent policy (item.refresh p) source p).sources = item.sources := by
      simp only [reconcileContent]
      split
      · cases policy <;> rfl
      · split <;> rfl
    simp only [absorb, if_neg hp, bind, OrderedMap.get_insert, hkept]

theorem absorb_bound (item : ReplicaHubItem) (p : ReplicaPlacement) :
    ((item.absorb policy source p).sources[source]?).map (·.handle) = some p.handle := by
  rw [absorb_sources, if_pos rfl]
  rfl

theorem dropBinding_of_ne {item : ReplicaHubItem} {handle : ReplicaHandle}
    (hne : item.boundTo source handle = false) (reason : ReplicaDropReason) :
    item.dropBinding source handle reason = item := by
  rw [boundTo] at hne
  simp [dropBinding, hne]

theorem boundTo_iff {item : ReplicaHubItem} {handle : ReplicaHandle} :
    item.boundTo source handle = true ↔
      (item.sources[source]?).map (·.handle) = some handle := by
  cases h : item.sources[source]? <;> simp [boundTo, h]

/-- What an item projects is keyed by its link id. -/
theorem placement_linkId {item : ReplicaHubItem} {collection : ReplicaCollectionId}
    {link : ReplicaLinkId} {p : ReplicaPlacement}
    (h : item.placement collection link source = some p) : p.linkId = some link := by
  simp only [placement] at h
  split at h
  · cases h
    rfl
  · cases h
  · cases h
    rfl
  · simp only [createdPlacement] at h
    split at h
    · cases h
      rfl
    · cases h

theorem sources_ne_empty {item : ReplicaHubItem} {handle : ReplicaHandle}
    (h : item.boundTo source handle = true) : (!item.sources.isEmpty) = true := by
  rw [boundTo_iff] at h
  rw [Bool.not_eq_true', ← Bool.not_eq_true, Std.ExtTreeMap.isEmpty_iff]
  intro hempty
  simp [hempty] at h

end ReplicaHubItem

theorem ReplicaHub.mem_project {hub : ReplicaHub} {collection : ReplicaCollectionId}
    {source : ReplicaSourceId} {p : ReplicaPlacement} :
    p ∈ hub.project collection source ↔ ∃ (link : ReplicaLinkId) (item : ReplicaHubItem),
      hub.items[link]? = some item ∧ item.placement collection link source = some p := by
  simp only [ReplicaHub.project, List.mem_filterMap, Prod.exists, OrderedMap.mem_toList_iff]

/-- A row projected under a link id is what the item under it makes of itself. -/
theorem ReplicaHub.project_reads {hub : ReplicaHub} {collection : ReplicaCollectionId}
    {source : ReplicaSourceId} {link : ReplicaLinkId} {p : ReplicaPlacement}
    (hp : p ∈ hub.project collection source) (hl : p.linkId = some link) :
    ∃ item, hub.items[link]? = some item ∧ item.placement collection link source = some p := by
  obtain ⟨own, item, hitem, hplaced⟩ := ReplicaHub.mem_project.mp hp
  have hkeyed := ReplicaHubItem.placement_linkId hplaced
  rw [hl, Option.some.injEq] at hkeyed
  subst hkeyed
  exact ⟨item, hitem, hplaced⟩

theorem ReplicaHub.project_linked {hub : ReplicaHub} {collection : ReplicaCollectionId}
    {source : ReplicaSourceId} {link : ReplicaLinkId} {item : ReplicaHubItem}
    {p : ReplicaPlacement} (hitem : hub.items[link]? = some item)
    (hp : p ∈ hub.project collection source) (hl : p.linkId = some link) :
    item.placement collection link source = some p := by
  obtain ⟨own, hown, hplaced⟩ := ReplicaHub.project_reads hp hl
  rw [hitem, Option.some.injEq] at hown
  rw [hown]
  exact hplaced

/-- The upserts of one handle, in order. -/
def ownRows (handle : ReplicaHandle) (ops : List ReplicaWriteOp) : List ReplicaPlacement :=
  ops.filterMap (fun op => match op with
    | .upsertPlacement p => if p.handle = handle then some p else none
    | _ => none)

theorem ownRows_upsert (handle : ReplicaHandle) (p : ReplicaPlacement) (ops : List ReplicaWriteOp) :
    ownRows handle (.upsertPlacement p :: ops) =
      if p.handle = handle then p :: ownRows handle ops else ownRows handle ops := by
  by_cases hp : p.handle = handle <;> simp [ownRows, hp]

theorem ownRows_append (handle : ReplicaHandle) (a b : List ReplicaWriteOp) :
    ownRows handle (a ++ b) = ownRows handle a ++ ownRows handle b := List.filterMap_append

theorem mem_ownRows {handle : ReplicaHandle} {ops : List ReplicaWriteOp} {p : ReplicaPlacement} :
    p ∈ ownRows handle ops ↔ .upsertPlacement p ∈ ops ∧ p.handle = handle := by
  rw [ownRows, List.mem_filterMap]
  constructor
  · rintro ⟨op, hop, hp⟩
    cases op with
    | upsertPlacement q =>
      dsimp only at hp
      split at hp
      · cases hp
        exact ⟨hop, by assumption⟩
      · cases hp
    | dropPlacement | storeObject | setCheckpoint => cases hp
  · rintro ⟨hop, rfl⟩
    exact ⟨_, hop, by simp⟩

/-- The ops leave an item to the upserts of one handle: no other row is written onto its link id,
and its own is neither dropped nor given another. -/
structure Confined (link : ReplicaLinkId) (handle : ReplicaHandle) (ops : List ReplicaWriteOp) :
    Prop where
  links : ∀ p, .upsertPlacement p ∈ ops → p.linkId = some link → p.handle = handle
  own : ∀ p, .upsertPlacement p ∈ ops → p.handle = handle → p.linkId = none ∨ p.linkId = some link
  kept : ∀ c reason, .dropPlacement c handle reason ∉ ops

theorem Confined.mono {link : ReplicaLinkId} {handle : ReplicaHandle} {ops ops' : List ReplicaWriteOp}
    (h : Confined link handle ops) (hsub : ∀ op ∈ ops', op ∈ ops) : Confined link handle ops' :=
  ⟨fun p hp => h.links p (hsub _ hp), fun p hp => h.own p (hsub _ hp),
    fun c reason hd => h.kept c reason (hsub _ hd)⟩

/-- The source holds the item, and no other one, under the handle. -/
structure ReplicaHub.Holds (hub : ReplicaHub) (source : ReplicaSourceId) (link : ReplicaLinkId)
    (handle : ReplicaHandle) (item : ReplicaHubItem) : Prop where
  shared : hub.items[link]? = some item
  bound : item.boundTo source handle = true
  alone : ∀ (other : ReplicaLinkId) (i : ReplicaHubItem), hub.items[other]? = some i →
    i.boundTo source handle = true → other = link

namespace ReplicaHub

variable {hub : ReplicaHub} {source : ReplicaSourceId} {link : ReplicaLinkId}
  {handle : ReplicaHandle} {item : ReplicaHubItem}

/-- An op of the item is keyed: it names its link and its handle together, or neither. -/
def Keyed (link : ReplicaLinkId) (handle : ReplicaHandle) : ReplicaWriteOp → Prop
  | .upsertPlacement p => p.linkId = some link ↔ p.handle = handle
  | .dropPlacement _ g _ => g ≠ handle
  | .storeObject .. => True
  | .setCheckpoint .. => True

theorem Holds.absorbOp (h : hub.Holds source link handle item) {op : ReplicaWriteOp}
    (hop : Keyed link handle op) :
    (hub.absorbOp source op).Holds source link handle
      (item.absorbAll hub.conflict source (ownRows handle [op])) := by
  have hget := fun l => (hub.absorbOp_get source l op).1
  cases op with
  | storeObject | setCheckpoint => exact h
  | dropPlacement c g reason =>
    have hg : item.boundTo source g = false := by
      have hb := h.bound
      rw [ReplicaHubItem.boundTo_iff] at hb
      rw [← Bool.not_eq_true, ReplicaHubItem.boundTo_iff, hb]
      exact fun heq => hop (Option.some.inj heq).symm
    refine ⟨?_, h.bound, ?_⟩
    · rw [hget, h.shared]
      exact congrArg some (ReplicaHubItem.dropBinding_of_ne hg reason)
    · intro other i hi hbound
      rw [hget] at hi
      obtain ⟨old, hold, rfl⟩ := Option.map_eq_some_iff.mp hi
      refine h.alone other old hold ?_
      simp only [ReplicaHubItem.dropBinding] at hbound
      split at hbound
      · simp [ReplicaHubItem.boundTo] at hbound
      · exact hbound
  | upsertPlacement p =>
    by_cases hp : p.handle = handle
    · have hlink := hop.mpr hp
      have hown : ownRows handle [.upsertPlacement p] = [p] := by simp [ownRows, hp]
      rw [hown]
      refine ⟨?_, ?_, ?_⟩
      · rw [hget, h.shared]
        simp only [cell, if_pos hlink]
        rfl
      · rw [ReplicaHubItem.boundTo_iff, ← hp]
        exact ReplicaHubItem.absorb_bound item p
      · intro other i hi hbound
        rw [hget] at hi
        by_cases hother : p.linkId = some other
        · rw [hlink] at hother
          exact (Option.some.inj hother).symm
        · simp only [cell, if_neg hother] at hi
          exact h.alone other i hi hbound
    · have hlink : p.linkId ≠ some link := fun hl => hp (hop.mp hl)
      have hown : ownRows handle [.upsertPlacement p] = [] := by simp [ownRows, hp]
      rw [hown]
      refine ⟨?_, h.bound, ?_⟩
      · rw [hget]
        simp only [cell, if_neg hlink]
        exact h.shared
      · intro other i hi hbound
        rw [hget] at hi
        by_cases hother : p.linkId = some other
        · simp only [cell, if_pos hother, Option.some.injEq] at hi
          rw [← hi, ReplicaHubItem.boundTo_iff, ReplicaHubItem.absorb_bound] at hbound
          exact absurd (Option.some.inj hbound) hp
        · simp only [cell, if_neg hother] at hi
          exact h.alone other i hi hbound

theorem Holds.absorbOps {ops : List ReplicaWriteOp} (h : hub.Holds source link handle item)
    (hops : ∀ op ∈ ops, Keyed link handle op) :
    (ops.foldl (fun hub op => hub.absorbOp source op) hub).Holds source link handle
      (item.absorbAll hub.conflict source (ownRows handle ops)) := by
  induction ops generalizing hub item with
  | nil => exact h
  | cons op ops ih =>
    have hone := h.absorbOp (hops op List.mem_cons_self)
    have hrest := ih hone (fun o ho => hops o (List.mem_cons_of_mem _ ho))
    have hsplit : ownRows handle (op :: ops) = ownRows handle [op] ++ ownRows handle ops :=
      ownRows_append handle [op] ops
    rw [(hub.absorbOp_get source link op).2] at hrest
    rw [hsplit, ReplicaHubItem.absorbAll, List.foldl_append]
    exact hrest

/-- Pruning spares an item its source holds. -/
theorem Holds.absorb {ops : List ReplicaWriteOp} (h : hub.Holds source link handle item)
    (hops : ∀ op ∈ ops, Keyed link handle op) :
    (hub.absorb source ops).Holds source link handle
      (item.absorbAll hub.conflict source (ownRows handle ops)) := by
  have hfold := h.absorbOps hops
  have hget := fun l => (hub.absorb_get source l ops).1
  have hraw := fun l => (hub.absorbOps_get source l ops).1
  refine ⟨?_, hfold.bound, ?_⟩
  · rw [hget, ← hraw, hfold.shared, Option.filter_some,
      if_pos (ReplicaHubItem.sources_ne_empty hfold.bound)]
  · intro other i hi hbound
    rw [hget, ← hraw, Option.filter_eq_some_iff] at hi
    exact hfold.alone other i hi.1 hbound

/-- The link id a held handle is keyed back to, and no other handle is. -/
theorem Holds.linkOf (h : hub.Holds source link handle item) (g : ReplicaHandle) :
    hub.linkOf source g = some link ↔ g = handle := by
  rw [ReplicaHub.linkOf]
  constructor
  · intro hl
    obtain ⟨e, he, hlink⟩ := Option.map_eq_some_iff.mp hl
    have hbound : e.2.boundTo source g = true := by simpa using List.find?_some he
    have hmem := List.mem_of_find?_eq_some he
    have hget := (OrderedMap.mem_toList_iff hub.items e.1 e.2).mp hmem
    rw [hlink, h.shared] at hget
    have hown := h.bound
    rw [Option.some.inj hget] at hown
    rw [ReplicaHubItem.boundTo_iff] at hbound hown
    exact Option.some.inj (hbound.symm.trans hown)
  · rintro rfl
    cases hf : hub.items.toList.find? (fun e => e.2.boundTo source g) with
    | none =>
      have hnone := List.find?_eq_none.mp hf (link, item)
        ((OrderedMap.mem_toList_iff _ _ _).mpr h.shared)
      exact absurd h.bound hnone
    | some e =>
      have hbound : e.2.boundTo source g = true := by simpa using List.find?_some hf
      have hmem := (OrderedMap.mem_toList_iff _ _ _).mp (List.mem_of_find?_eq_some hf)
      rw [Option.map_some, h.alone e.1 e.2 hmem hbound]

end ReplicaHub

namespace HubStore

/-- Absorbing a row never reads the link id it was keyed by. -/
theorem absorbAll_keyBack (hub : ReplicaHub) (source : ReplicaSourceId)
    (policy : ReplicaHubConflict) (handle : ReplicaHandle) (item : ReplicaHubItem)
    (ops : List ReplicaWriteOp) :
    item.absorbAll policy source (ownRows handle (ops.map (keyBack hub source))) =
      item.absorbAll policy source (ownRows handle ops) := by
  induction ops generalizing item with
  | nil => rfl
  | cons op ops ih =>
    cases op with
    | storeObject | setCheckpoint | dropPlacement => exact ih item
    | upsertPlacement p =>
      have hlinked : ∀ (link : Option ReplicaLinkId) (item : ReplicaHubItem),
          item.absorb policy source { p with linkId := link } = item.absorb policy source p :=
        fun _ _ => rfl
      rw [List.map_cons, ownRows_upsert]
      simp only [keyBack]
      rw [ownRows_upsert]
      by_cases hl : p.linkId.isNone = true
      · rw [if_pos hl]
        by_cases hp : p.handle = handle
        · rw [if_pos hp, if_pos hp]
          have hrest := ih (item.absorb policy source p)
          rw [← hlinked (hub.linkOf source p.handle)] at hrest
          exact hrest.trans (by rw [hlinked]; rfl)
        · rw [if_neg hp, if_neg hp]
          exact ih item
      · rw [if_neg hl]
        by_cases hp : p.handle = handle
        · rw [if_pos hp, if_pos hp]
          exact ih (item.absorb policy source p)
        · rw [if_neg hp, if_neg hp]
          exact ih item

/-- Keying a batch back keys every op of an item the source holds. -/
theorem keyBack_keyed {hub : ReplicaHub} {source : ReplicaSourceId} {link : ReplicaLinkId}
    {handle : ReplicaHandle} {item : ReplicaHubItem} {ops : List ReplicaWriteOp}
    (hc : Confined link handle ops) (h : hub.Holds source link handle item) :
    ∀ op ∈ ops.map (keyBack hub source), ReplicaHub.Keyed link handle op := by
  intro op hop
  obtain ⟨op, hin, rfl⟩ := List.mem_map.mp hop
  cases op with
  | storeObject | setCheckpoint => trivial
  | dropPlacement c g reason =>
    rintro rfl
    exact hc.kept c reason hin
  | upsertPlacement p =>
    cases hl : p.linkId with
    | none =>
      simp only [keyBack, hl, Option.isNone_none, if_true, ReplicaHub.Keyed]
      exact h.linkOf p.handle
    | some own =>
      simp only [keyBack, hl, Option.isNone_some, Bool.false_eq_true, if_false, ReplicaHub.Keyed]
      constructor
      · exact fun he => hc.links p hin (hl.trans he)
      · intro hp
        rcases hc.own p hin hp with hnone | hsome
        · rw [hl] at hnone
          cases hnone
        · exact hl.symm.trans hsome

end HubStore

namespace HubStore

variable {source : ReplicaSourceId} {link : ReplicaLinkId} {handle : ReplicaHandle}

/-- A batch of the source moves an item it holds by the upserts of its handle. -/
theorem write_holds {s : HubStore} {item : ReplicaHubItem}
    (h : s.hub.Holds source link handle item) (ops : List ReplicaWriteOp)
    (hc : Confined link handle ops) :
    (s.write source ops).hub.Holds source link handle
      (item.absorbAll s.hub.conflict source (ownRows handle ops)) := by
  rw [← absorbAll_keyBack s.hub source]
  exact h.absorb (keyBack_keyed hc h)

/-- A run leaves the store its batches do, whatever the remote answered. -/
theorem attends_batches {s s' : HubStore} {t : Transcript}
    (h : Coroutine.Attends (service source) s t s') :
    s' = t.batches.foldl (fun s ops => s.write source ops) s := by
  induction h with
  | nil => rfl
  | @own s s' s'' y a t serves rest ih =>
    cases y with
    | wantsLoad | wantsLookupObject =>
      cases serves
      exact ih
    | wantsWrite ops =>
      cases serves
      exact ih
    | wantsEnumerate | wantsFetch | wantsPush => cases serves
  | @other s s' y a t passes rest ih =>
    cases y with
    | wantsLoad | wantsLookupObject | wantsWrite => cases passes
    | wantsEnumerate | wantsFetch | wantsPush => exact ih

/-- A whole run moves an item its source holds by the upserts of its handle. -/
theorem attends_holds {s s' : HubStore} {t : Transcript}
    (h : Coroutine.Attends (service source) s t s') {item : ReplicaHubItem}
    (hi : s.hub.Holds source link handle item) (hc : Confined link handle t.writes) :
    s'.hub.Holds source link handle
        (item.absorbAll s.hub.conflict source (ownRows handle t.writes)) ∧
      s'.hub.conflict = s.hub.conflict := by
  rw [attends_batches h]
  rw [← Transcript.flatten_batches] at hc ⊢
  generalize t.batches = batches at hc
  clear h
  induction batches generalizing s item with
  | nil => exact ⟨hi, rfl⟩
  | cons ops batches ih =>
    have hone := write_holds hi ops (hc.mono (fun op hop => by
      rw [List.flatten_cons]
      exact List.mem_append_left _ hop))
    have hpolicy : (s.write source ops).hub.conflict = s.hub.conflict :=
      (s.hub.absorb_get source link _).2
    obtain ⟨hrest, hconflict⟩ := ih hone (hc.mono (fun op hop => by
      rw [List.flatten_cons]
      exact List.mem_append_right _ hop))
    refine ⟨?_, hconflict.trans hpolicy⟩
    rw [List.flatten_cons, ownRows_append, ReplicaHubItem.absorbAll, List.foldl_append]
    rw [hpolicy] at hrest
    exact hrest

/-- The first exchange of a run over the store is a load of it. -/
theorem attends_load {s s' : HubStore} {t : Transcript} {collection : ReplicaCollectionId}
    {scope : ReplicaLoadScope} {loaded : ReplicaLoaded}
    (h : Coroutine.Attends (service source) s ((.wantsLoad collection scope, .load loaded) :: t) s') :
    loaded = s.load source collection ∧ Coroutine.Attends (service source) s t s' := by
  cases h with
  | own serves rest =>
    cases serves
    exact ⟨rfl, rest⟩
  | other passes _ => cases passes

end HubStore
end IoReplica

import IoReplica.Hub.Cell

/-! Sequences of absorbs: what happens, step by step, to the item under one link id. -/
namespace IoReplica
namespace ReplicaHub

/-- Batches of any sources folded back, in order. -/
def absorbs (hub : ReplicaHub) (batches : List (ReplicaSourceId × List ReplicaWriteOp)) :
    ReplicaHub :=
  batches.foldl (fun hub batch => hub.absorb batch.1 batch.2) hub

/-- The binding of a source under a link id. -/
def binding (hub : ReplicaHub) (link : ReplicaLinkId) (source : ReplicaSourceId) :
    Option ReplicaSourceBinding :=
  hub.items[link]?.bind (·.sources[source]?)

/-- One step in the life of an item: an op of some source, or the prune that ends its batch. -/
inductive ItemStep
  | op (source : ReplicaSourceId) (op : ReplicaWriteOp)
  | prune

namespace ItemStep

/-- What a step leaves under a link id. -/
def run (policy : ReplicaHubConflict) (link : ReplicaLinkId) (item : Option ReplicaHubItem) :
    ItemStep → Option ReplicaHubItem
  | .op source write => cell policy source link item write
  | .prune => item.filter (fun item => !item.sources.isEmpty)

/-- Is the step another source's, or no source's? -/
def Foreign (source : ReplicaSourceId) : ItemStep → Prop
  | .op other _ => other ≠ source
  | .prune => True

end ItemStep

/-- The steps of a sequence of absorbs. -/
def itemSteps (batches : List (ReplicaSourceId × List ReplicaWriteOp)) : List ItemStep :=
  batches.flatMap (fun batch => batch.2.map (.op batch.1) ++ [.prune])

/-- A sequence of absorbs leaves under a link id what its steps do. -/
theorem absorbs_get (hub : ReplicaHub) (link : ReplicaLinkId)
    (batches : List (ReplicaSourceId × List ReplicaWriteOp)) :
    (hub.absorbs batches).items[link]? =
        (itemSteps batches).foldl (ItemStep.run hub.conflict link) hub.items[link]? ∧
      (hub.absorbs batches).conflict = hub.conflict := by
  induction batches generalizing hub with
  | nil => exact ⟨rfl, rfl⟩
  | cons batch batches ih =>
    obtain ⟨hget, hconflict⟩ := hub.absorb_get batch.1 link batch.2
    obtain ⟨hrest, hconflict'⟩ := ih (hub.absorb batch.1 batch.2)
    have hops : ∀ (ops : List ReplicaWriteOp) (item : Option ReplicaHubItem),
        (ops.map (ItemStep.op batch.1)).foldl (ItemStep.run hub.conflict link) item =
          ops.foldl (cell hub.conflict batch.1 link) item := by
      intro ops item
      rw [List.foldl_map]
      rfl
    refine ⟨?_, hconflict'.trans hconflict⟩
    have hsplit : itemSteps (batch :: batches) =
        batch.2.map (.op batch.1) ++ [.prune] ++ itemSteps batches := rfl
    rw [hsplit, List.foldl_append, List.foldl_append, hops]
    have hstep : (hub.absorbs (batch :: batches)).items[link]? =
        ((hub.absorb batch.1 batch.2).absorbs batches).items[link]? := rfl
    rw [hstep, hrest, hconflict, hget]
    rfl

/-- What every step keeps of an item it leaves standing, a whole sequence keeps. -/
theorem steps_keep {P : ReplicaHubItem → Prop} {policy : ReplicaHubConflict} {link : ReplicaLinkId}
    {steps : List ItemStep}
    (hstep : ∀ step ∈ steps, ∀ item, P item →
      ∃ item', step.run policy link (some item) = some item' ∧ P item')
    {item : ReplicaHubItem} (h : P item) :
    ∃ item', steps.foldl (ItemStep.run policy link) (some item) = some item' ∧ P item' := by
  induction steps generalizing item with
  | nil => exact ⟨item, rfl, h⟩
  | cons step steps ih =>
    obtain ⟨next, hnext, hp⟩ := hstep step List.mem_cons_self item h
    rw [List.foldl_cons, hnext]
    exact ih (fun s hs => hstep s (List.mem_cons_of_mem _ hs)) hp

theorem foreign_itemSteps {source : ReplicaSourceId}
    {batches : List (ReplicaSourceId × List ReplicaWriteOp)} (h : ∀ b ∈ batches, b.1 ≠ source) :
    ∀ step ∈ itemSteps batches, step.Foreign source := by
  intro step hstep
  rw [itemSteps, List.mem_flatMap] at hstep
  obtain ⟨batch, hbatch, hstep⟩ := hstep
  rcases List.mem_append.mp hstep with hop | hprune
  · obtain ⟨op, -, rfl⟩ := List.mem_map.mp hop
    exact h batch hbatch
  · cases List.mem_singleton.mp hprune
    trivial

/-- A prune takes nothing a source is bound to. -/
theorem prune_bound (policy : ReplicaHubConflict) (link : ReplicaLinkId) {item : ReplicaHubItem}
    {source : ReplicaSourceId} {own : ReplicaSourceBinding}
    (hb : item.sources[source]? = some own) :
    ItemStep.prune.run policy link (some item) = some item := by
  have hbound : item.boundTo source own.handle = true :=
    ReplicaHubItem.boundTo_iff.mpr (by rw [hb]; rfl)
  rw [ItemStep.run, Option.filter_some, if_pos (ReplicaHubItem.sources_ne_empty hbound)]

/-- A source's binding is changed by its own ops alone. -/
theorem Foreign.sources {policy : ReplicaHubConflict} {link : ReplicaLinkId}
    {source : ReplicaSourceId} {step : ItemStep} (h : step.Foreign source)
    (item : Option ReplicaHubItem) :
    (step.run policy link item).bind (·.sources[source]?) = item.bind (·.sources[source]?) := by
  cases step with
  | prune =>
    cases item with
    | none => rfl
    | some item =>
      cases hb : item.sources[source]? with
      | some own => rw [prune_bound policy link hb]
      | none =>
        rw [ItemStep.run, Option.filter_some]
        split
        · rfl
        · rw [Option.bind_none, Option.bind_some, hb]
  | op other op =>
    have hne : other ≠ source := h
    cases op with
    | storeObject | setCheckpoint => rfl
    | dropPlacement c handle reason =>
      cases item with
      | none => rfl
      | some item =>
        simp only [ItemStep.run, cell, Option.map_some, Option.bind_some,
          ReplicaHubItem.dropBinding]
        split
        · exact OrderedMap.get_erase_of_ne _ hne
        · rfl
    | upsertPlacement p =>
      simp only [ItemStep.run, cell]
      split
      · rw [Option.bind_some, ReplicaHubItem.absorb_sources, if_neg hne]
        cases item with
        | none => simp [ReplicaHubItem.ofPlacement]
        | some item => rfl
      · rfl

theorem foreign_sources {policy : ReplicaHubConflict} {link : ReplicaLinkId}
    {source : ReplicaSourceId} {steps : List ItemStep} (h : ∀ step ∈ steps, step.Foreign source)
    (item : Option ReplicaHubItem) :
    (steps.foldl (ItemStep.run policy link) item).bind (·.sources[source]?) =
      item.bind (·.sources[source]?) := by
  induction steps generalizing item with
  | nil => rfl
  | cons step steps ih =>
    rw [List.foldl_cons, ih (fun s hs => h s (List.mem_cons_of_mem _ hs))]
    exact Foreign.sources (h step List.mem_cons_self) item

end ReplicaHub
end IoReplica

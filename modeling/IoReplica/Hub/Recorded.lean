import IoReplica.Hub.Settled

/-! The one slot a cross-source divergence is recorded in, over sequences of absorbs by any number of
sources. -/
namespace IoReplica

namespace ReplicaHubItem

/-- The source has spoken: it changed its body, or leaves its conflict with its own remote. -/
def Speaks (item : ReplicaHubItem) (source : ReplicaSourceId) (p : ReplicaPlacement) : Prop :=
  p.status ≠ .tombstone ∧
    (p.object ≠ item.syncedObject source ∨ item.resolving source p = true) ∧ p.object ≠ item.object

/-- The upsert speaks over a shared body its source never agreed with. -/
def Diverges (item : ReplicaHubItem) (source : ReplicaSourceId) (p : ReplicaPlacement) : Prop :=
  item.Speaks source p ∧ item.object ≠ item.agreedObject source ∧
    p.object.isSome ∧ item.object.isSome

/-- The upsert speaks over the shared body its source agreed with. -/
def Adopts (item : ReplicaHubItem) (source : ReplicaSourceId) (p : ReplicaPlacement) : Prop :=
  item.Speaks source p ∧ item.object = item.agreedObject source

instance (item : ReplicaHubItem) (source : ReplicaSourceId) (p : ReplicaPlacement) :
    Decidable (item.Speaks source p) := inferInstanceAs (Decidable (_ ∧ _))

instance (item : ReplicaHubItem) (source : ReplicaSourceId) (p : ReplicaPlacement) :
    Decidable (item.Diverges source p) := inferInstanceAs (Decidable (_ ∧ _))

/-- What an upsert makes of the conflict slot under `Manual`. -/
theorem absorb_manual (item : ReplicaHubItem) (source : ReplicaSourceId) (p : ReplicaPlacement) :
    (item.Diverges source p ∧ ¬ item.Adopts source p ∧
        (item.absorb .manual source p).conflicted = true ∧
        (item.absorb .manual source p).conflictObject = p.object) ∨
      (item.Adopts source p ∧ ¬ item.Diverges source p ∧
        (item.absorb .manual source p).conflicted = false ∧
        (item.absorb .manual source p).conflictObject = none ∧
        (item.absorb .manual source p).object = p.object) ∨
      (¬ item.Diverges source p ∧ ¬ item.Adopts source p ∧
        (item.absorb .manual source p).conflictObject = item.conflictObject) := by
  by_cases hp : p.status = .tombstone
  · refine Or.inr (Or.inr ⟨fun h => h.1.1 hp, fun h => h.1.1 hp, ?_⟩)
    rw [absorb, if_pos hp]
    rfl
  obtain ⟨hobject, hconflicted, hslot⟩ := item.absorb_live .manual source hp
  have hsynced : (item.refresh p).syncedObject source = item.syncedObject source := rfl
  have hagreed : (item.refresh p).agreedObject source = item.agreedObject source := rfl
  have hresolving : (item.refresh p).resolving source p = item.resolving source p := rfl
  have hshared : (item.refresh p).object = item.object := rfl
  rw [hobject, hconflicted, hslot]
  simp only [reconcileContent, hsynced, hagreed, hresolving, hshared]
  by_cases hd : item.Diverges source p
  · obtain ⟨⟨-, hspoken, hchanged⟩, hmoved, hbody, hsome⟩ := id hd
    refine Or.inl ⟨hd, fun h => hmoved h.2, ?_⟩
    rcases hspoken with hs | hs <;> simp [hs, hchanged, hmoved, hbody, hsome]
  · by_cases ha : item.Adopts source p
    · obtain ⟨⟨-, hspoken, hchanged⟩, hsame⟩ := id ha
      refine Or.inr (Or.inl ⟨ha, hd, ?_⟩)
      rw [← hsame]
      rcases hspoken with hs | hs <;> simp [hs, hchanged]
    · refine Or.inr (Or.inr ⟨hd, ha, ?_⟩)
      split
      · rename_i hall
        simp only [Bool.and_eq_true, Bool.or_eq_true, decide_eq_true_eq] at hall
        exact absurd ⟨⟨hp, hall.1.1.1.1, hall.1.1.2⟩, hall.1.1.1.2, hall.1.2, hall.2⟩ hd
      · split
        · rename_i hall
          simp only [Bool.and_eq_true, Bool.or_eq_true, decide_eq_true_eq, Bool.not_eq_true',
            decide_eq_false_iff_not, not_not] at hall
          exact absurd ⟨⟨hp, hall.1.1, hall.2⟩, hall.1.2⟩ ha
        · rfl

/-- Every body the item still holds somewhere. -/
def bodies (item : ReplicaHubItem) : List ReplicaHash :=
  item.object.toList ++ item.conflictObject.toList ++ item.sources.toList.flatMap (fun e =>
    (e.2.base.bind (·.object)).toList ++ e.2.conflictObject.toList ++ e.2.sharedObject.toList)

end ReplicaHubItem

namespace ReplicaHub

/-- The item under a link id, beside the source whose upsert last recorded its diverging body. -/
structure Recording where
  item : Option ReplicaHubItem
  recorder : Option ReplicaSourceId

namespace Recording

/-- An upsert that diverges makes its source the recorder. -/
def step (link : ReplicaLinkId) (r : Recording) (step : ItemStep) : Recording where
  item := step.run .manual link r.item
  recorder :=
    match step with
    | .op source (.upsertPlacement p) =>
      if p.linkId = some link ∧ (r.item.getD (.ofPlacement p)).Diverges source p then some source
      else r.recorder
    | _ => r.recorder

/-- The recording a sequence of steps leaves, from an empty hub. -/
def after (link : ReplicaLinkId) (steps : List ItemStep) : Recording :=
  steps.foldl (Recording.step link) ⟨none, none⟩

theorem after_item (link : ReplicaLinkId)
    (batches : List (ReplicaSourceId × List ReplicaWriteOp)) :
    (after link (itemSteps batches)).item =
      ((ReplicaHub.empty .manual).absorbs batches).items[link]? := by
  have hfold : ∀ (steps : List ItemStep) (r : Recording),
      (steps.foldl (Recording.step link) r).item =
        steps.foldl (ItemStep.run .manual link) r.item := by
    intro steps
    induction steps with
    | nil => exact fun r => rfl
    | cons s steps ih => exact fun r => ih (r.step link s)
  rw [((ReplicaHub.empty .manual).absorbs_get link batches).1, after, hfold]
  simp [ReplicaHub.empty]

/-- The step leaves a recorded divergence to those who may settle it. -/
structure Kept (link : ReplicaLinkId) (r : Recording) (step : ItemStep) : Prop where
  held : ∀ item body item' source p, r.item = some item → item.conflictObject = some body →
    step.run .manual link r.item = some item' → step = .op source (.upsertPlacement p) →
    p.linkId = some link → item.Diverges source p → r.recorder ≠ some source → body ∈ item'.bodies
  slot : ∀ item body item', r.item = some item → item.conflictObject = some body →
    step.run .manual link r.item = some item' → item'.conflictObject = some body ∨
      ∃ source p, step = .op source (.upsertPlacement p) ∧ p.linkId = some link ∧
        (item'.conflicted = false ∧ item'.object = p.object ∧ p.object.isSome ∨
          item'.conflicted = true ∧ r.recorder = some source)

/-- No step meets a recorded divergence as an upsert of another source that diverges with another
body, or as one without a body that its source's agreement has adopted. -/
def Spares (link : ReplicaLinkId) (r : Recording) (step : ItemStep) : Prop :=
  ∀ item body source p, r.item = some item → item.conflictObject = some body →
    step = .op source (.upsertPlacement p) → p.linkId = some link →
      (item.Diverges source p → p.object = some body ∨ r.recorder = some source) ∧
        (item.Adopts source p → p.object.isSome)

theorem kept_of_slot {link : ReplicaLinkId} {r : Recording} {step : ItemStep}
    (h : ∀ item body item', r.item = some item → item.conflictObject = some body →
      step.run .manual link r.item = some item' → item'.conflictObject = some body ∨
        ∃ source p, step = .op source (.upsertPlacement p) ∧ p.linkId = some link ∧
          (item'.conflicted = false ∧ item'.object = p.object ∧ p.object.isSome ∨
            item'.conflicted = true ∧ r.recorder = some source)) : r.Kept link step := by
  refine ⟨?_, h⟩
  rintro item body item' source p hitem hbody hrun rfl hlink hdiverges hother
  rcases h item body item' hitem hbody hrun with hslot | ⟨source', p', heq, -, hsettled⟩
  · simp [ReplicaHubItem.bodies, hslot]
  · cases heq
    rw [hitem, ItemStep.run, cell, if_pos hlink, Option.getD_some, Option.some.injEq] at hrun
    rcases hsettled with ⟨hcleared, -⟩ | ⟨-, hown⟩
    · rcases item.absorb_manual source p with ⟨-, -, hset, -⟩ | ⟨-, hno, -⟩ | ⟨hno, -⟩
      · rw [hrun, hcleared] at hset
        cases hset
      · exact absurd hdiverges hno
      · exact absurd hdiverges hno
    · exact absurd hown hother

theorem kept_iff (link : ReplicaLinkId) (r : Recording) (step : ItemStep) :
    r.Kept link step ↔ r.Spares link step := by
  constructor
  · rintro h item body source p hitem hbody rfl hlink
    have hrun : (ItemStep.op source (.upsertPlacement p)).run .manual link r.item =
        some (item.absorb .manual source p) := by
      rw [hitem, ItemStep.run, cell, if_pos hlink, Option.getD_some]
    have hslot := h.slot item body _ hitem hbody hrun
    rcases item.absorb_manual source p with
      ⟨-, hno, hset, hrecorded⟩ | ⟨-, hno, hcleared, hnone, -⟩ | ⟨hno, hno', -⟩
    · refine ⟨fun _ => ?_, fun ha => absurd ha hno⟩
      rcases hslot with hslot | ⟨source', p', heq, -, ⟨hcleared, -⟩ | ⟨-, hown⟩⟩
      · exact Or.inl (hrecorded.symm.trans hslot)
      · rw [hset] at hcleared
        cases hcleared
      · cases heq
        exact Or.inr hown
    · refine ⟨fun hd => absurd hd hno, fun _ => ?_⟩
      rcases hslot with hslot | ⟨source', p', heq, -, ⟨-, -, hsome⟩ | ⟨hset, -⟩⟩
      · rw [hnone] at hslot
        cases hslot
      · cases heq
        exact hsome
      · rw [hcleared] at hset
        cases hset
    · exact ⟨fun hd => absurd hd hno, fun ha => absurd ha hno'⟩
  · intro h
    refine kept_of_slot ?_
    intro item body item' hitem hbody hrun
    cases step with
    | prune =>
      rw [hitem, ItemStep.run, Option.filter_some] at hrun
      split at hrun
      · cases hrun
        exact Or.inl hbody
      · cases hrun
    | op source write =>
      cases write with
      | storeObject | setCheckpoint =>
        rw [hitem] at hrun
        cases hrun
        exact Or.inl hbody
      | dropPlacement c handle reason =>
        rw [hitem, ItemStep.run, cell, Option.map_some, Option.some.injEq] at hrun
        refine Or.inl ?_
        rw [← hrun, ReplicaHubItem.dropBinding]
        split <;> exact hbody
      | upsertPlacement p =>
        by_cases hlink : p.linkId = some link
        · obtain ⟨hother, hbodied⟩ := h item body source p hitem hbody rfl hlink
          rw [hitem, ItemStep.run, cell, if_pos hlink, Option.getD_some, Option.some.injEq] at hrun
          rw [← hrun]
          rcases item.absorb_manual source p with
            ⟨hd, -, hset, hrecorded⟩ | ⟨ha, -, hcleared, -, hadopted⟩ | ⟨-, -, hkept⟩
          · rcases hother hd with hsame | hown
            · exact Or.inl (hrecorded.trans hsame)
            · exact Or.inr ⟨source, p, rfl, hlink, Or.inr ⟨hset, hown⟩⟩
          · exact Or.inr ⟨source, p, rfl, hlink, Or.inl ⟨hcleared, hadopted, hbodied ha⟩⟩
          · exact Or.inl (hkept.trans hbody)
        · rw [hitem, ItemStep.run, cell, if_neg hlink, Option.some.injEq] at hrun
          rw [← hrun]
          exact Or.inl hbody

end Recording

/-- Under `Manual` a recorded divergence outlasts the absorbs of any number of sources exactly when no
other source diverges with another body while it stands, and no adopted upsert comes without one. -/
theorem divergence_kept_iff (batches : List (ReplicaSourceId × List ReplicaWriteOp))
    (link : ReplicaLinkId) :
    (Recording.after link (itemSteps batches)).item =
        ((ReplicaHub.empty .manual).absorbs batches).items[link]? ∧
      ((∀ before step rest, itemSteps batches = before ++ step :: rest →
          (Recording.after link before).Kept link step) ↔
        ∀ before step rest, itemSteps batches = before ++ step :: rest →
          (Recording.after link before).Spares link step) := by
  refine ⟨Recording.after_item link batches, ?_⟩
  constructor
  · intro h before step rest hsplit
    exact (Recording.kept_iff link _ step).mp (h before step rest hsplit)
  · intro h before step rest hsplit
    exact (Recording.kept_iff link _ step).mpr (h before step rest hsplit)

/-- Three sources edit one shared card to three bodies. -/
def threeEdits : List (ReplicaSourceId × List ReplicaWriteOp) :=
  let sources : List (ReplicaSourceId × ReplicaHash) :=
    [(⟨"left"⟩, ⟨"first"⟩), (⟨"middle"⟩, ⟨"second"⟩), (⟨"right"⟩, ⟨"third"⟩)]
  let row (handle : String) (status : ReplicaStatus) (object : ReplicaHash) : ReplicaWriteOp :=
    .upsertPlacement (cardRow ⟨handle⟩ status (some object) (some ⟨"old"⟩))
  sources.map (fun s => (s.1, [row s.1.asStr .clean ⟨"old"⟩])) ++
    sources.map (fun s => (s.1, [row s.1.asStr .dirty s.2]))

/-- The third body takes the slot of the second, which the item then holds nowhere. -/
theorem third_edit_overwrites :
    ¬ (∀ before step rest, itemSteps threeEdits = before ++ step :: rest →
        (Recording.after ⟨"ada"⟩ before).Kept ⟨"ada"⟩ step) ∧
      ((ReplicaHub.empty .manual).absorbs threeEdits).items[(⟨"ada"⟩ : ReplicaLinkId)]?.any
        (fun item => item.conflicted && decide (⟨"second"⟩ ∉ item.bodies)) = true := by
  refine ⟨?_, by decide +kernel⟩
  intro h
  let before := (itemSteps threeEdits).take 10
  let third := cardRow ⟨"right"⟩ .dirty (some ⟨"third"⟩) (some ⟨"old"⟩)
  have hkept := h before (.op ⟨"right"⟩ (.upsertPlacement third)) [.prune] rfl
  have hstands : (Recording.after ⟨"ada"⟩ before).item.any (fun item =>
      decide (item.conflictObject = some ⟨"second"⟩ ∧ item.Diverges ⟨"right"⟩ third)) = true := by
    decide +kernel
  have hrecorder : (Recording.after ⟨"ada"⟩ before).recorder = some ⟨"middle"⟩ := by decide +kernel
  obtain ⟨item, hitem, hi⟩ := (Option.any_eq_true _ _).mp hstands
  obtain ⟨hbody, hdiverges⟩ := of_decide_eq_true hi
  have hspared := (Recording.kept_iff _ _ _).mp hkept item _ _ third hitem hbody rfl rfl
  rcases hspared.1 hdiverges with hsame | hown
  · exact absurd hsame (by decide)
  · rw [hrecorder] at hown
    exact absurd hown (by decide)

end ReplicaHub
end IoReplica

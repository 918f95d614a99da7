import IoReplica.Hub.Driver

/-! An edited body met by the hub: adopted, recorded against the shared one, or outranked by it,
unless the shared body was erased meanwhile. -/
namespace IoReplica

namespace ReplicaHubItem

variable {policy : ReplicaHubConflict} {item : ReplicaHubItem} {source : ReplicaSourceId}
  {p : ReplicaPlacement}

/-- The item with a body adopted, which settles whatever conflict stood. -/
def adopting (item : ReplicaHubItem) (object : Option ReplicaHash) : ReplicaHubItem :=
  { item with object := object, conflicted := false, conflictObject := none }

/-- How a divergence is resolved. -/
def diverging (policy : ReplicaHubConflict) (item : ReplicaHubItem) (object : Option ReplicaHash) :
    ReplicaHubItem :=
  match policy with
  | .manual => { item with conflicted := true, conflictObject := object }
  | .preferIncoming => item.adopting object
  | .preferExisting => { item with conflicted := false, conflictObject := none }

/-- What reconciling an edited body comes to. -/
theorem reconcileContent_edited (policy : ReplicaHubConflict) (item : ReplicaHubItem)
    (source : ReplicaSourceId) (he : p.object ≠ item.syncedObject source)
    (hsome : p.object.isSome) :
    reconcileContent policy item source p =
      if p.object = item.object then item
      else if item.object = item.agreedObject source then item.adopting p.object
      else if item.object.isSome then diverging policy item p.object
      else item := by
  by_cases hb : p.object = item.object
  · simp [reconcileContent, hb]
  · by_cases hm : item.object = item.agreedObject source
    · rw [if_neg hb, if_pos hm]
      simp only [reconcileContent, hm]
      simp [he, ← hm, hb, adopting]
    · rw [if_neg hb, if_neg hm]
      cases ho : item.object.isSome with
      | true =>
        cases policy <;> simp [reconcileContent, he, hm, hb, ho, hsome, diverging, adopting]
      | false => simp [reconcileContent, hm, ho]

theorem absorb_live (policy : ReplicaHubConflict) (item : ReplicaHubItem)
    (source : ReplicaSourceId) (hlive : p.status ≠ .tombstone) :
    (item.absorb policy source p).object =
        (reconcileContent policy (item.refresh p) source p).object ∧
      (item.absorb policy source p).conflicted =
        (reconcileContent policy (item.refresh p) source p).conflicted ∧
      (item.absorb policy source p).conflictObject =
        (reconcileContent policy (item.refresh p) source p).conflictObject := by
  rw [absorb, if_neg hlive]
  exact ⟨rfl, rfl, rfl⟩

/-- A conflict stands between two bodies, so the shared one is known. -/
def Diverged (item : ReplicaHubItem) : Prop := item.conflicted = true → item.object.isSome

theorem Diverged.reconcileContent (h : item.Diverged) (policy : ReplicaHubConflict)
    (source : ReplicaSourceId) (p : ReplicaPlacement) :
    (reconcileContent policy item source p).Diverged := by
  simp only [ReplicaHubItem.reconcileContent]
  split
  · rename_i hd
    have hsome : item.object.isSome := (Bool.and_eq_true_iff.mp hd).2
    cases policy with
    | manual => exact fun _ => hsome
    | preferIncoming | preferExisting => exact fun hc => by cases hc
  · split
    · exact fun hc => by cases hc
    · exact h

theorem Diverged.absorb (h : item.Diverged) : (item.absorb policy source p).Diverged := by
  by_cases hp : p.status = .tombstone
  · rw [ReplicaHubItem.absorb, if_pos hp]
    exact h
  · have hr : (item.refresh p).Diverged := h
    have hc := hr.reconcileContent policy source p
    obtain ⟨hobject, hconflicted, -⟩ := item.absorb_live policy source hp
    rw [Diverged, hobject, hconflicted]
    exact hc

theorem Diverged.dropBinding (h : item.Diverged) (handle : ReplicaHandle)
    (reason : ReplicaDropReason) : (dropBinding source handle reason item).Diverged := by
  simp only [ReplicaHubItem.dropBinding]
  split
  · exact h
  · exact h

end ReplicaHubItem

namespace ReplicaHub

/-- No edited body is lost: it is the shared one, the recorded side of a conflict, or outranked by a
body another source moved to since this one last agreed. -/
inductive Retains (hub : ReplicaHub) (source : ReplicaSourceId) (link : ReplicaLinkId)
    (p : ReplicaPlacement) : Prop
  | adopted {item : ReplicaHubItem} (after : (hub.absorbUpsert source p).items[link]? = some item)
      (object : item.object = p.object)
  | recorded {item : ReplicaHubItem}
      (after : (hub.absorbUpsert source p).items[link]? = some item)
      (policy : hub.conflict = .manual) (conflicted : item.conflicted = true)
      (object : item.conflictObject = p.object)
  | outranked {item old : ReplicaHubItem} {kept : ReplicaHash}
      (after : (hub.absorbUpsert source p).items[link]? = some item)
      (policy : hub.conflict = .preferExisting) (object : item.object = some kept)
      (differs : p.object ≠ some kept) (before : hub.items[link]? = some old)
      (unchanged : old.object = some kept) (moved : old.agreedObject source ≠ some kept)

/-- The item's shared body is unknown, though this source had agreed on one. -/
def Erased (hub : ReplicaHub) (source : ReplicaSourceId) (link : ReplicaLinkId) : Prop :=
  ∃ item, hub.items[link]? = some item ∧ item.object = none ∧ (item.agreedObject source).isSome

theorem absorbUpsert_get (hub : ReplicaHub) (source : ReplicaSourceId) {p : ReplicaPlacement}
    {link : ReplicaLinkId} (hlink : p.linkId = some link) :
    (hub.absorbUpsert source p).items[link]? =
      some ((hub.items[link]?.getD (.ofPlacement p)).absorb hub.conflict source p) := by
  simp only [absorbUpsert, hlink]
  exact OrderedMap.get_insert_self _ _ _

end ReplicaHub

theorem HubStore.Reachable.diverged {conflict : ReplicaHubConflict} {s : HubStore}
    (h : Reachable conflict s) : s.hub.All ReplicaHubItem.Diverged ∧ s.hub.conflict = conflict := by
  refine h.invariant (P := fun hub => hub.All ReplicaHubItem.Diverged ∧ hub.conflict = conflict)
    ⟨?_, rfl⟩ ?_
  · intro link item hitem
    simp [ReplicaHub.empty] at hitem
  · intro hub source ops hhub
    refine ReplicaHub.All.absorb ?_ ?_ ?_ hhub.2 hhub.1 source ops
    · exact fun p hc => by cases hc
    · exact fun item source p hi => hi.absorb
    · exact fun item source handle reason hi => hi.dropBinding handle reason

namespace ReplicaHub

variable {hub : ReplicaHub} {source : ReplicaSourceId} {link : ReplicaLinkId}
  {p : ReplicaPlacement}

/-- The first upsert under a link id shares its own body. -/
theorem retains_new (hlink : p.linkId = some link) (hlive : p.status ≠ .tombstone)
    (hnew : hub.items[link]? = none) : hub.Retains source link p := by
  have hafter := hub.absorbUpsert_get source hlink
  rw [hnew, Option.getD_none] at hafter
  refine .adopted hafter ?_
  obtain ⟨hobject, -, -⟩ := ReplicaHubItem.absorb_live hub.conflict (.ofPlacement p) source
    hlive
  have hshared : (ReplicaHubItem.refresh (.ofPlacement p) p).object = p.object := rfl
  rw [hobject]
  simp [ReplicaHubItem.reconcileContent, hshared]

/-- An edit meeting a known body, or one its source never agreed on, is retained. -/
theorem retains_known (hlink : p.linkId = some link) (hlive : p.status ≠ .tombstone)
    (hbody : p.object.isSome) {item : ReplicaHubItem} (hitem : hub.items[link]? = some item)
    (hedit : p.object ≠ item.syncedObject source)
    (hknown : item.object.isSome ∨ item.object = item.agreedObject source) :
    hub.Retains source link p := by
  have hafter := hub.absorbUpsert_get source hlink
  rw [hitem, Option.getD_some] at hafter
  obtain ⟨hobject, hconflicted, hside⟩ := item.absorb_live hub.conflict source hlive
  have hr := (item.refresh p).reconcileContent_edited hub.conflict source hedit hbody
  rw [hr] at hobject hconflicted hside
  have hshared : (item.refresh p).object = item.object := rfl
  have hagreed : (item.refresh p).agreedObject source = item.agreedObject source := rfl
  rw [hshared, hagreed] at hobject hconflicted hside
  by_cases hb : p.object = item.object
  · rw [if_pos hb] at hobject
    exact .adopted hafter (hobject.trans hb.symm)
  rw [if_neg hb] at hobject hconflicted hside
  by_cases hm : item.object = item.agreedObject source
  · rw [if_pos hm] at hobject
    exact .adopted hafter hobject
  rw [if_neg hm] at hobject hconflicted hside
  have hsome : item.object.isSome := hknown.resolve_right hm
  rw [if_pos hsome] at hobject hconflicted hside
  cases hpolicy : hub.conflict with
  | manual =>
    rw [hpolicy] at hconflicted hside
    exact .recorded hafter hpolicy (by rw [hpolicy]; exact hconflicted)
      (by rw [hpolicy]; exact hside)
  | preferIncoming =>
    rw [hpolicy] at hobject
    exact .adopted hafter (by rw [hpolicy]; exact hobject)
  | preferExisting =>
    rw [hpolicy] at hobject
    obtain ⟨kept, hkept⟩ := Option.isSome_iff_exists.mp hsome
    rw [hkept] at hb hm
    exact .outranked hafter hpolicy (by rw [hpolicy]; exact hobject.trans hkept) hb hitem hkept
      (Ne.symm hm)

/-- An erased body leaves the edit nowhere: neither branch of the reconcile takes it. -/
theorem not_retains_erased (hlink : p.linkId = some link) (hlive : p.status ≠ .tombstone)
    (hbody : p.object.isSome) (hall : hub.All ReplicaHubItem.Diverged)
    (hedit : p.object ≠ hub.items[link]?.bind (·.syncedObject source))
    (he : hub.Erased source link) : ¬ hub.Retains source link p := by
  obtain ⟨item, hitem, hnone, hagreed⟩ := he
  rw [hitem, Option.bind_some] at hedit
  have hafter := hub.absorbUpsert_get source hlink
  rw [hitem, Option.getD_some] at hafter
  obtain ⟨hobject, hconflicted, -⟩ := item.absorb_live hub.conflict source hlive
  have hr := (item.refresh p).reconcileContent_edited hub.conflict source hedit hbody
  have hshared : (item.refresh p).object = none := hnone
  have hb : p.object ≠ none := Option.isSome_iff_ne_none.mp hbody
  have hm : (none : Option ReplicaHash) ≠ (item.refresh p).agreedObject source := by
    intro heq
    have hno : item.agreedObject source = none := heq.symm
    rw [hno] at hagreed
    cases hagreed
  rw [hshared, if_neg hb, if_neg hm] at hr
  rw [hr] at hobject hconflicted
  have hclear : item.conflicted = false := by
    have hd := hall link item hitem
    rw [ReplicaHubItem.Diverged, hnone] at hd
    simpa using hd
  -- the item stands as it was: no body, no conflict
  rintro (⟨after, object⟩ | ⟨after, -, conflicted, -⟩ | ⟨after, -, object, -, -, -, -⟩)
  · cases hafter.symm.trans after
    exact hb (object.symm.trans (hobject.trans hshared))
  · cases hafter.symm.trans after
    have hfalse := conflicted.symm.trans (hconflicted.trans hclear)
    cases hfalse
  · cases hafter.symm.trans after
    have hfalse := object.symm.trans (hobject.trans hshared)
    cases hfalse

end ReplicaHub

namespace HubStore

/-- In a reachable hub, an edit upserted live is retained exactly when the shared body it meets was
not erased under this source's agreement. -/
theorem edit_retained_iff {conflict : ReplicaHubConflict} {s : HubStore}
    (h : Reachable conflict s) (source : ReplicaSourceId) (p : ReplicaPlacement)
    (link : ReplicaLinkId) (hlink : p.linkId = some link) (hlive : p.status ≠ .tombstone)
    (hbody : p.object.isSome)
    (hedit : p.object ≠ s.hub.items[link]?.bind (·.syncedObject source)) :
    s.hub.Retains source link p ↔ ¬ s.hub.Erased source link := by
  constructor
  · intro hr he
    exact ReplicaHub.not_retains_erased hlink hlive hbody h.diverged.1 hedit he hr
  · intro he
    cases hitem : s.hub.items[link]? with
    | none => exact ReplicaHub.retains_new hlink hlive hitem
    | some item =>
      rw [hitem, Option.bind_some] at hedit
      refine ReplicaHub.retains_known hlink hlive hbody hitem hedit ?_
      cases ho : item.object with
      | some o => exact Or.inl rfl
      | none =>
        right
        cases ha : item.agreedObject source with
        | none => rfl
        | some o => exact absurd ⟨item, hitem, ho, by rw [ha]; rfl⟩ he

/-- Three runs of two sources: the left one adds an item, the right one pushes it to its own remote,
then pulls a content change of it there. -/
def erasedStore (conflict : ReplicaHubConflict) : HubStore :=
  let added : Verb :=
    .mutate ⟨"inbox"⟩ (.add ⟨"draft"⟩ ⟨"item"⟩ .empty ⟨⟨"first"⟩, 1⟩ [0] none .unknown)
  let accepted : ReplicaPushResult :=
    ⟨ReplicaHubItem.hubHandle ⟨"item"⟩, .accepted, some ⟨"uid"⟩, some "1"⟩
  let pushing : Script := ⟨⟨[], [], true, ⟨[]⟩⟩, [], [[accepted]]⟩
  let pulling : Script := ⟨⟨[⟨⟨"uid"⟩, .empty, some "2"⟩], [], true, ⟨[]⟩⟩, [], []⟩
  let s := Script.leaves ⟨⟨[], [], true, ⟨[]⟩⟩, [], []⟩ 4 ⟨"left"⟩ added (.new conflict)
  let s := pushing.leaves 8 ⟨"right"⟩ (.sync ⟨"inbox"⟩ .default) s
  pulling.leaves 8 ⟨"right"⟩ (.sync ⟨"inbox"⟩ .default) s

theorem erasedStore_reachable (conflict : ReplicaHubConflict) :
    Reachable conflict (erasedStore conflict) :=
  Script.leaves_reachable (Script.leaves_reachable (Script.leaves_reachable .new _ _ _ _) _ _ _ _)
    _ _ _ _

/-- The row the left source's edit of the item then stages. -/
def erasedEdit : ReplicaPlacement where
  collection := ⟨"inbox"⟩
  handle := ⟨"draft"⟩
  linkId := some ⟨"item"⟩
  object := some ⟨"second"⟩
  level := .full
  metadata := none
  sortKey := .unknown
  flags := .empty
  status := .dirty
  conflictRevision := none
  conflictObject := none
  base := none
  origin := none

/-- The source that refreshed the item may still edit it. -/
theorem refreshing_source_retains :
    (erasedStore .manual).hub.Retains ⟨"right"⟩ ⟨"item"⟩ { erasedEdit with handle := ⟨"uid"⟩ } := by
  refine (edit_retained_iff (erasedStore_reachable .manual) ⟨"right"⟩
    { erasedEdit with handle := ⟨"uid"⟩ } ⟨"item"⟩ rfl (by decide) rfl (by decide +kernel)).mpr ?_
  have hitem : (erasedStore .manual).hub.items[(⟨"item"⟩ : ReplicaLinkId)]?.all (fun item =>
      (item.agreedObject ⟨"right"⟩).isNone) = true := by decide +kernel
  rintro ⟨item, hget, -, hagreed⟩
  rw [hget] at hitem
  have hnone : item.agreedObject ⟨"right"⟩ = none := Option.isNone_iff_eq_none.mp hitem
  rw [hnone] at hagreed
  cases hagreed

theorem erasedStore_erased : (erasedStore .manual).hub.Erased ⟨"left"⟩ ⟨"item"⟩ := by
  have hitem : (erasedStore .manual).hub.items[(⟨"item"⟩ : ReplicaLinkId)]?.any (fun item =>
      item.object.isNone && (item.agreedObject ⟨"left"⟩).isSome) = true := by decide +kernel
  obtain ⟨item, hget, hi⟩ := (Option.any_eq_true _ _).mp hitem
  obtain ⟨hnone, hagreed⟩ := Bool.and_eq_true_iff.mp hi
  exact ⟨item, hget, Option.isNone_iff_eq_none.mp hnone, hagreed⟩

/-- A refresh on one source erases the shared body, and the next edit of another is dropped. -/
theorem edit_dropped_after_refresh :
    ∃ s t s', Reachable .manual s ∧
      Ran ⟨"left"⟩ (.mutate ⟨"inbox"⟩ (.edit ⟨"draft"⟩ ⟨⟨"second"⟩, 1⟩ [1] none none)) s t s' ∧
      .upsertPlacement erasedEdit ∈ t.writes ∧
      erasedEdit.status ≠ .tombstone ∧ erasedEdit.object.isSome ∧
      erasedEdit.object ≠ s.hub.items[(⟨"item"⟩ : ReplicaLinkId)]?.bind (·.syncedObject ⟨"left"⟩) ∧
      ¬ s.hub.Retains ⟨"left"⟩ ⟨"item"⟩ erasedEdit := by
  let script : Script := ⟨⟨[], [], true, ⟨[]⟩⟩, [], []⟩
  have hdriven : (drive Script.answer 4 ⟨"left"⟩
      (.mutate ⟨"inbox"⟩ (.edit ⟨"draft"⟩ ⟨⟨"second"⟩, 1⟩ [1] none none))
      (erasedStore .manual, script)).any
        (fun out => decide (.upsertPlacement erasedEdit ∈ out.2.writes)) = true := by
    decide +kernel
  have hedit : erasedEdit.object ≠ (erasedStore .manual).hub.items[(⟨"item"⟩ : ReplicaLinkId)]?.bind
      (·.syncedObject ⟨"left"⟩) := by decide +kernel
  have hreach := erasedStore_reachable .manual
  obtain ⟨⟨⟨s', remote⟩, t⟩, hd, hmem⟩ := (Option.any_eq_true _ _).mp hdriven
  refine ⟨_, t, s', hreach, drive_ran hd, of_decide_eq_true hmem, by decide, by decide, hedit, ?_⟩
  exact ReplicaHub.not_retains_erased rfl (by decide) (by decide) hreach.diverged.1 hedit
    erasedStore_erased

end HubStore
end IoReplica

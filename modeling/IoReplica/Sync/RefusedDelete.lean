import IoReplica.Mutate
import IoReplica.Sync.StagedEdit

/-! A local delete the source will not take, reverted: what the revert keeps of the row it undoes. -/
namespace IoReplica

/-- A live based row deleted locally, and the item the run reads for it, no content moved on the
remote. -/
structure DeletedRow (p : ReplicaPlacement) (base : ReplicaBase) (tomb : ReplicaPlacement)
    (item : ReplicaRemoteItem) : Prop where
  live : p.status ≠ .tombstone
  based : p.base = some base
  deleted : tomb = ReplicaMutate.removed p ∨ ∃ target, tomb = ReplicaMutate.movedAway p target
  unmoved : item.revision = none ∨ item.revision = base.revision

/-- Remove and move are the mutations that delete a row: what they leave stored under its handle. -/
theorem deleted_of_mutation (collection : ReplicaCollectionId) (p : ReplicaPlacement)
    (mutation : ReplicaMutation)
    (h : mutation = .remove p.handle ∨ ∃ target placeholder,
      mutation = .move p.handle target placeholder) :
    ∃ tomb, rowAfter p.handle (some p) ((ReplicaMutate.new collection mutation).writes p) =
        some tomb ∧
      (tomb = ReplicaMutate.removed p ∨ ∃ target, tomb = ReplicaMutate.movedAway p target) := by
  rcases h with rfl | ⟨target, placeholder, rfl⟩
  · refine ⟨ReplicaMutate.removed p, ?_, Or.inl rfl⟩
    simp [ReplicaMutate.writes, ReplicaMutate.new, ReplicaMutate.removed]
  · refine ⟨ReplicaMutate.movedAway p target, ?_, Or.inr ⟨target, rfl⟩⟩
    have hh : (ReplicaMutate.movedAway p target).handle = p.handle := rfl
    simp [ReplicaMutate.writes, ReplicaMutate.new, rowAfter_append, hh]

namespace DeletedRow

open ReplicaSync

variable {p tomb : ReplicaPlacement} {base : ReplicaBase} {item : ReplicaRemoteItem}

/-- The options refuse the delete, or the content push its move waits for, and undo it. -/
structure Refuses (opts : ReplicaSyncOptions) (tomb : ReplicaPlacement) : Prop where
  refused : opts.mayRemove = false ∨
    ((tomb.stagedEdit.isSome && tomb.origin.isSome) = true ∧ opts.mayContent = false)
  reverts : opts.delete = .revert

/-- What undoing the delete of `p` must leave, its remote listing `item`. -/
structure Undone (p : ReplicaPlacement) (base : ReplicaBase) (item : ReplicaRemoteItem)
    (row : ReplicaPlacement) : Prop where
  body : row.object = p.object
  pending : (p.stagedEdit.isSome ∨ p.flags ≠ base.flags) → row.status ≠ .clean
  folded : row.flags = mergedFlags base p item
  settled : row.status = .clean → row.conflictRevision = none ∧ row.conflictObject = none
  placed : row.origin = none

/-- The revert has nothing to lose: a row removed in place, with no edit, no flag delta, no flag
change to fold in and no conflict pair. -/
structure NothingPending (p : ReplicaPlacement) (base : ReplicaBase) (tomb : ReplicaPlacement)
    (item : ReplicaRemoteItem) : Prop where
  inPlace : tomb = ReplicaMutate.removed p ∧ p.origin = none
  unedited : p.stagedEdit = none
  unflagged : p.flags = base.flags
  folded : mergedFlags base p item = p.flags
  unconflicted : p.conflictRevision = none ∧ p.conflictObject = none

/-- Everything of the deleted row but its status and its origin is the live row's. -/
theorem tomb_eq (h : DeletedRow p base tomb item) :
    tomb = { p with status := .tombstone, origin := tomb.origin } := by
  rcases h.deleted with rfl | ⟨target, rfl⟩
  · rfl
  · rfl

theorem tomb_handle (h : DeletedRow p base tomb item) : tomb.handle = p.handle := by
  rw [h.tomb_eq]

theorem tomb_status (h : DeletedRow p base tomb item) : tomb.status = .tombstone := by
  rw [h.tomb_eq]

theorem tomb_base (h : DeletedRow p base tomb item) : tomb.base = some base := by
  rw [h.tomb_eq]
  exact h.based

theorem tomb_origin (h : DeletedRow p base tomb item) :
    tomb.origin = none ↔ tomb = ReplicaMutate.removed p ∧ p.origin = none := by
  rcases h.deleted with rfl | ⟨target, rfl⟩
  · exact ⟨fun ho => ⟨rfl, ho⟩, fun ho => ho.2⟩
  · constructor
    · intro ho
      cases ho
    · rintro ⟨heq, ho⟩
      rw [heq]
      exact ho

theorem movedFrom_eq (h : DeletedRow p base tomb item) :
    movedFrom item tomb.baseRevision = false := by
  have hr : tomb.baseRevision = base.revision := by
    rw [ReplicaPlacement.baseRevision, h.tomb_base]
    rfl
  rw [hr]
  rcases h.unmoved with hi | hi <;> simp [movedFrom, hi]

/-- Does a content push ride ahead of the refused move? -/
def rides (opts : ReplicaSyncOptions) (tomb : ReplicaPlacement) : Bool :=
  tomb.stagedEdit.isSome && tomb.origin.isSome && opts.mayContent

/-- The row a refused delete is reverted to. -/
def reverted (tomb : ReplicaPlacement) : ReplicaPlacement := { tomb with status := .clean }

/-- The effect of merging a refused delete. -/
theorem effect_eq (h : DeletedRow p base tomb item) (collection : ReplicaCollectionId)
    {opts : ReplicaSyncOptions} (ho : Refuses opts tomb) :
    ((effect collection opts ⟨p.handle, some tomb, some item⟩).1.writes =
        if rides opts tomb then [] else [.upsertPlacement (reverted tomb)]) ∧
      ((effect collection opts ⟨p.handle, some tomb, some item⟩).1.pendingAt p.handle =
        if rides opts tomb then { Pending.none with content := some tomb } else Pending.none) := by
  have hnone := new_pendingAt collection opts p.handle
  have hwrites : (new collection opts).writes = [] := rfl
  have hb : tomb.base.isSome = true := by rw [h.tomb_base]; rfl
  have hdelete : (new collection opts).opts.delete = .revert := ho.reverts
  have hrefuse : (new collection opts).refuseDelete tomb =
      ((new collection opts).upsert (reverted tomb), none) := by
    simp only [refuseDelete, hdelete]
    rfl
  have hupsert : ((new collection opts).upsert (reverted tomb)).writes =
      [.upsertPlacement (reverted tomb)] := rfl
  have hpend : ((new collection opts).upsert (reverted tomb)).pendingAt p.handle = .none := hnone
  rw [effect, merge_tombstone _ _ h.tomb_status]
  cases he : tomb.stagedEdit.isSome && tomb.origin.isSome with
  | false =>
    have hremove : (new collection opts).opts.mayRemove = false := by
      rcases ho.refused with hr | hr
      · exact hr
      · rw [he] at hr
        exact absurd hr.1 (by decide)
    simp [hb, mergeTombstone, h.movedFrom_eq, he, hremove, hrefuse, rides, hupsert, hpend]
  | true =>
    cases hm : opts.mayContent with
    | false =>
      have hm' : (new collection opts).opts.mayContent = false := hm
      simp [hb, mergeTombstone, h.movedFrom_eq, he, hm', hrefuse, rides, hm, hupsert, hpend]
    | true =>
      have hm' : (new collection opts).opts.mayContent = true := hm
      obtain ⟨o, hobject⟩ : ∃ o, tomb.object = some o := by
        rw [Bool.and_eq_true] at he
        obtain ⟨o, hstaged⟩ := Option.isSome_iff_exists.mp he.1
        exact ⟨o, (ReplicaPlacement.stagedEdit_eq_some.mp hstaged).1⟩
      have hstash : ((new collection opts).stashContent p.handle tomb).pendingAt p.handle =
          { Pending.none with content := some tomb } := by
        rw [← hnone]
        simp [pendingAt, stashContent]
      have hstashed : ((new collection opts).stashContent p.handle tomb).writes = [] := hwrites
      simp [hb, mergeTombstone, h.movedFrom_eq, he, hm', hobject, rides, hm, hstash, hstashed]

/-- The row a run leaves of a refused delete. -/
theorem row_eq (h : DeletedRow p base tomb item) {collection : ReplicaCollectionId}
    {opts : ReplicaSyncOptions} {loaded : ReplicaLoaded} {snapshot : ReplicaRemoteSnapshot}
    {t : Transcript} {s : CollectionRows} (ho : Refuses opts tomb)
    (hs : Syncs collection opts loaded snapshot t) (hl : loaded.placements = s.placements)
    (hr : Reads s snapshot tomb item) (hu : Undisturbed s p.handle t) :
    ∃ row, (s.apply t.writes).rows[p.handle]? = some row ∧
      (rides opts tomb = false → row = reverted tomb) ∧ row.origin = tomb.origin := by
  have hr' : Merge.candidateAt s.rows snapshot p.handle = some ⟨p.handle, some tomb, some item⟩ := by
    rw [Reads, h.tomb_handle] at hr
    exact hr
  have hinit : s.rows[p.handle]? = some tomb := (Merge.candidateAt_spec hr').2.symm
  obtain ⟨hrow, -⟩ := hs.runAt (c := ⟨p.handle, some tomb, some item⟩) hl hr' hu
  dsimp only at hrow
  obtain ⟨hw, hp⟩ := h.effect_eq collection ho
  have hhandle : (reverted tomb).handle = p.handle := h.tomb_handle
  rw [CollectionRows.get_apply, hrow, hinit, hw, hp]
  cases hride : rides opts tomb with
  | false =>
    refine ⟨reverted tomb, ?_, fun _ => rfl, rfl⟩
    simp only [Bool.false_eq_true, if_false, rowAfter_upsert, hhandle, if_true, rowAfter_nil,
      Pending.record_none]
    split <;> rfl
  | true =>
    simp only [if_true, rowAfter_nil]
    cases Outbox.confirmation p.handle t.pushes with
    | none => exact ⟨tomb, rfl, by simp, rfl⟩
    | some r =>
      have hrec := StagedEdit.rowAfter_recordContent tomb (some tomb) collection r
      rw [h.tomb_handle] at hrec
      exact ⟨_, hrec, by simp, rfl⟩

/-- Reverting a refused delete undoes it exactly when the row had nothing pending to lose. -/
theorem refused_delete_undone_iff (h : DeletedRow p base tomb item)
    {collection : ReplicaCollectionId} {opts : ReplicaSyncOptions} {loaded : ReplicaLoaded}
    {snapshot : ReplicaRemoteSnapshot} {t : Transcript} {s : CollectionRows} (ho : Refuses opts tomb)
    (hs : Syncs collection opts loaded snapshot t) (hl : loaded.placements = s.placements)
    (hr : Reads s snapshot tomb item) (hu : Undisturbed s p.handle t) :
    (∃ row, (s.apply t.writes).rows[p.handle]? = some row ∧ Undone p base item row) ↔
      NothingPending p base tomb item := by
  obtain ⟨row, hrow, hrev, horigin⟩ := h.row_eq ho hs hl hr hu
  rw [hrow]
  constructor
  · rintro ⟨row', hrow', hundone⟩
    cases hrow'
    have hnone : tomb.origin = none := horigin.symm.trans hundone.placed
    have hride : rides opts tomb = false := by simp [rides, hnone]
    have hback := hrev hride
    rw [h.tomb_eq] at hback
    subst hback
    have hclean : (reverted { p with status := .tombstone, origin := tomb.origin }).status =
        .clean := rfl
    obtain ⟨hpair, hobj⟩ := hundone.settled hclean
    refine ⟨h.tomb_origin.mp hnone, ?_, ?_, ?_, hpair, hobj⟩
    · by_contra hne
      exact hundone.pending (Or.inl (Option.isSome_iff_ne_none.mpr hne)) hclean
    · by_contra hne
      exact hundone.pending (Or.inr hne) hclean
    · exact hundone.folded.symm
  · intro hn
    have hnone : tomb.origin = none := h.tomb_origin.mpr hn.inPlace
    have hride : rides opts tomb = false := by simp [rides, hnone]
    have hback := hrev hride
    refine ⟨row, rfl, ?_⟩
    rw [h.tomb_eq, hnone] at hback
    subst hback
    refine ⟨rfl, ?_, hn.folded.symm, fun _ => hn.unconflicted, rfl⟩
    rintro (hedit | hflags)
    · rw [hn.unedited] at hedit
      cases hedit
    · exact absurd hn.unflagged hflags

section Runs

/-- A source that takes no pushes, its refused deletes reverted. -/
def readOnly : ReplicaSyncOptions := { ReplicaSyncOptions.default with push := false }

theorem readOnly_refuses (tomb : ReplicaPlacement) : Refuses readOnly tomb := ⟨Or.inl rfl, rfl⟩

/-- One row deleted in a collection of its own, its remote untouched. -/
def deletedSeam (tomb : ReplicaPlacement) : Seam where
  rows := CollectionRows.empty.write (.upsertPlacement tomb)
  checkpoint := none
  snapshot := ⟨[⟨⟨"a"⟩, .empty, some "1"⟩], [], true, ⟨[]⟩⟩
  replies := []

/-- An edited card removed, then reverted, is left clean over its staged edit. -/
theorem reverted_edit_left_clean : ∃ t,
    DeletedRow StagedEdit.card ⟨.empty, some "1", some ⟨"old"⟩⟩ (ReplicaMutate.removed StagedEdit.card)
      ⟨⟨"a"⟩, .empty, some "1"⟩ ∧
    Refuses readOnly (ReplicaMutate.removed StagedEdit.card) ∧
    Syncs ⟨"contacts"⟩ readOnly
      ⟨(deletedSeam (ReplicaMutate.removed StagedEdit.card)).rows.placements, none⟩
      (deletedSeam (ReplicaMutate.removed StagedEdit.card)).snapshot t ∧
    ∀ row, ((deletedSeam (ReplicaMutate.removed StagedEdit.card)).rows.apply
        t.writes).rows[StagedEdit.card.handle]? = some row →
      ¬ Undone StagedEdit.card ⟨.empty, some "1", some ⟨"old"⟩⟩ ⟨⟨"a"⟩, .empty, some "1"⟩ row := by
  have hrun : ((deletedSeam (ReplicaMutate.removed StagedEdit.card)).sync 9 ⟨"contacts"⟩
      readOnly).map (fun o => o.1.rows.rows[StagedEdit.card.handle]?.map (·.status)) =
        some (some .clean) := by decide
  obtain ⟨⟨s', t⟩, hd, hclean⟩ := Option.map_eq_some_iff.mp hrun
  obtain ⟨hsync, hrows⟩ := Seam.sync_syncs hd
  refine ⟨t, ⟨by decide, rfl, Or.inl rfl, Or.inr rfl⟩, readOnly_refuses _, hsync, ?_⟩
  intro row hrow hundone
  rw [hrows, hrow] at hclean
  exact hundone.pending (Or.inl (by decide)) (Option.some.inj hclean)

/-- A card in sync with its remote. -/
def syncedCard : ReplicaPlacement :=
  { StagedEdit.card with object := some ⟨"old"⟩, status := .clean }

/-- A card in sync, removed and reverted, is back as it was. -/
theorem reverted_card_undone : ∃ t,
    Syncs ⟨"contacts"⟩ readOnly ⟨(deletedSeam (ReplicaMutate.removed syncedCard)).rows.placements,
      none⟩ (deletedSeam (ReplicaMutate.removed syncedCard)).snapshot t ∧
    ∃ row, ((deletedSeam (ReplicaMutate.removed syncedCard)).rows.apply
        t.writes).rows[syncedCard.handle]? = some row ∧
      Undone syncedCard ⟨.empty, some "1", some ⟨"old"⟩⟩ ⟨⟨"a"⟩, .empty, some "1"⟩ row := by
  have hrun : ((deletedSeam (ReplicaMutate.removed syncedCard)).sync 9 ⟨"contacts"⟩ readOnly).map
      (fun o => o.2.pushes) = some [] := by decide
  obtain ⟨⟨s', t⟩, hd, hpushes⟩ := Option.map_eq_some_iff.mp hrun
  obtain ⟨hsync, -⟩ := Seam.sync_syncs hd
  have hreads : Reads (deletedSeam (ReplicaMutate.removed syncedCard)).rows
      (deletedSeam (ReplicaMutate.removed syncedCard)).snapshot (ReplicaMutate.removed syncedCard)
      ⟨⟨"a"⟩, .empty, some "1"⟩ :=
    reads_of_listed (OrderedMap.get_insert_self _ _ _) rfl (Or.inl rfl)
  have hdeleted : DeletedRow syncedCard ⟨.empty, some "1", some ⟨"old"⟩⟩
      (ReplicaMutate.removed syncedCard) ⟨⟨"a"⟩, .empty, some "1"⟩ :=
    ⟨by decide, rfl, Or.inl rfl, Or.inr rfl⟩
  have hunassigned : Outbox.Unassigned syncedCard.handle t.pushes := by
    rw [hpushes]
    intro e he
    cases he
  refine ⟨t, hsync, (hdeleted.refused_delete_undone_iff (readOnly_refuses _) hsync rfl hreads
    (Seam.single_undisturbed hunassigned)).mpr ?_⟩
  exact ⟨⟨rfl, rfl⟩, by decide, rfl, by decide, rfl, rfl⟩

end Runs
end DeletedRow
end IoReplica

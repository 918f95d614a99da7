import IoReplica.Mutate
import IoReplica.Sync.Created
import IoReplica.Sync.Seam
import IoReplica.Sync.StagedEdit
import IoReplica.Sync.Storage

/-! Moving an edited row: where its edit is after the source's next sync. -/
namespace IoReplica

/-- An edited row about to be moved into another collection. -/
structure MovedEdit (s : Storage) (p : ReplicaPlacement) (object : ReplicaHash)
    (target : ReplicaCollectionId) : Prop where
  stored : (s.rows p.collection).rows[p.handle]? = some p
  based : p.base.isSome
  edited : p.stagedEdit = some object
  elsewhere : target ≠ p.collection

namespace MovedEdit

open ReplicaSync

/-- The writes staging the move. -/
def staged (p : ReplicaPlacement) (target : ReplicaCollectionId) (placeholder : ReplicaHandle) :
    List ReplicaWriteOp :=
  (ReplicaMutate.new p.collection (.move p.handle target placeholder)).writes p

/-- The body went up: an Update of the handle carried it and was accepted. -/
def Pushed (p : ReplicaPlacement) (object : ReplicaHash) (t : Transcript) : Prop :=
  (∃ k ∈ t.changes, ∃ ifMatch, k.kind = .update p.handle object ifMatch) ∧
    (Outbox.confirmation p.handle t.pushes).isSome

/-- A Created row of the collection holds the body. -/
def Offered (r : CollectionRows) (object : ReplicaHash) : Prop :=
  ∃ (h : ReplicaHandle) (q : ReplicaPlacement), r.rows[h]? = some q ∧ q.status = .created ∧
    q.stagedEdit = some object

/-- The row still holds the body as pending. -/
def Holds (r : CollectionRows) (p : ReplicaPlacement) (object : ReplicaHash) : Prop :=
  ∃ q, r.rows[p.handle]? = some q ∧ q.status ≠ .clean ∧ q.stagedEdit = some object

/-- The edit is not lost: pushed and accepted, or still pending on the source row or in a Created
row of either collection. -/
def Survives (p : ReplicaPlacement) (object : ReplicaHash) (target : ReplicaCollectionId)
    (t : Transcript) (s : Storage) : Prop :=
  Pushed p object t ∨ Holds (s.rows p.collection) p object ∨
    Offered (s.rows p.collection) object ∨ Offered (s.rows target) object

/-- No other row of the collection holds the body as pending. -/
def Alone (r : CollectionRows) (p : ReplicaPlacement) (object : ReplicaHash) : Prop :=
  ∀ (h : ReplicaHandle) (q : ReplicaPlacement), r.rows[h]? = some q → q.stagedEdit = some object →
    h = p.handle

/-- The remote still holds the member at the revision the edit was made against. -/
def Unmoved (p : ReplicaPlacement) (r : CollectionRows) (snapshot : ReplicaRemoteSnapshot) : Prop :=
  ∃ item, Merge.seen r.rows snapshot p.handle = some item ∧
    movedFrom item p.baseRevision = false

variable {s : Storage} {p : ReplicaPlacement} {object : ReplicaHash} {target : ReplicaCollectionId}

/-- The tombstone the move leaves still holds the edit. -/
theorem movedAway_edited (h : MovedEdit s p object target) :
    (ReplicaMutate.movedAway p target).stagedEdit = some object := h.edited

/-- What the move stages, collection by collection. -/
theorem staged_rows (s : Storage) (elsewhere : target ≠ p.collection)
    (placeholder : ReplicaHandle) :
    (s.apply (staged p target placeholder)).rows p.collection =
        (s.rows p.collection).write (.upsertPlacement (ReplicaMutate.movedAway p target)) ∧
      (s.apply (staged p target placeholder)).rows target =
        if p.linkId.isSome then (s.rows target).write
          (.upsertPlacement (ReplicaMutate.stagedCopy p target placeholder))
        else s.rows target := by
  have haway : ReplicaWriteOp.collection (.upsertPlacement (ReplicaMutate.movedAway p target)) =
      some p.collection := rfl
  have hcopy : ReplicaWriteOp.collection
      (.upsertPlacement (ReplicaMutate.stagedCopy p target placeholder)) = some target := rfl
  cases hl : p.linkId.isSome with
  | false =>
    have hops : staged p target placeholder =
        [.upsertPlacement (ReplicaMutate.movedAway p target)] := by
      simp [staged, ReplicaMutate.writes, ReplicaMutate.new, hl]
    rw [hops]
    simp only [Storage.apply, List.foldl_cons, List.foldl_nil, s.write_rows haway,
      Function.update_self, Function.update_of_ne elsewhere, Bool.false_eq_true, if_false, and_self]
  | true =>
    have hops : staged p target placeholder =
        [.upsertPlacement (ReplicaMutate.stagedCopy p target placeholder),
          .upsertPlacement (ReplicaMutate.movedAway p target)] := by
      simp [staged, ReplicaMutate.writes, ReplicaMutate.new, hl]
    rw [hops]
    simp only [Storage.apply, List.foldl_cons, List.foldl_nil]
    rw [Storage.write_rows _ haway, s.write_rows hcopy]
    simp only [Function.update_self, Function.update_of_ne elsewhere,
      Function.update_of_ne (Ne.symm elsewhere), if_true, and_self]

/-- Options granting every right. -/
structure Granted (opts : ReplicaSyncOptions) : Prop where
  push : opts.push = true
  rights : opts.rights = .all

/-- A run of the source's sync over the rows the move left. -/
structure SourceRun (s : Storage) (p : ReplicaPlacement) (target : ReplicaCollectionId)
    (placeholder : ReplicaHandle) (opts : ReplicaSyncOptions) (snapshot : ReplicaRemoteSnapshot)
    (t : Transcript) : Prop where
  granted : Granted opts
  syncs : ∃ loaded : ReplicaLoaded,
    loaded.placements = ((s.apply (staged p target placeholder)).rows p.collection).placements ∧
      Syncs p.collection opts loaded snapshot t
  undisturbed : Undisturbed ((s.apply (staged p target placeholder)).rows p.collection) p.handle t

/-- What the source's merge makes of the tombstone: an Update where the remote did not move, and
otherwise a row without the edit. -/
theorem effect_moved (h : MovedEdit s p object target) {opts : ReplicaSyncOptions}
    (hg : Granted opts) (remote : Option ReplicaRemoteItem) :
    let c : Candidate := ⟨p.handle, some (ReplicaMutate.movedAway p target), remote⟩
    (∃ item, remote = some item ∧ movedFrom item p.baseRevision = false ∧
      (effect p.collection opts c).1.writes = [] ∧
      (effect p.collection opts c).2 = some (.update p.handle object p.baseRevision) ∧
      (effect p.collection opts c).1.pendingAt p.handle =
        { Pending.none with content := some (ReplicaMutate.movedAway p target) }) ∨
    (¬ (∃ item, remote = some item ∧ movedFrom item p.baseRevision = false) ∧
      (effect p.collection opts c).2 = none ∧
      (effect p.collection opts c).1.pendingAt p.handle = .none ∧
      ∀ q init, (∀ i, remote = some i → i.handle = p.handle) →
        rowAfter p.handle init (effect p.collection opts c).1.writes = some q →
        q.stagedEdit = none) := by
  have hnone := new_pendingAt p.collection opts p.handle
  have hmerge := merge_tombstone (new p.collection opts) p.handle
    (p := ReplicaMutate.movedAway p target) rfl remote
  cases remote with
  | none =>
    refine Or.inr ⟨by simp, congrArg Prod.snd hmerge, ?_, ?_⟩
    · rw [← hnone]
      exact congrArg (fun e => e.1.pendingAt p.handle) hmerge
    · intro q init _ hq
      rw [show (effect p.collection opts ⟨p.handle, _, none⟩).1.writes = [.dropPlacement p.collection
        p.handle .deleted] from congrArg (fun e => e.1.writes) hmerge] at hq
      simp at hq
  | some item =>
    have hbased : (ReplicaMutate.movedAway p target).base.isSome := h.based
    dsimp only at hmerge
    rw [if_pos hbased] at hmerge
    have hrev : (ReplicaMutate.movedAway p target).baseRevision = p.baseRevision := rfl
    by_cases hmoved : movedFrom item p.baseRevision
    · have heffect : effect p.collection opts ⟨p.handle, some (ReplicaMutate.movedAway p target),
          some item⟩ = ((((new p.collection opts).pullAdd item).countPulled).emit (.added p.handle),
            none) := by
        refine hmerge.trans ?_
        simp only [mergeTombstone, hrev, if_pos hmoved]
      refine Or.inr ⟨by simp [hmoved], by rw [heffect], ?_, ?_⟩
      · rw [heffect, ← hnone]
        rfl
      · intro q init hi hq
        have hw : (effect p.collection opts ⟨p.handle, some (ReplicaMutate.movedAway p target),
            some item⟩).1.writes = [.upsertPlacement (pulledPlacement p.collection item)] := by
          rw [heffect]
          rfl
        rw [hw] at hq
        simp only [rowAfter_upsert, pulledPlacement, hi item rfl, if_true, rowAfter_nil,
          Option.some.injEq] at hq
        rw [← hq]
        rfl
    · left
      have hmay : (new p.collection opts).opts.mayContent = true := by
        simp [ReplicaSyncOptions.mayContent, new, hg.push, hg.rights, ReplicaPushRights.all]
      obtain ⟨hobject, -⟩ := ReplicaPlacement.stagedEdit_eq_some.mp h.edited
      have hobject' : (ReplicaMutate.movedAway p target).object = some object := hobject
      have hrides : ((ReplicaMutate.movedAway p target).stagedEdit.isSome &&
          (ReplicaMutate.movedAway p target).origin.isSome) = true := by
        rw [h.movedAway_edited]
        rfl
      have heffect : effect p.collection opts ⟨p.handle, some (ReplicaMutate.movedAway p target),
          some item⟩ = ((new p.collection opts).stashContent p.handle
            (ReplicaMutate.movedAway p target), some (.update p.handle object p.baseRevision)) := by
        refine hmerge.trans ?_
        simp only [mergeTombstone, hrev, if_neg hmoved, hrides, if_true, hmay, Bool.not_true,
          Bool.false_eq_true, if_false, hobject']
      refine ⟨item, rfl, Bool.eq_false_iff.mpr hmoved, ?_, by rw [heffect], ?_⟩
      · rw [heffect]
        rfl
      · rw [heffect, ← hnone]
        simp [pendingAt, stashContent]

/-- The move leaves a tombstone under the source handle. -/
theorem staged_tombstone (h : MovedEdit s p object target) (placeholder : ReplicaHandle) :
    ((s.apply (staged p target placeholder)).rows p.collection).rows[p.handle]? =
      some (ReplicaMutate.movedAway p target) := by
  rw [(staged_rows s h.elsewhere placeholder).1]
  exact OrderedMap.get_insert_self _ _ _

/-- What the move staged in the target is there after the run, and nothing else is. -/
theorem offered_target (h : MovedEdit s p object target) {placeholder : ReplicaHandle}
    {opts : ReplicaSyncOptions} {snapshot : ReplicaRemoteSnapshot} {t : Transcript}
    (hr : SourceRun s p target placeholder opts snapshot t) :
    Offered (((s.apply (staged p target placeholder)).apply t.writes).rows target) object ↔
      p.linkId.isSome ∨ Offered (s.rows target) object := by
  obtain ⟨loaded, hl, hsync⟩ := hr.syncs
  rw [(s.apply (staged p target placeholder)).apply_sync hsync hl,
    Function.update_of_ne h.elsewhere, (staged_rows s h.elsewhere placeholder).2]
  cases hlink : p.linkId.isSome with
  | false => simp
  | true =>
    simp only [if_true, true_or, iff_true]
    obtain ⟨hobject, -⟩ := ReplicaPlacement.stagedEdit_eq_some.mp h.edited
    refine ⟨placeholder, ReplicaMutate.stagedCopy p target placeholder, ?_, rfl, ?_⟩
    · exact OrderedMap.get_insert_self _ _ _
    · rw [ReplicaPlacement.stagedEdit_eq_some]
      exact ⟨hobject, fun b hb => by cases hb⟩

/-- A body no other row of the source held is in no Created row of it after the run. -/
theorem not_offered_source (h : MovedEdit s p object target) {placeholder : ReplicaHandle}
    {opts : ReplicaSyncOptions} {snapshot : ReplicaRemoteSnapshot} {t : Transcript}
    (hr : SourceRun s p target placeholder opts snapshot t)
    (halone : Alone (s.rows p.collection) p object) :
    ¬ Offered (((s.apply (staged p target placeholder)).apply t.writes).rows p.collection)
      object := by
  rintro ⟨g, q, hq, hs, ho⟩
  obtain ⟨loaded, hl, hsync⟩ := hr.syncs
  rw [(s.apply (staged p target placeholder)).apply_sync hsync hl, Function.update_self] at hq
  obtain ⟨g', p', hp', hlive, hstaged⟩ := hsync.created_staged hl hq hs ho
  by_cases hg : g' = p.handle
  · rw [hg, h.staged_tombstone placeholder] at hp'
    cases hp'
    exact hlive rfl
  · rw [(staged_rows s h.elsewhere placeholder).1, CollectionRows.get_write, rowAfter_upsert] at hp'
    have hne : (ReplicaMutate.movedAway p target).handle ≠ g' := Ne.symm hg
    rw [if_neg hne, rowAfter_nil] at hp'
    exact hg (halone g' p' hp' hstaged)

/-- An unmoved remote takes the Update, or leaves the tombstone holding the edit. -/
theorem survives_unmoved (h : MovedEdit s p object target) {placeholder : ReplicaHandle}
    {opts : ReplicaSyncOptions} {snapshot : ReplicaRemoteSnapshot} {t : Transcript}
    (hr : SourceRun s p target placeholder opts snapshot t)
    (hu : Unmoved p ((s.apply (staged p target placeholder)).rows p.collection) snapshot) :
    Pushed p object t ∨
      Holds (((s.apply (staged p target placeholder)).apply t.writes).rows p.collection) p object := by
  obtain ⟨loaded, hl, hsync⟩ := hr.syncs
  have hrow := h.staged_tombstone placeholder
  have hat := Merge.candidateAt_seen snapshot hrow (by simp [ReplicaMutate.movedAway])
  obtain ⟨hafter, hchanges⟩ := hsync.runAt (c := ⟨p.handle, _, _⟩) hl hat hr.undisturbed
  rw [(s.apply (staged p target placeholder)).apply_sync hsync hl, Function.update_self]
  rcases h.effect_moved hr.granted (Merge.seen
    ((s.apply (staged p target placeholder)).rows p.collection).rows snapshot p.handle) with
    ⟨-, -, -, hw, hchange, -⟩ | ⟨hgone, -⟩
  · cases hc : Outbox.confirmation p.handle t.pushes with
    | some r =>
      refine Or.inl ⟨?_, by rw [hc]; rfl⟩
      have hmem : ReplicaChange.new p.collection (.update p.handle object p.baseRevision) ∈
          t.changes.filter (fun k => k.handle = p.handle) := by
        rw [hchanges, hchange]
        exact List.mem_singleton.mpr rfl
      exact ⟨_, (List.mem_filter.mp hmem).1, p.baseRevision, rfl⟩
    | none =>
      refine Or.inr ⟨ReplicaMutate.movedAway p target, ?_, ?_, h.movedAway_edited⟩
      · dsimp only at hafter
        rw [CollectionRows.get_apply, hafter, hc, hw, hrow]
        rfl
      · simp [ReplicaMutate.movedAway]
  · exact absurd hu hgone

/-- A remote that moved, or lost the member, takes the edit with the tombstone. -/
theorem lost_moved (h : MovedEdit s p object target) {placeholder : ReplicaHandle}
    {opts : ReplicaSyncOptions} {snapshot : ReplicaRemoteSnapshot} {t : Transcript}
    (hr : SourceRun s p target placeholder opts snapshot t)
    (hu : ¬ Unmoved p ((s.apply (staged p target placeholder)).rows p.collection) snapshot) :
    ¬ Pushed p object t ∧
      ¬ Holds (((s.apply (staged p target placeholder)).apply t.writes).rows p.collection) p
        object := by
  obtain ⟨loaded, hl, hsync⟩ := hr.syncs
  have hrow := h.staged_tombstone placeholder
  have hat := Merge.candidateAt_seen snapshot hrow (by simp [ReplicaMutate.movedAway])
  obtain ⟨hafter, hchanges⟩ := hsync.runAt (c := ⟨p.handle, _, _⟩) hl hat hr.undisturbed
  rw [(s.apply (staged p target placeholder)).apply_sync hsync hl, Function.update_self]
  rcases h.effect_moved hr.granted (Merge.seen
    ((s.apply (staged p target placeholder)).rows p.collection).rows snapshot p.handle) with
    ⟨item, hseen, hmoved, -⟩ | ⟨-, hchange, hpend, hlost⟩
  · exact absurd ⟨item, hseen, hmoved⟩ hu
  · refine ⟨?_, ?_⟩
    · rintro ⟨⟨k, hk, ifMatch, hkind⟩, -⟩
      have hmem : k ∈ t.changes.filter (fun k => k.handle = p.handle) := by
        rw [List.mem_filter]
        exact ⟨hk, by simp [ReplicaChange.handle, hkind, ReplicaChangeKind.handle]⟩
      rw [hchanges, hchange] at hmem
      cases hmem
    · rintro ⟨q, hq, -, hedit⟩
      have hspec := Merge.candidates_spec ((s.apply (staged p target placeholder)).rows p.collection)
        snapshot
      have hitem := (hspec.paired ⟨p.handle, _, _⟩ ((hspec.mem_iff _).mpr hat)).remote
      dsimp only at hafter
      rw [CollectionRows.get_apply, hafter, hpend] at hq
      have hnone : q.stagedEdit = none := by
        refine hlost q (some (ReplicaMutate.movedAway p target)) hitem ?_
        rw [hrow] at hq
        cases hc : Outbox.confirmation p.handle t.pushes with
        | none =>
          rw [hc] at hq
          exact hq
        | some r =>
          rw [hc] at hq
          exact hq
      rw [hnone] at hedit
      cases hedit

/-- A moved edit survives the source's sync where the move staged it in the target too, where the
remote did not move under it, or where the target offered it already. It survives nowhere else,
unless another row of the source held the same body. -/
theorem moved_edit_survives_iff (h : MovedEdit s p object target) {placeholder : ReplicaHandle}
    {opts : ReplicaSyncOptions} {snapshot : ReplicaRemoteSnapshot} {t : Transcript}
    (hr : SourceRun s p target placeholder opts snapshot t) :
    ((p.linkId.isSome ∨
        Unmoved p ((s.apply (staged p target placeholder)).rows p.collection) snapshot ∨
        Offered (s.rows target) object) →
      Survives p object target t ((s.apply (staged p target placeholder)).apply t.writes)) ∧
    (Alone (s.rows p.collection) p object →
      Survives p object target t ((s.apply (staged p target placeholder)).apply t.writes) →
      p.linkId.isSome ∨
        Unmoved p ((s.apply (staged p target placeholder)).rows p.collection) snapshot ∨
        Offered (s.rows target) object) := by
  have htarget := h.offered_target hr
  refine ⟨?_, ?_⟩
  · rintro (hlink | hunmoved | hoffered)
    · exact Or.inr (Or.inr (Or.inr (htarget.mpr (Or.inl hlink))))
    · rcases h.survives_unmoved hr hunmoved with hpushed | hholds
      · exact Or.inl hpushed
      · exact Or.inr (Or.inl hholds)
    · exact Or.inr (Or.inr (Or.inr (htarget.mpr (Or.inr hoffered))))
  · intro halone hsurvives
    by_cases hunmoved : Unmoved p ((s.apply (staged p target placeholder)).rows p.collection) snapshot
    · exact Or.inr (Or.inl hunmoved)
    · obtain ⟨hpushed, hholds⟩ := h.lost_moved hr hunmoved
      rcases hsurvives with hs | hs | hs | hs
      · exact absurd hs hpushed
      · exact absurd hs hholds
      · exact absurd hs (h.not_offered_source hr halone)
      · rcases htarget.mp hs with hlink | hoffered
        · exact Or.inl hlink
        · exact Or.inr (Or.inr hoffered)

section Runs

/-- The edited card, alone in a storage. -/
def cards : Storage := Storage.empty.write (.upsertPlacement StagedEdit.card)

theorem cards_rows : cards.rows ⟨"contacts"⟩ =
    CollectionRows.empty.write (.upsertPlacement StagedEdit.card) := by
  rw [cards, Storage.write_rows _ (c := ⟨"contacts"⟩) rfl, Function.update_self]
  rfl

theorem cards_archive : cards.rows ⟨"archive"⟩ = CollectionRows.empty := by
  rw [cards, Storage.write_rows _ (c := ⟨"contacts"⟩) rfl, Function.update_of_ne (by decide)]
  rfl

/-- The card about to be moved to the archive. -/
theorem card_moved : MovedEdit cards StagedEdit.card ⟨"new"⟩ ⟨"archive"⟩ where
  stored := by
    rw [show StagedEdit.card.collection = ⟨"contacts"⟩ from rfl, cards_rows]
    exact OrderedMap.get_insert_self _ _ _
  based := rfl
  edited := by decide
  elsewhere := by decide

/-- What the source syncs after the move: the tombstone alone. -/
def movedSeam (items : List ReplicaRemoteItem) (replies : List (List ReplicaPushResult)) : Seam :=
  ⟨(CollectionRows.empty.write (.upsertPlacement StagedEdit.card)).write
    (.upsertPlacement (ReplicaMutate.movedAway StagedEdit.card ⟨"archive"⟩)), none,
    ⟨items, [], true, ⟨[]⟩⟩, replies⟩

theorem movedSeam_rows (items : List ReplicaRemoteItem) (replies : List (List ReplicaPushResult)) :
    (cards.apply (staged StagedEdit.card ⟨"archive"⟩ ⟨"a"⟩)).rows ⟨"contacts"⟩ =
      (movedSeam items replies).rows := by
  have h := (staged_rows cards card_moved.elsewhere ⟨"a"⟩).1
  rw [show StagedEdit.card.collection = ⟨"contacts"⟩ from rfl, cards_rows] at h
  exact h

theorem movedSeam_get (items : List ReplicaRemoteItem) (replies : List (List ReplicaPushResult))
    (g : ReplicaHandle) : (movedSeam items replies).rows.rows[g]? =
      if StagedEdit.card.handle = g then
        some (ReplicaMutate.movedAway StagedEdit.card ⟨"archive"⟩) else none := by
  have hh : (ReplicaMutate.movedAway StagedEdit.card ⟨"archive"⟩).handle = StagedEdit.card.handle :=
    rfl
  rw [movedSeam, CollectionRows.get_write, rowAfter_upsert, rowAfter_nil,
    CollectionRows.get_single, hh]
  split <;> rfl

/-- A completed run of the tombstone is a source run, no handle being assigned twice. -/
theorem movedSeam_run {items : List ReplicaRemoteItem} {replies : List (List ReplicaPushResult)}
    {s' : Seam} {t : Transcript} {fuel : ℕ}
    (h : (movedSeam items replies).sync fuel ⟨"contacts"⟩ .default = some (s', t))
    (hu : Outbox.Unassigned StagedEdit.card.handle t.pushes) :
    SourceRun cards StagedEdit.card ⟨"archive"⟩ ⟨"a"⟩ .default ⟨items, [], true, ⟨[]⟩⟩ t := by
  have hrows := movedSeam_rows items replies
  refine ⟨⟨rfl, rfl⟩, ⟨⟨(movedSeam items replies).rows.placements, none⟩, ?_,
    (Seam.sync_syncs h).1⟩, ?_, hu⟩
  · exact congrArg CollectionRows.placements hrows.symm
  · intro g q hq hg
    rw [show StagedEdit.card.collection = ⟨"contacts"⟩ from rfl, hrows, movedSeam_get,
      if_neg (Ne.symm hg)] at hq
    cases hq

/-- An unlinked card edited, then moved, then deleted on the remote: the edit is gone. -/
theorem moved_card_lost : ∃ t,
    MovedEdit cards StagedEdit.card ⟨"new"⟩ ⟨"archive"⟩ ∧
    SourceRun cards StagedEdit.card ⟨"archive"⟩ ⟨"a"⟩ .default ⟨[], [], true, ⟨[]⟩⟩ t ∧
    ¬ Survives StagedEdit.card ⟨"new"⟩ ⟨"archive"⟩ t
      ((cards.apply (staged StagedEdit.card ⟨"archive"⟩ ⟨"a"⟩)).apply t.writes) := by
  have hrun : ((movedSeam [] []).sync 9 ⟨"contacts"⟩ .default).map
      (fun o => (o.2.pushes, o.2.writes)) = some ([], [.dropPlacement ⟨"contacts"⟩ ⟨"a"⟩ .deleted,
        .setCheckpoint ⟨"contacts"⟩ ⟨[]⟩]) := by decide
  obtain ⟨⟨s', t⟩, hd, heq⟩ := Option.map_eq_some_iff.mp hrun
  simp only [Prod.mk.injEq] at heq
  obtain ⟨hpushes, hwrites⟩ := heq
  have hsource := movedSeam_run hd (by rw [hpushes]; exact fun e he => (by cases he))
  refine ⟨t, card_moved, hsource, ?_⟩
  obtain ⟨loaded, hl, hsync⟩ := hsource.syncs
  have hempty : ∀ g : ReplicaHandle, (((cards.apply (staged StagedEdit.card ⟨"archive"⟩ ⟨"a"⟩)).apply
      t.writes).rows ⟨"contacts"⟩).rows[g]? = none := by
    intro g
    have hafter := (cards.apply (staged StagedEdit.card ⟨"archive"⟩ ⟨"a"⟩)).apply_sync hsync hl
    rw [show StagedEdit.card.collection = ⟨"contacts"⟩ from rfl] at hafter
    rw [hafter, Function.update_self, movedSeam_rows [] [], CollectionRows.get_apply, hwrites,
      movedSeam_get]
    simp only [rowAfter_drop, rowAfter_setCheckpoint, rowAfter_nil]
    split
    · rfl
    · rename_i hg
      exact if_neg hg
  rintro (⟨-, hconf⟩ | ⟨q, hq, -⟩ | ⟨g, q, hq, -⟩ | hoffered)
  · rw [hpushes] at hconf
    cases hconf
  · rw [show StagedEdit.card.collection = ⟨"contacts"⟩ from rfl, hempty] at hq
    cases hq
  · rw [show StagedEdit.card.collection = ⟨"contacts"⟩ from rfl, hempty] at hq
    cases hq
  · rw [card_moved.offered_target hsource, cards_archive] at hoffered
    rcases hoffered with hlink | ⟨g, q, hq, -⟩
    · cases hlink
    · simp [CollectionRows.empty] at hq

/-- The same card, its remote untouched, keeps its edit. -/
theorem moved_card_survives : ∃ t, SourceRun cards StagedEdit.card ⟨"archive"⟩ ⟨"a"⟩ .default
      ⟨[⟨⟨"a"⟩, .empty, some "1"⟩], [], true, ⟨[]⟩⟩ t ∧
    Survives StagedEdit.card ⟨"new"⟩ ⟨"archive"⟩ t
      ((cards.apply (staged StagedEdit.card ⟨"archive"⟩ ⟨"a"⟩)).apply t.writes) := by
  have hrun : ((movedSeam [⟨⟨"a"⟩, .empty, some "1"⟩] [[⟨⟨"a"⟩, .accepted, none, some "2"⟩]]).sync 9
      ⟨"contacts"⟩ .default).map (fun o => o.2.pushes.map (·.2)) =
        some [[⟨⟨"a"⟩, .accepted, none, some "2"⟩]] := by decide
  obtain ⟨⟨s', t⟩, hd, hpushes⟩ := Option.map_eq_some_iff.mp hrun
  have hsource := movedSeam_run hd (Seam.unassigned_of_replies hpushes (by decide))
  refine ⟨t, hsource, (card_moved.moved_edit_survives_iff hsource).1 (Or.inr (Or.inl ?_))⟩
  refine ⟨⟨⟨"a"⟩, .empty, some "1"⟩, ?_, by decide⟩
  rw [show StagedEdit.card.collection = ⟨"contacts"⟩ from rfl, movedSeam_rows [] []]
  decide

end Runs

end MovedEdit
end IoReplica

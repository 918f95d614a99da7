import IoReplica.Mutated
import IoReplica.Sync.Rights

/-! An edit against a delete, either way round: what a run leaves of an edited row its remote
deleted, and of a deleted row its remote edited. -/
namespace IoReplica

/-- A snapshot shows a member gone: absent from a whole listing, or named by a delta. -/
def ReplicaRemoteSnapshot.Gone (snapshot : ReplicaRemoteSnapshot) (h : ReplicaHandle) : Prop :=
  if snapshot.complete then snapshot.reported h = none else h ∈ snapshot.vanished

/-- A row holding a local edit: a body its base does not hold. -/
structure ReplicaPlacement.Edited (p : ReplicaPlacement) : Prop where
  unsettled : p.status = .dirty ∨ p.status = .conflict
  body : p.object.isSome
  differs : p.object ≠ p.baseObject

/-- The snapshot lists a content revision the row's base does not name. -/
structure ReplicaRemoteItem.Edits (item : ReplicaRemoteItem) (p : ReplicaPlacement) : Prop where
  known : item.revision.isSome
  differs : item.revision ≠ p.baseRevision

/-- The remote accepted the pending change of a row, or a create it gave the row's handle to. -/
def Transcript.AcceptedAt (t : Transcript) (h : ReplicaHandle) : Prop :=
  ∃ e ∈ t.pushes, ∃ r ∈ e.2, r.outcome = .accepted ∧ (r.handle = h ∨ r.assigned = some h)

open ReplicaSync

/-- An edited row that survives a remote delete: stored as a pending create of its body, pushed as
one where that is allowed, and superseded by nothing but an accepted Add. -/
structure EditSurvives (collection : ReplicaCollectionId) (opts : ReplicaSyncOptions)
    (s : CollectionRows) (p : ReplicaPlacement) (t : Transcript) : Prop where
  stored : .upsertPlacement (resurrectedPlacement p) ∈ t.writes
  undeleted : ∀ c, .dropPlacement c p.handle .deleted ∉ t.writes
  added : t.changes.filter (fun k => k.handle = p.handle) =
    if opts.push && opts.rights.add then
      [ReplicaChange.new collection (.add p.handle p.linkId p.flags none p.object)]
    else []
  superseded : ∀ c, .dropPlacement c p.handle .superseded ∈ t.writes →
    ∃ e ∈ t.pushes, ∃ r ∈ e.2, r.outcome = .accepted ∧ r.handle = p.handle
  kept : (s.apply t.writes).rows[p.handle]? = some (resurrectedPlacement p) ∨ t.AcceptedAt p.handle

/-- A deleted row its remote edited meanwhile: no change derived, and the listed member pulled in
its place. -/
structure DeleteYields (collection : ReplicaCollectionId) (s : CollectionRows)
    (p : ReplicaPlacement) (item : ReplicaRemoteItem) (t : Transcript) : Prop where
  underived : t.changes.filter (fun k => k.handle = p.handle) = []
  stored : .upsertPlacement (pulledPlacement collection item) ∈ t.writes
  replaced : (s.apply t.writes).rows[p.handle]? = some (pulledPlacement collection item) ∨
    t.AcceptedAt p.handle

/-- A fork's handle comes after the one it forks from. -/
theorem lt_keepBothHandle (h : ReplicaHandle) (o : ReplicaHash) : h < keepBothHandle h o := by
  have hlist : ∀ (l : List Char) (c : Char) (m : List Char), l < l ++ c :: m := by
    intro l c m
    induction l with
    | nil => exact List.nil_lt_cons c m
    | cons a l ih =>
      rw [List.cons_append, List.cons_lt_cons_iff]
      exact Or.inr ⟨rfl, ih⟩
  have hstring : h.asStr < h.asStr ++ "\x01" ++ o.asStr := by
    rw [String.lt_iff_toList_lt, String.toList_append, String.toList_append, List.append_assoc]
    exact hlist _ _ _
  exact hstring

section Runs

variable {collection : ReplicaCollectionId} {opts : ReplicaSyncOptions} {loaded : ReplicaLoaded}
  {snapshot : ReplicaRemoteSnapshot} {t : Transcript} {box : Outbox}

/-- Only an accepted result moves a row in the push phase. -/
theorem Outbox.rowAfter_recordAll_unaccepted {g : ReplicaHandle} (hp : ∀ g, (box g).Placed g)
    (ha : ¬ t.AcceptedAt g) (init : Option ReplicaPlacement) :
    rowAfter g init (box.recordAll collection t.pushes) = init := by
  apply rowAfter_of_ne
  intro op hop heq
  obtain ⟨r, ⟨e, he, hr⟩, hacc, hop⟩ := recordAll_mem t.pushes hop
  rcases record_row (hp r.handle) hop with hrow | ⟨hrow, -⟩
  · exact ha ⟨e, he, r, hr, hacc, Or.inl (Option.some.inj (hrow.symm.trans heq))⟩
  · exact ha ⟨e, he, r, hr, hacc, Or.inr (hrow.symm.trans heq)⟩

/-- The last candidate to write a row is its own: a fork lands past the row it forks from. -/
theorem WholeRun.row_at (h : WholeRun collection opts loaded snapshot t box) {c : Candidate}
    (hc : c ∈ mergedCandidates loaded snapshot) (init : Option ReplicaPlacement) :
    ∃ earlier, rowAfter c.handle init t.writes =
      rowAfter c.handle (rowAfter c.handle earlier (effect collection opts c).1.writes)
        (box.recordAll collection t.pushes) := by
  obtain ⟨hasc, -, -⟩ := Merge.candidates_spec (CollectionRows.ofLoad loaded.placements) snapshot
  obtain ⟨pre, post, hcs⟩ := List.append_of_mem hc
  have hpost : ∀ op ∈ post.flatMap (fun d => (effect collection opts d).1.writes),
      op.row ≠ some c.handle := by
    intro op hop heq
    obtain ⟨d, hd, hop⟩ := List.mem_flatMap.mp hop
    have hmem : d ∈ mergedCandidates loaded snapshot := by rw [hcs]; simp [hd]
    have hlt : c.handle < d.handle := by
      have hsorted : (mergedCandidates loaded snapshot).Pairwise (fun a b => a.handle < b.handle) :=
        hasc
      rw [hcs, List.pairwise_append, List.pairwise_cons] at hsorted
      exact hsorted.2.1.1 d hd
    obtain ⟨ops, hops, hrow⟩ :=
      ((new collection opts).merge_local (mergedCandidates_paired hmem)).1.writes
    have hop' : op ∈ ops := by
      have hw : (effect collection opts d).1.writes = ops := hops
      rwa [hw] at hop
    rcases hrow op hop' with hr | ⟨g, hr, o, -, rfl⟩
    · exact absurd (Option.some.inj (hr.symm.trans heq)) hlt.ne'
    · have hg : keepBothHandle d.handle o = c.handle := Option.some.inj (hr.symm.trans heq)
      exact absurd hg (hlt.trans (lt_keepBothHandle d.handle o)).ne'
  refine ⟨rowAfter c.handle init (pre.flatMap (fun d => (effect collection opts d).1.writes)), ?_⟩
  rw [h.writes, hcs, List.flatMap_append, List.flatMap_cons]
  simp only [rowAfter_append, rowAfter_of_ne _ hpost, rowAfter_setCheckpoint, rowAfter_nil]

/-- A row whose member is gone is merged against nothing. -/
theorem seen_of_gone {s : CollectionRows} {h : ReplicaHandle} {p : ReplicaPlacement}
    (hp : s.rows[h]? = some p) (hg : snapshot.Gone h) :
    Merge.candidateAt s.rows snapshot h = some ⟨h, some p, none⟩ := by
  simp only [Merge.candidateAt, hp, Option.isSome_some, true_or, if_true]
  cases hc : snapshot.complete with
  | true =>
    have hnone : snapshot.reported h = none := by simpa [ReplicaRemoteSnapshot.Gone, hc] using hg
    simp [Merge.select, Merge.between, hc, hnone]
  | false =>
    have hv : h ∈ snapshot.vanished := by simpa [ReplicaRemoteSnapshot.Gone, hc] using hg
    simp [Merge.select, Merge.between, Merge.narrow, hc, hv]

/-- A listed row is merged against what lists it, unless a delta names it gone as well. -/
theorem seen_of_listed {s : CollectionRows} {h : ReplicaHandle} {p : ReplicaPlacement}
    (hp : s.rows[h]? = some p) {item : ReplicaRemoteItem} (hi : snapshot.reported h = some item)
    (hg : ¬ snapshot.Gone h) :
    Merge.candidateAt s.rows snapshot h = some ⟨h, some p, some item⟩ := by
  simp only [Merge.candidateAt, hp, Option.isSome_some, true_or, if_true]
  cases hc : snapshot.complete with
  | true => simp [Merge.select, Merge.between, hc, hi]
  | false =>
    have hv : h ∉ snapshot.vanished := by simpa [ReplicaRemoteSnapshot.Gone, hc] using hg
    simp [Merge.select, Merge.between, Merge.narrow, hc, hv, hi]

variable (collection opts) in
/-- The effect of merging an edited row whose member is gone. -/
theorem effect_resurrects {p : ReplicaPlacement} (he : p.Edited) (hb : p.base.isSome) :
    (effect collection opts ⟨p.handle, some p, none⟩).1.writes =
        [.upsertPlacement (resurrectedPlacement p)] ∧
      (effect collection opts ⟨p.handle, some p, none⟩).1.pendingAt p.handle =
        (if opts.mayAdd then { Pending.none with created := some (resurrectedPlacement p) }
        else .none) ∧
      (effect collection opts ⟨p.handle, some p, none⟩).2 =
        (if opts.mayAdd then some (.add p.handle p.linkId p.flags none p.object) else none) := by
  have hlive : p.status ≠ .tombstone := by
    rcases he.unsettled with hs | hs <;> rw [hs] <;> decide
  obtain ⟨base, hbase⟩ := Option.isSome_iff_exists.mp hb
  have hdiffers : p.object ≠ base.object := by
    have hd := he.differs
    rwa [ReplicaPlacement.baseObject, hbase] at hd
  have hedited : editedAgainstDelete p = true := by
    simp [editedAgainstDelete, he.unsettled, he.body, hbase, hdiffers]
  have hnone := new_pendingAt collection opts p.handle
  have hup : ((new collection opts).upsert (resurrectedPlacement p)).pendingAt p.handle =
      .none := hnone
  have hmerge : (new collection opts).merge ⟨p.handle, some p, none⟩ =
      if !opts.mayAdd then ((new collection opts).upsert (resurrectedPlacement p), none)
      else ((new collection opts).upsert (resurrectedPlacement p)).pushAdd p.handle
        (resurrectedPlacement p) := by
    rw [merge_live _ _ hlive]
    simp only [hb, if_true, mergeVanished, hedited]
    rfl
  simp only [effect, hmerge]
  cases hmay : opts.mayAdd with
  | false => exact ⟨rfl, hup, rfl⟩
  | true =>
    refine ⟨rfl, ?_, rfl⟩
    rw [if_pos rfl, ← hup]
    simp [pushAdd, stashCreate, pendingAt]

variable (collection opts) in
/-- A row with no base is taken for a create, and one that is not stays as it is. -/
theorem effect_stranded {p : ReplicaPlacement} (he : p.Edited) (hb : p.base = none) :
    effect collection opts ⟨p.handle, some p, none⟩ = (new collection opts, none) := by
  have hlive : p.status ≠ .tombstone := by
    rcases he.unsettled with hs | hs <;> rw [hs] <;> decide
  have hcreated : p.status ≠ .created := by
    rcases he.unsettled with hs | hs <;> rw [hs] <;> decide
  rw [effect, merge_live _ _ hlive]
  simp [hb, mergeCreate, hcreated]

variable (collection opts) in
/-- The effect of merging a deleted row its remote edited. -/
theorem effect_yields {p : ReplicaPlacement} (hs : p.status = .tombstone)
    {item : ReplicaRemoteItem} (hi : item.Edits p) :
    (effect collection opts ⟨p.handle, some p, some item⟩).1.writes =
        [.upsertPlacement (pulledPlacement collection item)] ∧
      (effect collection opts ⟨p.handle, some p, some item⟩).1.pendingAt p.handle = .none ∧
      (effect collection opts ⟨p.handle, some p, some item⟩).2 = none := by
  have hmoved : movedFrom item p.baseRevision = true := by
    simp [movedFrom, hi.known, hi.differs]
  have hmerge : (new collection opts).merge ⟨p.handle, some p, some item⟩ =
      (new collection opts).mergeAdded p.handle item := by
    rw [merge_tombstone _ _ hs]
    dsimp only
    split
    · simp only [mergeTombstone, hmoved, if_true]
      rfl
    · rfl
  rw [effect, hmerge]
  exact ⟨rfl, new_pendingAt collection opts p.handle, rfl⟩

/-- A drop recorded as superseding is that of a placeholder the handle awaited. -/
theorem Pending.record_superseded {awaits : Pending} {r : ReplicaPushResult}
    (hp : awaits.Placed r.handle) {c : ReplicaCollectionId} {g : ReplicaHandle}
    (h : .dropPlacement c g .superseded ∈ awaits.record collection r) : r.handle = g := by
  simp only [record, List.mem_append, Option.mem_toList, Option.map_eq_some_iff] at h
  rcases h with ((⟨q, -, hq⟩ | ⟨q, -, hq⟩) | h) | h
  · cases hq
  · cases hq
  · split at h
    · simp at h
    · cases h
  · cases hc : awaits.created with
    | none => simp [hc] at h
    | some q =>
      simp only [hc, Option.map_some, Option.getD_some, recordCreate, List.mem_cons,
        ReplicaWriteOp.dropPlacement.injEq, Option.mem_toList, Option.map_eq_some_iff] at h
      rcases h with ⟨-, hg, -⟩ | ⟨a, -, ha⟩
      · rw [hg, hp.created q hc]
      · cases ha

/-- Where a drop a run writes comes from: a merge of a row nothing is shown of, or a record. -/
theorem WholeRun.drop_sources (h : WholeRun collection opts loaded snapshot t box)
    {c : ReplicaCollectionId} {g : ReplicaHandle} {reason : ReplicaDropReason}
    (hop : .dropPlacement c g reason ∈ t.writes) :
    (∃ d ∈ mergedCandidates loaded snapshot, d.handle = g ∧
        .dropPlacement c g reason ∈ (effect collection opts d).1.writes) ∨
      ∃ r, (∃ e ∈ t.pushes, r ∈ e.2) ∧ r.outcome = .accepted ∧
        .dropPlacement c g reason ∈ (box r.handle).record collection r := by
  rw [h.writes] at hop
  simp only [List.mem_append, List.mem_flatMap, List.mem_singleton] at hop
  rcases hop with ⟨d, hd, hop⟩ | hop | hop
  · rcases (new collection opts).merge_writes (mergedCandidates_paired hd) hop with
      hnone | ⟨q, hq, -⟩ | ⟨-, heq⟩
    · cases hnone
    · cases hq
    · exact Or.inl ⟨d, hd, (ReplicaWriteOp.dropPlacement.inj heq).2.1.symm, hop⟩
  · exact Or.inr (Outbox.recordAll_mem t.pushes hop)
  · cases hop

/-- An edited row with a base survives its remote's delete. -/
theorem WholeRun.edit_survives (h : WholeRun collection opts loaded snapshot t box)
    {p : ReplicaPlacement} (hp : (CollectionRows.ofLoad loaded.placements).rows[p.handle]? = some p)
    (he : p.Edited) (hg : snapshot.Gone p.handle) (hb : p.base.isSome) :
    EditSurvives collection opts (CollectionRows.ofLoad loaded.placements) p t := by
  let c : Candidate := ⟨p.handle, some p, none⟩
  have hc : c ∈ mergedCandidates loaded snapshot := (mem_mergedCandidates c).mpr (seen_of_gone hp hg)
  obtain ⟨hwrites, hpend, hchange⟩ := effect_resurrects collection opts he hb
  have hbox := h.awaits c hc
  rw [hpend] at hbox
  have hundropped : (box c.handle).dropped = false := by
    rw [hbox]
    split <;> rfl
  have hown : ∀ {d : Candidate} {x : ReplicaCollectionId} {reason : ReplicaDropReason},
      d ∈ mergedCandidates loaded snapshot → d.handle = p.handle →
      .dropPlacement x p.handle reason ∉ (effect collection opts d).1.writes := by
    intro d x reason hd hdh hop
    rw [mergedCandidates_unique hd hc hdh, hwrites] at hop
    simp at hop
  refine ⟨?_, ?_, ?_, ?_, ?_⟩
  · rw [h.writes]
    refine List.mem_append_left _ (List.mem_flatMap.mpr ⟨c, hc, ?_⟩)
    rw [hwrites]
    exact List.mem_singleton_self _
  · intro x hop
    rcases h.drop_sources hop with ⟨d, hd, hdh, hop⟩ | ⟨r, -, -, hop⟩
    · exact hown hd hdh hop
    · obtain ⟨-, hr, hdropped⟩ := Pending.record_dropped.mp hop
      rw [hr, hundropped] at hdropped
      cases hdropped
  · rw [h.changes_at hc, hchange]
    have hmay : opts.mayAdd = (opts.push && opts.rights.add) := rfl
    rw [← hmay]
    cases opts.mayAdd <;> rfl
  · intro x hop
    rcases h.drop_sources hop with ⟨d, hd, hdh, hop⟩ | ⟨r, ⟨e, he', hr⟩, hacc, hop⟩
    · exact absurd hop (hown hd hdh)
    · exact ⟨e, he', r, hr, hacc, Pending.record_superseded (h.placed r.handle) hop⟩
  · by_cases ha : t.AcceptedAt p.handle
    · exact Or.inr ha
    · obtain ⟨earlier, hrow⟩ := h.row_at hc
        ((CollectionRows.ofLoad loaded.placements).rows[p.handle]?)
      rw [Outbox.rowAfter_recordAll_unaccepted h.placed ha, hwrites, rowAfter_upsert,
        rowAfter_nil] at hrow
      refine Or.inl ?_
      rw [CollectionRows.get_apply, hrow]
      exact if_pos rfl

/-- A deleted row yields to its remote's edit. -/
theorem WholeRun.delete_yields (h : WholeRun collection opts loaded snapshot t box)
    {p : ReplicaPlacement} (hp : (CollectionRows.ofLoad loaded.placements).rows[p.handle]? = some p)
    (hs : p.status = .tombstone) {item : ReplicaRemoteItem}
    (hi : snapshot.reported p.handle = some item) (he : item.Edits p)
    (hg : ¬ snapshot.Gone p.handle) :
    DeleteYields collection (CollectionRows.ofLoad loaded.placements) p item t := by
  let c : Candidate := ⟨p.handle, some p, some item⟩
  have hc : c ∈ mergedCandidates loaded snapshot :=
    (mem_mergedCandidates c).mpr (seen_of_listed hp hi hg)
  obtain ⟨hwrites, -, hchange⟩ := effect_yields collection opts hs he
  refine ⟨?_, ?_, ?_⟩
  · rw [h.changes_at hc, hchange]
    rfl
  · rw [h.writes]
    refine List.mem_append_left _ (List.mem_flatMap.mpr ⟨c, hc, ?_⟩)
    rw [hwrites]
    exact List.mem_singleton_self _
  · by_cases ha : t.AcceptedAt p.handle
    · exact Or.inr ha
    · obtain ⟨earlier, hrow⟩ := h.row_at hc
        ((CollectionRows.ofLoad loaded.placements).rows[p.handle]?)
      rw [Outbox.rowAfter_recordAll_unaccepted h.placed ha, hwrites, rowAfter_upsert,
        rowAfter_nil] at hrow
      refine Or.inl ?_
      have hh : (pulledPlacement collection item).handle = p.handle :=
        ReplicaRemoteSnapshot.reported_handle hi
      rw [CollectionRows.get_apply, hrow]
      exact if_pos hh

end Runs

/-- What a run over the loaded rows owes the edits it meets, against a delete either way round. -/
structure EditBeatsDelete (collection : ReplicaCollectionId) (opts : ReplicaSyncOptions)
    (loaded : ReplicaLoaded) (snapshot : ReplicaRemoteSnapshot) (t : Transcript) : Prop where
  survives : ∀ (h : ReplicaHandle) (p : ReplicaPlacement),
    (CollectionRows.ofLoad loaded.placements).rows[h]? = some p → p.Edited → snapshot.Gone h →
    EditSurvives collection opts (CollectionRows.ofLoad loaded.placements) p t
  yields : ∀ (h : ReplicaHandle) (p : ReplicaPlacement) (item : ReplicaRemoteItem),
    (CollectionRows.ofLoad loaded.placements).rows[h]? = some p → p.status = .tombstone →
    snapshot.reported h = some item → item.Edits p →
    DeleteYields collection (CollectionRows.ofLoad loaded.placements) p item t

/-- The rows and the snapshot an edit beats a delete over: every edited row shown gone has a base,
and no delta names gone a deleted row it lists an edit of. -/
structure DeletesBeaten (loaded : ReplicaLoaded) (snapshot : ReplicaRemoteSnapshot) : Prop where
  based : ∀ (h : ReplicaHandle) (p : ReplicaPlacement),
    (CollectionRows.ofLoad loaded.placements).rows[h]? = some p → p.Edited → snapshot.Gone h →
    p.base.isSome
  listed : ∀ (h : ReplicaHandle) (p : ReplicaPlacement) (item : ReplicaRemoteItem),
    (CollectionRows.ofLoad loaded.placements).rows[h]? = some p → p.status = .tombstone →
    snapshot.reported h = some item → item.Edits p → ¬ snapshot.Gone h

/-- An edit beats a delete both ways round, whatever is allowed and reported, exactly when no
edited row shown gone lacks a base and no delta contradicts itself over a deleted one. -/
theorem edit_beats_delete_iff (collection : ReplicaCollectionId) (loaded : ReplicaLoaded)
    (snapshot : ReplicaRemoteSnapshot) :
    (∀ opts t, Syncs collection opts loaded snapshot t →
      EditBeatsDelete collection opts loaded snapshot t) ↔ DeletesBeaten loaded snapshot := by
  have hkeyed := (CollectionRows.ofLoad loaded.placements).keyed
  constructor
  · intro hall
    refine ⟨?_, ?_⟩
    · intro h p hp he hg
      obtain rfl := hkeyed h p hp
      by_contra hb
      rw [Option.not_isSome_iff_eq_none] at hb
      -- allowed to push, the run still derives no Add of the stranded body
      obtain ⟨t, ht⟩ := exists_syncs collection .default loaded snapshot
      obtain ⟨box, hwhole⟩ := ht.whole
      have hadded := ((hall .default t ht).survives p.handle p hp he hg).added
      have hc : (⟨p.handle, some p, none⟩ : Candidate) ∈ mergedCandidates loaded snapshot :=
        (mem_mergedCandidates _).mpr (seen_of_gone hp hg)
      rw [hwhole.changes_at hc, effect_stranded collection .default he hb] at hadded
      cases hadded
    · intro h p item hp hs hi he hg
      obtain rfl := hkeyed h p hp
      -- read-only, the run has no result that could bring the dropped row back
      let readOnly : ReplicaSyncOptions := { ReplicaSyncOptions.default with push := false }
      obtain ⟨t, ht⟩ := exists_syncs collection readOnly loaded snapshot
      obtain ⟨box, hwhole⟩ := ht.whole
      have hunaccepted : ¬ t.AcceptedAt p.handle := by
        rintro ⟨e, he', -⟩
        obtain ⟨x, hx, hpush⟩ := List.mem_filterMap.mp he'
        split at hpush
        · exact ht.unpushed rfl _ hx _ _ rfl
        · cases hpush
      have hc : (⟨p.handle, some p, none⟩ : Candidate) ∈ mergedCandidates loaded snapshot :=
        (mem_mergedCandidates _).mpr (seen_of_gone hp hg)
      have hdropped : (effect collection readOnly ⟨p.handle, some p, none⟩).1.writes =
          [.dropPlacement collection p.handle .deleted] := by
        rw [effect, merge_tombstone _ _ hs]
        rfl
      obtain ⟨earlier, hrow⟩ := hwhole.row_at hc
        ((CollectionRows.ofLoad loaded.placements).rows[p.handle]?)
      rw [Outbox.rowAfter_recordAll_unaccepted hwhole.placed hunaccepted, hdropped, rowAfter_drop,
        rowAfter_nil, if_pos rfl] at hrow
      rcases ((hall readOnly t ht).yields p.handle p item hp hs hi he).replaced with hfinal | hacc
      · rw [CollectionRows.get_apply] at hfinal
        dsimp only at hrow
        rw [hrow] at hfinal
        cases hfinal
      · exact hunaccepted hacc
  · rintro ⟨hbased, hlisted⟩ opts t ht
    obtain ⟨box, hwhole⟩ := ht.whole
    refine ⟨?_, ?_⟩
    · intro h p hp he hg
      obtain rfl := hkeyed h p hp
      exact hwhole.edit_survives hp he hg (hbased p.handle p hp he hg)
    · intro h p item hp hs hi he
      obtain rfl := hkeyed h p hp
      exact hwhole.delete_yields hp hs hi he (hlisted p.handle p item hp hs hi he)

section Runs

/-- A card staged offline, and what an edit makes of it once it was removed again. -/
def addCard : ReplicaMutation := .add ⟨"n"⟩ ⟨"ada"⟩ .empty ⟨⟨"old"⟩, 3⟩ [] none .unknown

def addedCard : ReplicaPlacement :=
  ReplicaMutate.created ⟨"contacts"⟩ ⟨"n"⟩ ⟨"ada"⟩ .empty ⟨⟨"old"⟩, 3⟩ none .unknown

def editCard : ReplicaMutation := .edit ⟨"n"⟩ ⟨⟨"new"⟩, 3⟩ [] none none

def strandedCard : ReplicaPlacement :=
  ReplicaMutate.edited (ReplicaMutate.removed addedCard) ⟨"new"⟩ none none

/-- A remote that holds nothing. -/
def bareSnapshot : ReplicaRemoteSnapshot := ⟨[], [], true, ⟨[]⟩⟩

/-- A card added, removed and edited again before any sync is left Dirty without a base: free to
push, a sync leaves it as it is and adds it nowhere. -/
theorem offline_edit_stranded : ∃ a r e t : Transcript, ∃ added removed edited : CollectionRows,
    Mutates ⟨"contacts"⟩ addCard ⟨CollectionRows.empty.placements, none⟩ a ∧
    added = CollectionRows.empty.apply a.writes ∧
    Mutates ⟨"contacts"⟩ (.remove ⟨"n"⟩) ⟨added.placements, none⟩ r ∧
    removed = added.apply r.writes ∧
    Mutates ⟨"contacts"⟩ editCard ⟨removed.placements, none⟩ e ∧
    edited = removed.apply e.writes ∧
    Syncs ⟨"contacts"⟩ .default ⟨edited.placements, none⟩ bareSnapshot t ∧
    edited.rows[(⟨"n"⟩ : ReplicaHandle)]? = some strandedCard ∧ strandedCard.Edited ∧
    strandedCard.status = .dirty ∧ strandedCard.base = none ∧ bareSnapshot.Gone ⟨"n"⟩ ∧
    (edited.apply t.writes).rows[(⟨"n"⟩ : ReplicaHandle)]? = some strandedCard ∧
    ¬ EditBeatsDelete ⟨"contacts"⟩ .default ⟨edited.placements, none⟩ bareSnapshot t := by
  let added := CollectionRows.empty.write (.upsertPlacement addedCard)
  let removed := added.write (.upsertPlacement (ReplicaMutate.removed addedCard))
  let edited := removed.write (.upsertPlacement strandedCard)
  have hrun : ((⟨edited, none, bareSnapshot, []⟩ : Seam).sync 9 ⟨"contacts"⟩ .default).map
      (fun o => (o.2.changes, o.1.rows.rows[(⟨"n"⟩ : ReplicaHandle)]?)) =
        some ([], some strandedCard) := by decide +kernel
  obtain ⟨⟨s, t⟩, hd, heq⟩ := Option.map_eq_some_iff.mp hrun
  obtain ⟨hsync, hrows⟩ := Seam.sync_syncs hd
  simp only [Prod.mk.injEq] at heq
  obtain ⟨hchanges, hleft⟩ := heq
  have hstored : edited.rows[(⟨"n"⟩ : ReplicaHandle)]? = some strandedCard := by decide +kernel
  have hfree : ReplicaMutate.collides ⟨"ada"⟩ CollectionRows.empty.placements = false := by
    decide +kernel
  have hadded : added.placements.find? (fun q => q.handle = ⟨"n"⟩) = some addedCard := by
    decide +kernel
  have hremoved : removed.placements.find? (fun q => q.handle = ⟨"n"⟩) =
      some (ReplicaMutate.removed addedCard) := by decide +kernel
  have hedited : strandedCard.Edited := ⟨Or.inl rfl, rfl, by decide⟩
  refine ⟨_, _, _, t, added, removed, edited, (Stages.add _ _ _ _ _ _ _ hfree).mutates, rfl,
    (Stages.source rfl hadded).mutates, rfl, (Stages.source rfl hremoved).mutates, rfl, hsync,
    hstored, hedited, rfl, rfl, rfl, hrows ▸ hleft, ?_⟩
  intro hbeats
  have hloaded : (CollectionRows.ofLoad edited.placements).rows = edited.rows :=
    CollectionRows.collect_placements edited
  have hpushed := (hbeats.survives ⟨"n"⟩ strandedCard (hloaded ▸ hstored) hedited rfl).added
  rw [hchanges] at hpushed
  cases hpushed

end Runs
end IoReplica

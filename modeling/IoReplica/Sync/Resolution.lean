import IoReplica.Mutated
import IoReplica.Sync.Survives

/-! A conflict resolved by an edit, and the sync that follows: the resolution is pushed against the
remote state it was taken against, and no other. -/
namespace IoReplica

open ReplicaSync

section Runs

variable {collection : ReplicaCollectionId} {opts : ReplicaSyncOptions} {loaded : ReplicaLoaded}
  {snapshot : ReplicaRemoteSnapshot} {t : Transcript} {box : Outbox}

/-- A run that keeps no second side writes a row by its own candidate alone. -/
theorem WholeRun.runAt (h : WholeRun collection opts loaded snapshot t box)
    (hk : opts.conflict ≠ .keepBoth) {c : Candidate} (hc : c ∈ mergedCandidates loaded snapshot)
    (hu : Outbox.Unassigned c.handle t.pushes) : RunAt collection opts c t := by
  obtain ⟨hasc, -, -⟩ := Merge.candidates_spec (CollectionRows.ofLoad loaded.placements) snapshot
  have hsorted : (mergedCandidates loaded snapshot).Pairwise (fun a b => a.handle < b.handle) :=
    hasc
  refine ⟨?_, h.changes_at hc⟩
  intro init
  obtain ⟨pre, post, hcs⟩ := List.append_of_mem hc
  rw [hcs, List.pairwise_append, List.pairwise_cons] at hsorted
  obtain ⟨-, ⟨hpost, -⟩, hpre⟩ := hsorted
  have hothers : ∀ ds : List Candidate,
      (∀ d ∈ ds, d ∈ mergedCandidates loaded snapshot ∧ d.handle ≠ c.handle) →
      ∀ op ∈ ds.flatMap (fun d => (effect collection opts d).1.writes), op.row ≠ some c.handle := by
    intro ds hds op hop heq
    obtain ⟨d, hd, hop⟩ := List.mem_flatMap.mp hop
    obtain ⟨hmem, hne⟩ := hds d hd
    rcases (new collection opts).merge_writes (mergedCandidates_paired hmem) hop with
      hnone | ⟨q, rfl, hq⟩ | ⟨-, rfl⟩
    · cases hnone
    · rcases hq with hq | hq
      · exact hne (hq.symm.trans (Option.some.inj heq))
      · exact hk hq
    · exact hne (Option.some.inj heq)
  have hbefore := hothers pre (fun d hd =>
    ⟨by rw [hcs]; simp [hd], (hpre d hd c List.mem_cons_self).ne⟩)
  have hafter := hothers post (fun d hd => ⟨by rw [hcs]; simp [hd], (hpost d hd).ne'⟩)
  rw [h.writes, hcs, List.flatMap_append, List.flatMap_cons]
  simp only [rowAfter_append, rowAfter_of_ne _ hbefore, rowAfter_of_ne _ hafter,
    rowAfter_setCheckpoint, rowAfter_nil, Outbox.rowAfter_recordAll h.placed _ hu, h.awaits c hc]

end Runs

/-- A row whose content another row shares: the flag axis moves nothing of it. -/
structure SameContent (p q : ReplicaPlacement) : Prop where
  object : q.object = p.object
  baseObject : q.baseObject = p.baseObject
  baseRevision : q.baseRevision = p.baseRevision
  conflictRevision : q.conflictRevision = p.conflictRevision
  conflictObject : q.conflictObject = p.conflictObject
  conflicted : p.status = .conflict → q.status = .conflict

namespace SameContent

variable {p : ReplicaPlacement}

theorem refl (p : ReplicaPlacement) : SameContent p p := ⟨rfl, rfl, rfl, rfl, rfl, id⟩

theorem flagged (p : ReplicaPlacement) (flags : ReplicaFlags) :
    SameContent p { p with flags := flags } := ⟨rfl, rfl, rfl, rfl, rfl, id⟩

theorem settled (p : ReplicaPlacement) (flags flags' : ReplicaFlags) :
    SameContent p { p with
      flags := flags, status := settledStatus p, base := flagBase p flags' } := by
  refine ⟨rfl, rfl, rfl, rfl, rfl, ?_⟩
  intro hs
  simp [settledStatus, hs]

theorem flagRow {base : ReplicaBase} {item : ReplicaRemoteItem} {q : ReplicaPlacement}
    (h : ReplicaSync.flagRow base p item = some q) : SameContent p q := by
  simp only [ReplicaSync.flagRow] at h
  split at h
  · split at h
    · cases h
      exact settled p _ _
    · cases h
  · split at h
    · cases h
      exact flagged p _
    · cases h

end SameContent

/-- A run whose content axis left `p` to the flag axis leaves its content as it is. -/
theorem RunAt.flags_only {collection : ReplicaCollectionId} {opts : ReplicaSyncOptions}
    {c : Candidate} {t : Transcript} (h : RunAt collection opts c t) {p : ReplicaPlacement}
    {base : ReplicaBase} {item : ReplicaRemoteItem} {d : ReplicaSync} (hp : p.handle = c.handle)
    (hb : p.base = some base) (hd : effect collection opts c = d.reconcileFlags p item .derive)
    (hpend : d.pendingAt c.handle = .none) (init : Option ReplicaPlacement)
    (hrow : rowAfter c.handle init d.writes = some p) :
    ∃ q, rowAfter c.handle init t.writes = some q ∧ SameContent p q := by
  obtain ⟨g, loc, remote⟩ := c
  dsimp only at hp hpend hrow ⊢
  subst hp
  obtain ⟨hfw, hfp, -⟩ := d.reconcileFlags_spec hb item .derive
  have hmerged : ∃ q, rowAfter p.handle init (d.reconcileFlags p item .derive).1.writes = some q ∧
      SameContent p q := by
    rw [hfw, rowAfter_append, hrow, StagedEdit.rowAfter_flagRow]
    cases hq : flagRow base p item with
    | none => exact ⟨p, rfl, .refl p⟩
    | some q => exact ⟨q, rfl, .flagRow hq⟩
  have hspec := h.row init
  dsimp only at hspec
  rw [hspec, hd]
  cases Outbox.confirmation p.handle t.pushes with
  | none => exact hmerged
  | some r =>
    cases hf : pushesFlags d.opts base p item .derive with
    | false =>
      rw [hf, hpend] at hfp
      simpa [hfp] using hmerged
    | true =>
      rw [hf, hpend] at hfp
      have hrec := StagedEdit.rowAfter_recordFlags { p with flags := mergedFlags base p item }
        (rowAfter p.handle init (d.reconcileFlags p item .derive).1.writes) collection r
      dsimp only at hfp ⊢
      rw [hfp]
      exact ⟨_, hrec, .settled p _ _⟩

namespace ReplicaMutate

/-- The row an edit leaves of a conflict: its decision staged on the remote state recorded. -/
theorem edited_conflict {p : ReplicaPlacement} (hs : p.status = .conflict) (object : ReplicaHash)
    (metadata : Option ReplicaMeta) (sortKey : Option ReplicaSortKey) :
    let q := edited p object metadata sortKey
    q.handle = p.handle ∧ q.status = .dirty ∧ q.object = some object ∧
      q.conflictRevision = none ∧ q.conflictObject = none ∧
      q.base = some ⟨(p.base.getD ⟨p.flags, none, none⟩).flags, p.conflictRevision,
        p.conflictObject⟩ := by
  simp [edited, resolved, hs]

/-- A completed edit writes its body and the row it leaves of the one it loaded. -/
theorem edit_writes {collection : ReplicaCollectionId} {h : ReplicaHandle} {object : ReplicaObject}
    {body : List UInt8} {metadata : Option ReplicaMeta} {sortKey : Option ReplicaSortKey}
    {t : Transcript} {p : ReplicaPlacement}
    (hruns : Coroutine.Runs resume (new collection (.edit h object body metadata sortKey)) none t
      (.ok ()))
    (hp : t.loaded.find? (fun q => q.handle = h) = some p) :
    t.writes = [.storeObject object (some body),
      .upsertPlacement (edited p object.hash metadata sortKey)] := by
  obtain ⟨loaded, hmutates⟩ := runs_mutates hruns
  obtain ⟨hstages, hloaded⟩ := hmutates.stages
  rw [hloaded] at hp
  generalize t.writes = ops at hstages ⊢
  cases hstages with
  | source names found =>
    cases names
    rw [hp] at found
    cases found
    rfl

end ReplicaMutate

/-- A run derives for a candidate's handle what its candidate does. -/
theorem WholeRun.derives_iff {collection : ReplicaCollectionId} {opts : ReplicaSyncOptions}
    {loaded : ReplicaLoaded} {snapshot : ReplicaRemoteSnapshot} {t : Transcript} {box : Outbox}
    (h : WholeRun collection opts loaded snapshot t box) {c : Candidate}
    (hc : c ∈ mergedCandidates loaded snapshot) (kind : ReplicaChangeKind)
    (hk : kind.handle = c.handle) :
    (∃ k ∈ t.changes, k.kind = kind) ↔ (effect collection opts c).2 = some kind := by
  constructor
  · rintro ⟨k, hmem, rfl⟩
    obtain ⟨d, hd, hdk, hmap⟩ := h.mem_changes.mp hmem
    obtain ⟨kind, hkind, rfl⟩ := Option.map_eq_some_iff.mp hmap
    rw [← mergedCandidates_unique hd hc (hdk.trans hk)]
    exact hkind
  · intro hkind
    refine ⟨ReplicaChange.new collection kind, h.mem_changes.mpr ⟨c, hc, hk.symm, ?_⟩, rfl⟩
    rw [hkind]
    rfl

theorem reconcileFlags_no_update (d : ReplicaSync) {p : ReplicaPlacement} {base : ReplicaBase}
    (hb : p.base = some base) (item : ReplicaRemoteItem) (allow : PushFlags) (h : ReplicaHandle)
    (o : ReplicaHash) (ifMatch : Option String) :
    (d.reconcileFlags p item allow).2 ≠ some (.update h o ifMatch) := by
  obtain ⟨-, -, hchange⟩ := d.reconcileFlags_spec hb item allow
  rw [hchange]
  split <;> simp

/-- A row whose edit the remote holds: its body is its base, with no conflict left. -/
structure SyncedAt (object : ReplicaHash) (revision : Option String) (q : ReplicaPlacement) :
    Prop where
  body : q.object = some object
  baseObject : q.baseObject = some object
  baseRevision : q.baseRevision = revision
  settled : q.conflictRevision = none ∧ q.conflictObject = none

/-- What a run makes of a resolution whose remote stands at the revision it was taken against: an
Update unless it restates the remote's own body, and a row synced to it. -/
structure ResolutionLands (h : ReplicaHandle) (revision : String) (settled : Option ReplicaHash)
    (object : ReplicaHash) (t : Transcript) (row : Option ReplicaPlacement) : Prop where
  update : ∀ o ifMatch, (∃ k ∈ t.changes, k.kind = .update h o ifMatch) ↔
    settled ≠ some object ∧ o = object ∧ ifMatch = some revision
  restated : settled = some object → Outbox.Unassigned h t.pushes →
    ∃ q, row = some q ∧ SyncedAt object (some revision) q
  accepted : settled ≠ some object → Outbox.Unassigned h t.pushes →
    ∀ r, Outbox.confirmation h t.pushes = some r → ∃ q, row = some q ∧ SyncedAt object r.revision q

/-- What a run makes of a resolution its remote moved past: no Update, and the conflict taken up
again, or the resolution that restated a remote body refreshed with it. -/
structure ResolutionOvertaken (h : ReplicaHandle) (moved : String) (settled : Option ReplicaHash)
    (object : ReplicaHash) (t : Transcript) (row : Option ReplicaPlacement) : Prop where
  update : ∀ k ∈ t.changes, ∀ o ifMatch, k.kind ≠ .update h o ifMatch
  reopened : settled ≠ some object → Outbox.Unassigned h t.pushes →
    ∃ q, row = some q ∧ q.status = .conflict ∧ q.conflictRevision = some moved ∧
      q.object = some object
  refreshed : settled = some object → Outbox.Unassigned h t.pushes →
    ∃ q, row = some q ∧ q.object = none ∧ q.baseRevision = some moved

section Resolved

variable {collection : ReplicaCollectionId} {opts : ReplicaSyncOptions} {q : ReplicaPlacement}
  {base : ReplicaBase} {object : ReplicaHash} {item : ReplicaRemoteItem}

/-- A resolution restating the remote's body leaves its content alone. -/
theorem effect_restated (hs : q.status = .dirty) (hb : q.base = some base)
    (ho : q.object = some object) (hsame : base.object = some object)
    (hm : movedFrom item base.revision = false) :
    effect collection opts ⟨q.handle, some q, some item⟩ =
      (new collection opts).reconcileFlags q item .derive := by
  have hlive : q.status ≠ .tombstone := by simp [hs]
  have hunchanged : localChanged q base = false := by simp [localChanged, ho, hsame]
  rw [effect, merge_live _ _ hlive]
  simp [mergePresent, reconcileContent, hb, hs, hunchanged, hm]

/-- The run with a conflict marked. -/
theorem effect_reopened (hs : q.status = .dirty) (hb : q.base = some base)
    (ho : q.object = some object) (hne : base.object ≠ some object)
    (hm : movedFrom item base.revision = true) (hc : opts.conflict = .manual) :
    effect collection opts ⟨q.handle, some q, some item⟩ =
      ((((new collection opts).upsert (conflictedPlacement q item)).countConflict).emit
        (.conflicted q.handle)).reconcileFlags (conflictedPlacement q item) item .derive := by
  have hlive : q.status ≠ .tombstone := by simp [hs]
  have hchanged : localChanged q base = true := by simp [localChanged, hs, ho, Ne.symm hne]
  have hopts : (new collection opts).opts.conflict = .manual := hc
  rw [effect, merge_live _ _ hlive]
  simp [mergePresent, reconcileContent, hb, hs, hchanged, hm, resolveConflict, hopts, markConflict]

theorem effect_refreshed (hs : q.status = .dirty) (hb : q.base = some base)
    (ho : q.object = some object) (hsame : base.object = some object)
    (hm : movedFrom item base.revision = true) :
    effect collection opts ⟨q.handle, some q, some item⟩ =
      ((((new collection opts).upsert (refreshedPlacement q item)).countRefreshed).emit
        (.contentChanged q.handle)).reconcileFlags (refreshedPlacement q item) item .derive := by
  have hlive : q.status ≠ .tombstone := by simp [hs]
  have hunchanged : localChanged q base = false := by simp [localChanged, ho, hsame]
  rw [effect, merge_live _ _ hlive]
  simp [mergePresent, reconcileContent, hb, hs, hunchanged, hm, pullContent]

variable {loaded : ReplicaLoaded} {snapshot : ReplicaRemoteSnapshot} {t : Transcript} {box : Outbox}
  {s : CollectionRows}

/-- A resolution staged on a recorded remote state that still stands. -/
theorem WholeRun.resolution_lands (h : WholeRun collection opts loaded snapshot t box)
    (hc : (⟨q.handle, some q, some item⟩ : Candidate) ∈ mergedCandidates loaded snapshot)
    (hk : opts.conflict ≠ .keepBoth) (hmay : opts.mayContent = true)
    (hrow : s.rows[q.handle]? = some q) (hs : q.status = .dirty) (hb : q.base = some base)
    (ho : q.object = some object) (hpair : q.conflictRevision = none ∧ q.conflictObject = none)
    {revision : String} (hrev : base.revision = some revision)
    (hunmoved : item.revision = none ∨ item.revision = some revision) :
    ResolutionLands q.handle revision base.object object t
      (s.apply t.writes).rows[q.handle]? := by
  have hm : movedFrom item base.revision = false := by
    rw [hrev]
    rcases hunmoved with hi | hi <;> simp [movedFrom, hi]
  refine ⟨?_, ?_, ?_⟩
  · intro o ifMatch
    rw [h.derives_iff hc (.update q.handle o ifMatch) rfl]
    by_cases hsame : base.object = some object
    · rw [effect_restated hs hb ho hsame hm]
      constructor
      · intro hupdate
        exact absurd hupdate (reconcileFlags_no_update _ hb item .derive _ o ifMatch)
      · rintro ⟨hne, -⟩
        exact absurd hsame hne
    · have hedit : StagedEdit q base object item := ⟨hs, hb, ho, hsame, hrev ▸ hunmoved⟩
      rw [hedit.effect_eq, hmay, hrev]
      simp only [if_true, Option.some.injEq, ReplicaChangeKind.update.injEq, true_and]
      constructor
      · rintro ⟨rfl, rfl⟩
        exact ⟨hsame, rfl, rfl⟩
      · rintro ⟨-, rfl, rfl⟩
        exact ⟨rfl, rfl⟩
  · intro hsame hu
    have hrun := h.runAt hk hc hu
    obtain ⟨x, hx, hcontent⟩ := hrun.flags_only rfl hb (effect_restated hs hb ho hsame hm)
      (new_pendingAt collection opts q.handle) (some q) rfl
    refine ⟨x, ?_, ?_, ?_, ?_, ?_⟩
    · rw [CollectionRows.get_apply, hrow]
      exact hx
    · rw [hcontent.object, ho]
    · rw [hcontent.baseObject, ReplicaPlacement.baseObject, hb]
      exact hsame
    · rw [hcontent.baseRevision, ReplicaPlacement.baseRevision, hb]
      exact hrev
    · rw [hcontent.conflictRevision, hcontent.conflictObject]
      exact hpair
  · intro hne hu r hr
    have hedit : StagedEdit q base object item := ⟨hs, hb, ho, hne, hrev ▸ hunmoved⟩
    have hout := (hedit.outcome_of_runAt hrow (h.runAt hk hc hu)).row
    rw [hr, hmay] at hout
    exact ⟨_, hout, ho, ho, rfl, hpair⟩

/-- A resolution whose remote moved on before it was pushed. -/
theorem WholeRun.resolution_overtaken (h : WholeRun collection opts loaded snapshot t box)
    (hc : (⟨q.handle, some q, some item⟩ : Candidate) ∈ mergedCandidates loaded snapshot)
    (hpolicy : opts.conflict = .manual) (hrow : s.rows[q.handle]? = some q)
    (hs : q.status = .dirty) (hb : q.base = some base) (ho : q.object = some object)
    {moved : String} (hi : item.revision = some moved) (hne : base.revision ≠ some moved) :
    ResolutionOvertaken q.handle moved base.object object t
      (s.apply t.writes).rows[q.handle]? := by
  have hk : opts.conflict ≠ .keepBoth := by rw [hpolicy]; decide
  have hm : movedFrom item base.revision = true := by
    rw [movedFrom, hi]
    simp [Ne.symm hne]
  have hmarked : (conflictedPlacement q item).base = some base := hb
  have hrefreshed : (refreshedPlacement q item).base =
      some { base with revision := item.revision, object := none } := by
    simp [refreshedPlacement, hb]
  refine ⟨?_, ?_, ?_⟩
  · intro k hmem o ifMatch hkind
    have hderived := (h.derives_iff hc (.update q.handle o ifMatch) rfl).mp ⟨k, hmem, hkind⟩
    by_cases hsame : base.object = some object
    · rw [effect_refreshed hs hb ho hsame hm] at hderived
      exact reconcileFlags_no_update _ hrefreshed item .derive _ o ifMatch hderived
    · rw [effect_reopened hs hb ho hsame hm hpolicy] at hderived
      exact reconcileFlags_no_update _ hmarked item .derive _ o ifMatch hderived
  · intro hsame hu
    obtain ⟨x, hx, hcontent⟩ := (h.runAt hk hc hu).flags_only (p := conflictedPlacement q item)
      rfl hmarked (effect_reopened hs hb ho hsame hm hpolicy) (new_pendingAt collection opts q.handle)
      (some q) (if_pos rfl)
    refine ⟨x, ?_, hcontent.conflicted rfl, ?_, ?_⟩
    · rw [CollectionRows.get_apply, hrow]
      exact hx
    · rw [hcontent.conflictRevision]
      exact hi
    · rw [hcontent.object]
      exact ho
  · intro hsame hu
    obtain ⟨x, hx, hcontent⟩ := (h.runAt hk hc hu).flags_only (p := refreshedPlacement q item)
      rfl hrefreshed (effect_refreshed hs hb ho hsame hm) (new_pendingAt collection opts q.handle)
      (some q) (if_pos rfl)
    refine ⟨x, ?_, hcontent.object, ?_⟩
    · rw [CollectionRows.get_apply, hrow]
      exact hx
    · rw [hcontent.baseRevision]
      simp [refreshedPlacement, ReplicaPlacement.baseRevision, hb, hi]

end Resolved

/-- A resolution settles the divergence it was taken against: it is pushed over the remote state
recorded, and over no other. -/
theorem resolution_settles {collection : ReplicaCollectionId} {p : ReplicaPlacement}
    {revision : String} (hs : p.status = .conflict) (hrevision : p.conflictRevision = some revision)
    {object : ReplicaObject} {body : List UInt8} {metadata : Option ReplicaMeta}
    {sortKey : Option ReplicaSortKey} {edit : Transcript}
    (hedit : Coroutine.Runs ReplicaMutate.resume
      (.new collection (.edit p.handle object body metadata sortKey)) none edit (.ok ()))
    (hp : edit.loaded.find? (fun q => q.handle = p.handle) = some p) {s : CollectionRows}
    {opts : ReplicaSyncOptions} (hpolicy : opts.conflict = .manual)
    (hmay : opts.push = true ∧ opts.rights.content = true) {loaded : ReplicaLoaded}
    {snapshot : ReplicaRemoteSnapshot} {t : Transcript}
    (hsync : Syncs collection opts loaded snapshot t)
    (hl : loaded.placements = (s.apply edit.writes).placements) {item : ReplicaRemoteItem}
    (hseen : Merge.seen (s.apply edit.writes).rows snapshot p.handle = some item) :
    (item.revision = none ∨ item.revision = some revision →
      ResolutionLands p.handle revision p.conflictObject object.hash t
        ((s.apply edit.writes).apply t.writes).rows[p.handle]?) ∧
    ∀ moved, item.revision = some moved → moved ≠ revision →
      ResolutionOvertaken p.handle moved p.conflictObject object.hash t
        ((s.apply edit.writes).apply t.writes).rows[p.handle]? := by
  let q := ReplicaMutate.edited p object.hash metadata sortKey
  let base : ReplicaBase := ⟨(p.base.getD ⟨p.flags, none, none⟩).flags, some revision,
    p.conflictObject⟩
  obtain ⟨hqh, hqs, hqo, hqr, hqc, hqb⟩ := ReplicaMutate.edited_conflict hs object.hash metadata
    sortKey
  rw [hrevision] at hqb
  have hbase : q.base = some base := hqb
  have hmayContent : opts.mayContent = true := by simp [ReplicaSyncOptions.mayContent, hmay]
  have hrow : (s.apply edit.writes).rows[p.handle]? = some q := by
    rw [ReplicaMutate.edit_writes hedit hp, CollectionRows.get_apply]
    have hsame : q.handle = p.handle := hqh
    have hstored : ∀ init, rowAfter p.handle init
        [.storeObject object (some body), .upsertPlacement q] = some q := by
      intro init
      have hup := rowAfter_upsert p.handle init q []
      rw [if_pos hsame] at hup
      exact hup
    exact hstored _
  have hat : Merge.candidateAt (s.apply edit.writes).rows snapshot p.handle =
      some ⟨p.handle, some q, some item⟩ := by
    rw [← hseen]
    exact Merge.candidateAt_seen snapshot hrow (by rw [hqs]; decide)
  obtain ⟨box, hwhole⟩ := hsync.whole
  have hc : (⟨q.handle, some q, some item⟩ : Candidate) ∈ mergedCandidates loaded snapshot := by
    rw [mem_mergedCandidates, hl, CollectionRows.collect_placements]
    rw [← hqh] at hat
    exact hat
  rw [← hqh] at hrow ⊢
  refine ⟨?_, ?_⟩
  · intro hunmoved
    exact hwhole.resolution_lands hc (by rw [hpolicy]; decide) hmayContent hrow hqs hbase hqo
      ⟨hqr, hqc⟩ rfl hunmoved
  · intro moved hi hne
    exact hwhole.resolution_overtaken hc hpolicy hrow hqs hbase hqo hi
      (fun heq => hne (Option.some.inj heq).symm)

section Runs

/-- A card in conflict, the remote's body at hand. -/
def contested : ReplicaPlacement :=
  { StagedEdit.card with
    status := .conflict, conflictRevision := some "2", conflictObject := some ⟨"theirs"⟩ }

/-- The card merged by hand. -/
def mergedEdit : Transcript :=
  [(.wantsLoad ⟨"contacts"⟩ (.handles [⟨"a"⟩]), .load ⟨[contested], none⟩),
    (.wantsWrite [.storeObject ⟨⟨"merged"⟩, 6⟩ (some []),
      .upsertPlacement (ReplicaMutate.edited contested ⟨"merged"⟩ none none)], .write)]

def resolvedSeam : Seam where
  rows := CollectionRows.empty.apply mergedEdit.writes
  checkpoint := none
  snapshot := ⟨[⟨⟨"a"⟩, .empty, some "2"⟩], [], true, ⟨[]⟩⟩
  replies := [[⟨⟨"a"⟩, .accepted, none, some "3"⟩]]

/-- The remote still where the conflict was recorded, the merge is pushed over it and accepted. -/
theorem resolution_settles_card : ∃ t,
    Syncs ⟨"contacts"⟩ .default ⟨resolvedSeam.rows.placements, none⟩ resolvedSeam.snapshot t ∧
    (Outbox.confirmation ⟨"a"⟩ t.pushes).isSome ∧ Outbox.Unassigned ⟨"a"⟩ t.pushes ∧
    ResolutionLands ⟨"a"⟩ "2" (some ⟨"theirs"⟩) ⟨"merged"⟩ t
      (resolvedSeam.rows.apply t.writes).rows[(⟨"a"⟩ : ReplicaHandle)]? := by
  have hrun : (resolvedSeam.sync 9 ⟨"contacts"⟩ .default).map (fun o =>
      (o.2.pushes.map (·.2), (Outbox.confirmation ⟨"a"⟩ o.2.pushes).isSome)) =
        some (resolvedSeam.replies, true) := by decide +kernel
  obtain ⟨⟨s, t⟩, hd, heq⟩ := Option.map_eq_some_iff.mp hrun
  obtain ⟨hsync, -⟩ := Seam.sync_syncs hd
  simp only [Prod.mk.injEq] at heq
  obtain ⟨hreplies, hconf⟩ := heq
  have hu : Outbox.Unassigned ⟨"a"⟩ t.pushes :=
    Seam.unassigned_of_replies hreplies (by decide)
  have hedit : Coroutine.Runs ReplicaMutate.resume
      (.new ⟨"contacts"⟩ (.edit contested.handle ⟨⟨"merged"⟩, 6⟩ [] none none)) none mergedEdit
      (.ok ()) := .ask rfl (.ask rfl (.done rfl))
  have hseen : Merge.seen (CollectionRows.empty.apply mergedEdit.writes).rows
      resolvedSeam.snapshot contested.handle = some ⟨⟨"a"⟩, .empty, some "2"⟩ := by decide +kernel
  have hsettled := resolution_settles (p := contested) (s := CollectionRows.empty) rfl rfl hedit
    rfl rfl ⟨rfl, rfl⟩ hsync rfl hseen
  exact ⟨t, hsync, hconf, hu, hsettled.1 (Or.inr rfl)⟩

end Runs
end IoReplica

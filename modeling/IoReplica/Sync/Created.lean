import IoReplica.Sync.Inherit

/-! The Created rows a sync run stores hold no body its rows did not stage. -/
namespace IoReplica
namespace ReplicaSync

theorem settledStatus_of_ne {p : ReplicaPlacement} (h : p.status ≠ .conflict) :
    settledStatus p = .clean := if_pos h

theorem settledStatus_cases (p : ReplicaPlacement) :
    settledStatus p = .clean ∨ settledStatus p = .conflict := by
  by_cases h : p.status = .conflict
  · exact Or.inr (by rw [settledStatus, if_neg (not_ne_iff.mpr h), h])
  · exact Or.inl (settledStatus_of_ne h)

/-- A dirty row whose body its base does not hold has staged it. -/
theorem stagedEdit_of_localChanged {p : ReplicaPlacement} {base : ReplicaBase}
    (hb : p.base = some base) (h : localChanged p base = true) : p.stagedEdit = p.object := by
  simp only [localChanged, Bool.and_eq_true, decide_eq_true_eq] at h
  obtain ⟨⟨-, hobject⟩, hne⟩ := h
  obtain ⟨x, hx⟩ := Option.isSome_iff_exists.mp hobject
  rw [hx, ReplicaPlacement.stagedEdit_eq_some]
  refine ⟨hx, fun b hb' => ?_⟩
  rw [hb, Option.some.injEq] at hb'
  rw [← hb', ← hx]
  exact Ne.symm hne

/-- The edit a remote delete resurrects was staged. -/
theorem stagedEdit_of_edited {p : ReplicaPlacement} (h : editedAgainstDelete p = true) :
    p.stagedEdit = p.object := by
  simp only [editedAgainstDelete, Bool.and_eq_true] at h
  obtain ⟨⟨-, hobject⟩, hne⟩ := h
  obtain ⟨x, hx⟩ := Option.isSome_iff_exists.mp hobject
  rw [hx, ReplicaPlacement.stagedEdit_eq_some]
  refine ⟨hx, fun b hb => ?_⟩
  rw [hb, Option.any_some, decide_eq_true_eq, hx] at hne
  exact Ne.symm hne

/-- A settled flag axis leaves the staged body where it was. -/
theorem stagedEdit_rebased {p : ReplicaPlacement} {status : ReplicaStatus} {flags : ReplicaFlags}
    {o : ReplicaHash}
    (h : ({ p with status := status, base := flagBase p flags } : ReplicaPlacement).stagedEdit =
      some o) : p.stagedEdit = some o := by
  rw [ReplicaPlacement.stagedEdit_eq_some] at h ⊢
  obtain ⟨hobject, hbase⟩ := h
  refine ⟨hobject, fun b hb => ?_⟩
  have hsame := hbase _ rfl
  rwa [ReplicaPlacement.baseObject, hb] at hsame

/-- A live row updated by the merge is live. -/
theorem inherits_live (c : ReplicaCollectionId) : Inherits c (fun p => p.status ≠ .tombstone) where
  pulled _ := by simp [pulledPlacement]
  refreshed _ _ hp := hp
  conflicted _ _ _ := by simp [conflictedPlacement]
  reopened _ _ hp := hp
  forked _ _ _ _ _ _ _ := by simp [forkedPlacement]
  flagged _ _ hp := hp
  rebased p _ _ := by rcases settledStatus_cases p with h | h <;> simp [h]
  resurrected _ _ _ := by simp [resurrectedPlacement]
  contentRebased p _ hp := by
    simp only [contentRebased, if_neg hp]
    split <;> simp
  rekeyed _ _ _ _ _ := by simp [rekeyedPlacement]

/-- A live row updated by the merge stages no body the row did not. -/
theorem inherits_staged (c : ReplicaCollectionId) (o : ReplicaHash) (src : ReplicaPlacement) :
    Inherits c (fun q => q.status ≠ .tombstone ∧
      (q.stagedEdit = some o → src.stagedEdit = some o)) where
  pulled item := ⟨(inherits_live c).pulled item, fun h => (by cases h)⟩
  refreshed p item hp := ⟨hp.1, fun h => (by cases h)⟩
  conflicted p item hp := ⟨(inherits_live c).conflicted p item hp.1, hp.2⟩
  reopened p revision hp := hp
  forked p base x hp hb hl hx := by
    refine ⟨(inherits_live c).forked p base x hp.1 hb hl hx, fun h => hp.2 ?_⟩
    have hxo : some x = some o := h
    rw [stagedEdit_of_localChanged hb hl, hx, hxo]
  flagged p flags hp := hp
  rebased p flags hp :=
    ⟨(inherits_live c).rebased p flags hp.1, fun h => hp.2 (stagedEdit_rebased h)⟩
  resurrected p hp he := by
    refine ⟨(inherits_live c).resurrected p hp.1 he, fun h => hp.2 ?_⟩
    rw [stagedEdit_of_edited he]
    exact (ReplicaPlacement.stagedEdit_eq_some.mp h).1
  contentRebased p revision hp := by
    refine ⟨(inherits_live c).contentRebased p revision hp.1, fun h => ?_⟩
    obtain ⟨hobject, hbase⟩ := ReplicaPlacement.stagedEdit_eq_some.mp h
    exact absurd hobject (hbase _ rfl)
  rekeyed p handle revision hp hs := by
    refine ⟨(inherits_live c).rekeyed p handle revision hp.1 hs, fun h => ?_⟩
    obtain ⟨hobject, hbase⟩ := ReplicaPlacement.stagedEdit_eq_some.mp h
    exact absurd hobject (hbase _ rfl)

/-- A tombstone is merged into a row in sync, a reverted row or nothing. -/
theorem mergeTombstone_clean {a : ReplicaSync} {p q : ReplicaPlacement} {item : ReplicaRemoteItem}
    {h : ReplicaHandle} (hq : .upsertPlacement q ∈ (a.mergeTombstone h p item).1.writes) :
    .upsertPlacement q ∈ a.writes ∨ q.status = .clean := by
  have hup : ∀ {r : ReplicaPlacement}, r.status = .clean →
      .upsertPlacement q ∈ (a.upsert r).writes → .upsertPlacement q ∈ a.writes ∨
        q.status = .clean := by
    intro r hr hmem
    rcases List.mem_append.mp hmem with hmem | hmem
    · exact Or.inl hmem
    · cases List.mem_singleton.mp hmem
      exact Or.inr hr
  have hrefuse : .upsertPlacement q ∈ (a.refuseDelete p).1.writes →
      .upsertPlacement q ∈ a.writes ∨ q.status = .clean := by
    intro hmem
    simp only [refuseDelete] at hmem
    split at hmem
    · exact hup rfl hmem
    · exact Or.inl hmem
  simp only [mergeTombstone] at hq
  split at hq
  · exact hup (r := pulledPlacement a.collection item) rfl hq
  · split at hq
    · split at hq
      · exact hrefuse hq
      · cases ho : p.object with
        | none =>
          rw [ho] at hq
          exact Or.inl hq
        | some x =>
          rw [ho] at hq
          exact Or.inl hq
    · split at hq
      · exact hrefuse hq
      · exact Or.inl hq

end ReplicaSync

/-- A Created row a candidate's merge writes stages what the candidate's own live row staged. -/
theorem effect_created {collection : ReplicaCollectionId} {opts : ReplicaSyncOptions} {c : Candidate}
    {q : ReplicaPlacement} {o : ReplicaHash}
    (hq : .upsertPlacement q ∈ (effect collection opts c).1.writes) (hs : q.status = .created)
    (ho : q.stagedEdit = some o) :
    ∃ p, c.loc = some p ∧ p.status ≠ .tombstone ∧ p.stagedEdit = some o := by
  obtain ⟨h, loc, remote⟩ := c
  have hpulled : ∀ item, q ≠ ReplicaSync.pulledPlacement collection item := by
    rintro item rfl
    cases hs
  cases loc with
  | none =>
    cases remote with
    | none => cases hq
    | some item =>
      refine absurd ?_ (hpulled item)
      simpa [effect, ReplicaSync.mergeAdded, ReplicaSync.pullAdd, ReplicaSync.upsert,
        ReplicaSync.write, ReplicaSync.emit, ReplicaSync.countPulled, ReplicaSync.new] using hq
  | some p =>
    by_cases htomb : p.status = .tombstone
    · rw [effect, ReplicaSync.merge_tombstone _ _ htomb] at hq
      cases remote with
      | none => cases List.mem_singleton.mp hq
      | some item =>
        dsimp only at hq
        split at hq
        · rcases ReplicaSync.mergeTombstone_clean hq with hmem | hclean
          · cases hmem
          · rw [hclean] at hs
            cases hs
        · cases List.mem_singleton.mp hq
          cases hs
    · have hobeys := (ReplicaSync.Obeys.new collection opts _).merge
        (ReplicaSync.inherits_staged collection o p) (d := ⟨h, some p, remote⟩)
        (fun r hr => Option.some.inj hr ▸ ⟨htomb, id⟩)
        (fun r hr hr' => absurd (Option.some.inj hr ▸ hr') htomb)
      exact ⟨p, rfl, htomb, (hobeys.writes _ hq).2 ho⟩

/-- Recording a push result leaves no Created row. -/
theorem Pending.record_created {collection : ReplicaCollectionId} {awaits : Pending}
    {r : ReplicaPushResult} {q : ReplicaPlacement}
    (hq : .upsertPlacement q ∈ awaits.record collection r) : q.status ≠ .created := by
  simp only [Pending.record, List.mem_append, Option.mem_toList, Option.map_eq_some_iff,
    ReplicaWriteOp.upsertPlacement.injEq] at hq
  rcases hq with ((⟨p, -, rfl⟩ | ⟨p, -, rfl⟩) | hop) | hop
  · rcases ReplicaSync.settledStatus_cases p with h | h <;> simp [Pending.flagsRebased, h]
  · simp only [ReplicaSync.contentRebased]
    split
    · decide
    · split <;> decide
  · split at hop
    · cases List.mem_singleton.mp hop
    · cases hop
  · cases hc : awaits.created with
    | none => simp [hc] at hop
    | some p =>
      simp only [hc, Option.map_some, Option.getD_some, Pending.recordCreate, List.mem_cons,
        Option.mem_toList, Option.map_eq_some_iff, reduceCtorEq, false_or,
        ReplicaWriteOp.upsertPlacement.injEq] at hop
      obtain ⟨a, -, rfl⟩ := hop
      exact fun hs => (by cases hs)

/-- A body a run leaves staged in a Created row was staged in some live row before it. -/
theorem Syncs.created_staged {collection : ReplicaCollectionId} {opts : ReplicaSyncOptions}
    {loaded : ReplicaLoaded} {snapshot : ReplicaRemoteSnapshot} {t : Transcript}
    (h : Syncs collection opts loaded snapshot t) {s : CollectionRows}
    (hl : loaded.placements = s.placements) {g : ReplicaHandle} {q : ReplicaPlacement}
    {o : ReplicaHash} (hq : (s.apply t.writes).rows[g]? = some q) (hs : q.status = .created)
    (ho : q.stagedEdit = some o) :
    ∃ (g' : ReplicaHandle) (p : ReplicaPlacement), s.rows[g']? = some p ∧ p.status ≠ .tombstone ∧
      p.stagedEdit = some o := by
  obtain ⟨box, hwhole⟩ := h.whole
  rw [CollectionRows.get_apply] at hq
  rcases rowAfter_mem hq with hinit | hop
  · exact ⟨g, q, hinit, by rw [hs]; decide, ho⟩
  · rw [hwhole.writes] at hop
    simp only [List.mem_append, List.mem_flatMap, List.mem_singleton] at hop
    rcases hop with ⟨c, hc, hop⟩ | hop | hop
    · obtain ⟨p, hp, hlive, hstaged⟩ := effect_created hop hs ho
      rw [mem_mergedCandidates, hl, CollectionRows.collect_placements] at hc
      exact ⟨c.handle, p, by rw [← (Merge.candidateAt_spec hc).2, hp], hlive, hstaged⟩
    · obtain ⟨r, -, -, hop⟩ := Outbox.recordAll_mem t.pushes hop
      exact absurd hs (Pending.record_created hop)
    · cases hop

end IoReplica

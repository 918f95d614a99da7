import IoReplica.Sync.Inherit
import IoReplica.Sync.PushedFlags

/-! What a run writes of one row and of one link id, op by op: its own candidate's writes, then
those recording its own change. -/
namespace IoReplica

/-- A row that neither holds the link id nor forks a body onto it. -/
def Apart (link : ReplicaLinkId) (p : ReplicaPlacement) : Prop :=
  p.linkId ≠ some link ∧ ∀ o, p.object = some o → ReplicaSync.keepBothLink o ≠ link

theorem inherits_apart (c : ReplicaCollectionId) (link : ReplicaLinkId) :
    Inherits c (Apart link) where
  pulled _ := ⟨by simp [ReplicaSync.pulledPlacement], fun o ho => by cases ho⟩
  refreshed _ _ hp := ⟨hp.1, fun o ho => by cases ho⟩
  conflicted _ _ hp := hp
  reopened _ _ hp := hp
  forked p _ o hp _ _ ho := by
    refine ⟨fun hl => hp.2 o ho (Option.some.inj hl), ?_⟩
    intro o' ho'
    cases ho'
    exact hp.2 o ho
  flagged _ _ hp := hp
  rebased _ _ hp := hp
  resurrected _ hp _ := hp
  contentRebased _ _ hp := hp
  rekeyed _ _ _ hp _ := hp

/-- The link id a change carries. -/
def ReplicaChangeKind.linkId : ReplicaChangeKind → Option ReplicaLinkId
  | .add _ linkId _ _ _ => linkId
  | .remove _ _ linkId _ => linkId
  | .setFlags .. => none
  | .update .. => none

/-- A change of a member that stays where it is: of its flags, or of its body. -/
def ReplicaChangeKind.InPlace : ReplicaChangeKind → Prop
  | .setFlags .. | .update .. => True
  | .add .. | .remove .. => False

theorem ReplicaChangeKind.InPlace.linkId {kind : ReplicaChangeKind} (h : kind.InPlace) :
    kind.linkId = none := by
  cases kind with
  | setFlags | update => rfl
  | add | remove => cases h

namespace ReplicaSync

theorem pushAdd_linkId (self : ReplicaSync) (h : ReplicaHandle) (p : ReplicaPlacement)
    {kind : ReplicaChangeKind} (hk : (self.pushAdd h p).2 = some kind) :
    kind.linkId = p.linkId := by
  cases hk
  rfl

/-- What a tombstone derives: its body ahead of a move, else its remove. -/
theorem mergeTombstone_change (self : ReplicaSync) (h : ReplicaHandle) (p : ReplicaPlacement)
    (item : ReplicaRemoteItem) {kind : ReplicaChangeKind}
    (hk : (self.mergeTombstone h p item).2 = some kind) :
    kind.InPlace ∨
      kind = .remove h (p.origin.map (·.collection)) p.linkId p.baseRevision := by
  simp only [mergeTombstone] at hk
  split at hk
  · cases hk
  · split at hk
    · split at hk
      · rw [refuseDelete_silent] at hk
        cases hk
      · cases ho : p.object with
        | none => simp [ho] at hk
        | some o =>
          simp only [ho, Option.some.injEq] at hk
          rw [← hk]
          exact Or.inl trivial
    · split at hk
      · rw [refuseDelete_silent] at hk
        cases hk
      · cases hk
        exact Or.inr rfl

theorem reconcileFlags_inPlace (self : ReplicaSync) (p : ReplicaPlacement)
    (item : ReplicaRemoteItem) (allow : PushFlags) {kind : ReplicaChangeKind}
    (hk : (self.reconcileFlags p item allow).2 = some kind) : kind.InPlace := by
  cases hb : p.base with
  | none => simp [reconcileFlags, ReplicaPlacement.baseFlags, hb] at hk
  | some base =>
    rw [(self.reconcileFlags_spec hb item allow).2.2] at hk
    split at hk
    · cases hk
      trivial
    · cases hk

theorem mergePresent_inPlace (self : ReplicaSync) (p : ReplicaPlacement) (item : ReplicaRemoteItem)
    {kind : ReplicaChangeKind} (hk : (self.mergePresent p item).2 = some kind) : kind.InPlace := by
  simp only [mergePresent] at hk
  cases hc : self.reconcileContent p item with
  | mk d outcome =>
    rw [hc] at hk
    cases outcome with
    | untouched => exact d.reconcileFlags_inPlace p item .derive hk
    | rewritten q => exact d.reconcileFlags_inPlace q item .derive hk
    | push change =>
      obtain ⟨-, -, o, ifMatch, -, rfl⟩ := self.reconcileContent_push (by rw [hc])
      cases hk
      trivial

/-- A change carries no link id but that of the row it is derived from. -/
theorem effect_linkId {collection : ReplicaCollectionId} {opts : ReplicaSyncOptions} {c : Candidate}
    {kind : ReplicaChangeKind} (hk : (effect collection opts c).2 = some kind)
    {link : ReplicaLinkId} (hl : kind.linkId = some link) :
    ∃ p, c.loc = some p ∧ p.linkId = some link := by
  obtain ⟨h, loc, remote⟩ := c
  cases loc with
  | none => cases remote <;> cases hk
  | some p =>
    refine ⟨p, rfl, ?_⟩
    by_cases hs : p.status = .tombstone
    · rw [effect, merge_tombstone _ _ hs] at hk
      cases remote with
      | none => cases hk
      | some item =>
        dsimp only at hk
        split at hk
        · rcases (new collection opts).mergeTombstone_change h p item hk with hin | rfl
          · rw [hin.linkId] at hl
            cases hl
          · exact hl
        · cases hk
    · rw [effect, merge_live _ _ hs] at hk
      cases remote with
      | some item =>
        have hn := ((new collection opts).mergePresent_inPlace p item hk).linkId
        rw [hn] at hl
        cases hl
      | none =>
        dsimp only at hk
        split at hk
        · simp only [mergeVanished] at hk
          split at hk
          · split at hk
            · cases hk
            · have hn := pushAdd_linkId _ h _ hk
              rw [hn] at hl
              exact hl
          · cases hk
        · simp only [mergeCreate] at hk
          split at hk
          · have hn := pushAdd_linkId _ h _ hk
            rw [hn] at hl
            exact hl
          · cases hk

end ReplicaSync

section
variable {collection : ReplicaCollectionId} {opts : ReplicaSyncOptions} {loaded : ReplicaLoaded}
  {snapshot : ReplicaRemoteSnapshot} {t : Transcript} {box : Outbox} {link : ReplicaLinkId}
  {g : ReplicaHandle}

/-- An op that leaves a row and its link id to others. -/
def ReplicaWriteOp.Elsewhere (h : ReplicaHandle) (link : ReplicaLinkId) (op : ReplicaWriteOp) :
    Prop :=
  op.row ≠ some h ∧ ∀ q, op = .upsertPlacement q → q.linkId ≠ some link

theorem ReplicaWriteOp.Obeys.unlinked {op : ReplicaWriteOp}
    (h : op.Obeys collection (Apart link)) :
    ∀ q, op = .upsertPlacement q → q.linkId ≠ some link := by
  rintro q rfl
  exact h.1

open ReplicaSync

/-- What the candidates of other handles write is no row of an undisturbed one. -/
theorem Undisturbed.passes {s : CollectionRows} {d : Candidate} (hu : Undisturbed s g t)
    (hd : d ∈ (Merge.between s.rows snapshot).candidates) (hh : d.handle ≠ g)
    {op : ReplicaWriteOp} (hop : op ∈ (effect collection opts d).1.writes) : op.row ≠ some g := by
  have hspares : d.Spares g := hu.spares hd hh
  obtain ⟨ops, hops, hrows⟩ := ((new collection opts).merge_local hspares.paired).1.writes
  have hmem : op ∈ ops := by
    have hnew : (new collection opts).writes = [] := rfl
    rw [effect, hops, hnew] at hop
    exact hop
  rcases hrows op hmem with hrow | ⟨f, hrow, hforks⟩
  · rw [hrow]
    exact fun he => hh (Option.some.inj he)
  · rw [hrow]
    rintro he
    rw [Option.some.inj he] at hforks
    exact hspares.forks hforks

/-- Every write of a run is a candidate's of the handle, a record of its own result, or writes other
rows, with what the rows of the other handles hand on. -/
theorem WholeRun.sources_obeys (h : WholeRun collection opts loaded snapshot t box)
    (hu : Undisturbed (.ofLoad loaded.placements) g t) {P : ReplicaPlacement → Prop}
    (hP : Inherits collection P)
    (hrows : ∀ (f : ReplicaHandle) (q : ReplicaPlacement),
      (collectPlacements loaded.placements)[f]? = some q → f ≠ g →
        P q ∧ (q.status = .tombstone → P { q with status := .clean }))
    {op : ReplicaWriteOp} (hop : op ∈ t.writes) :
    (∃ c ∈ mergedCandidates loaded snapshot, c.handle = g ∧
        op ∈ (effect collection opts c).1.writes) ∨
      (∃ r : ReplicaPushResult, r.handle = g ∧ op ∈ (box g).record collection r) ∨
      (op.row ≠ some g ∧ op.Obeys collection P) := by
  have hothers : ∀ c ∈ mergedCandidates loaded snapshot, c.handle ≠ g →
      ReplicaSync.Obeys collection P (effect collection opts c).1 := by
    intro c hc hne
    rw [mem_mergedCandidates] at hc
    have hloc := (Merge.candidateAt_spec hc).2
    exact (ReplicaSync.Obeys.new collection opts _).merge hP
      (fun q hq => (hrows c.handle q (hloc.symm.trans hq) hne).1)
      (fun q hq => (hrows c.handle q (hloc.symm.trans hq) hne).2)
  have hbox : ∀ f, f ≠ g → (box f).Obeys P := by
    intro f hf
    by_cases hin : ∃ c ∈ mergedCandidates loaded snapshot, c.handle = f
    · obtain ⟨c, hc, rfl⟩ := hin
      rw [h.awaits c hc]
      exact (hothers c hc hf).pending c.handle
    · simp only [not_exists, not_and] at hin
      rw [h.idle f hin]
      exact .none _
  rw [h.writes] at hop
  simp only [List.mem_append, List.mem_flatMap, List.mem_singleton] at hop
  rcases hop with ⟨c, hc, hop⟩ | hop | rfl
  · by_cases hh : c.handle = g
    · exact Or.inl ⟨c, hc, hh, hop⟩
    · exact Or.inr (Or.inr ⟨hu.passes hc hh hop, (hothers c hc hh).writes op hop⟩)
  · obtain ⟨r, ⟨e, he, hre⟩, -, hop⟩ := Outbox.recordAll_mem t.pushes hop
    by_cases hh : r.handle = g
    · rw [hh] at hop
      exact Or.inr (Or.inl ⟨r, hh, hop⟩)
    · refine Or.inr (Or.inr ⟨?_, Pending.record_obeys hP (hbox r.handle hh) r op hop⟩)
      rcases Outbox.record_row (h.placed r.handle) hop with hrow | ⟨hrow, -⟩
      · rw [hrow]
        exact fun heq => hh (Option.some.inj heq)
      · rw [hrow]
        exact hu.assigned e he r hre hh
  · refine Or.inr (Or.inr ⟨?_, rfl⟩)
    rintro ⟨⟩

/-- Every write of a run is a candidate's of the handle, a record of its own result, or
elsewhere. -/
theorem WholeRun.sources (h : WholeRun collection opts loaded snapshot t box)
    (hu : Undisturbed (.ofLoad loaded.placements) g t)
    (hapart : ∀ (f : ReplicaHandle) (q : ReplicaPlacement),
      (collectPlacements loaded.placements)[f]? = some q → f ≠ g → Apart link q)
    {op : ReplicaWriteOp} (hop : op ∈ t.writes) :
    (∃ c ∈ mergedCandidates loaded snapshot, c.handle = g ∧
        op ∈ (effect collection opts c).1.writes) ∨
      (∃ r : ReplicaPushResult, r.handle = g ∧ op ∈ (box g).record collection r) ∨
      op.Elsewhere g link := by
  rcases h.sources_obeys hu (inherits_apart collection link)
    (fun f q hq hne => ⟨hapart f q hq hne, fun _ => hapart f q hq hne⟩) hop with
    hown | hrecord | ⟨hrow, hobeys⟩
  · exact Or.inl hown
  · exact Or.inr (Or.inl hrecord)
  · exact Or.inr (Or.inr ⟨hrow, hobeys.unlinked⟩)

/-- The writes of a row are its candidate's, then the record of the result its change was accepted
with. -/
theorem WholeRun.rowOps_at (h : WholeRun collection opts loaded snapshot t box) {c : Candidate}
    (hc : c ∈ mergedCandidates loaded snapshot)
    (hu : Undisturbed (.ofLoad loaded.placements) c.handle t) :
    rowOps c.handle t.writes = rowOps c.handle (effect collection opts c).1.writes ++
      match Outbox.confirmation c.handle t.pushes with
      | some r => rowOps c.handle
          (((effect collection opts c).1.pendingAt c.handle).record collection r)
      | none => [] := by
  obtain ⟨hasc, -, -⟩ := Merge.candidates_spec (CollectionRows.ofLoad loaded.placements) snapshot
  have hsorted : (mergedCandidates loaded snapshot).Pairwise (fun a b => a.handle < b.handle) :=
    hasc
  obtain ⟨pre, post, hcs⟩ := List.append_of_mem hc
  rw [hcs, List.pairwise_append, List.pairwise_cons] at hsorted
  obtain ⟨-, ⟨hpost, -⟩, hpre⟩ := hsorted
  have hothers : ∀ ds : List Candidate,
      (∀ d ∈ ds, d ∈ mergedCandidates loaded snapshot ∧ d.handle ≠ c.handle) →
      rowOps c.handle (ds.flatMap (fun d => (effect collection opts d).1.writes)) = [] := by
    intro ds hds
    apply rowOps_of_ne
    intro op hop
    obtain ⟨d, hd, hop⟩ := List.mem_flatMap.mp hop
    obtain ⟨hmem, hne⟩ := hds d hd
    exact hu.passes hmem hne hop
  have hbefore := hothers pre (fun d hd =>
    ⟨by rw [hcs]; simp [hd], (hpre d hd c List.mem_cons_self).ne⟩)
  have hafter := hothers post (fun d hd => ⟨by rw [hcs]; simp [hd], (hpost d hd).ne'⟩)
  have hcheckpoint : rowOps c.handle [.setCheckpoint collection snapshot.checkpoint] = [] := rfl
  rw [h.writes, hcs, List.flatMap_append, List.flatMap_cons]
  simp only [rowOps_append, hbefore, hafter, hcheckpoint, List.nil_append, List.append_nil]
  refine congrArg (rowOps c.handle (effect collection opts c).1.writes ++ ·) ?_
  rw [← h.awaits c hc]
  exact Outbox.rowOps_recordAll h.placed t.pushes hu.assigned

/-- A handle of no candidate is not written. -/
theorem WholeRun.rowOps_away (h : WholeRun collection opts loaded snapshot t box)
    (haway : ∀ c ∈ mergedCandidates loaded snapshot, c.handle ≠ g)
    (hu : Undisturbed (.ofLoad loaded.placements) g t) : rowOps g t.writes = [] := by
  have hwrites : rowOps g ((mergedCandidates loaded snapshot).flatMap
      (fun d => (effect collection opts d).1.writes)) = [] := by
    apply rowOps_of_ne
    intro op hop
    obtain ⟨d, hd, hop⟩ := List.mem_flatMap.mp hop
    exact hu.passes hd (haway d hd) hop
  have hcheckpoint : rowOps g [.setCheckpoint collection snapshot.checkpoint] = [] := rfl
  rw [h.writes]
  simp only [rowOps_append, hwrites, hcheckpoint, List.append_nil, List.nil_append]
  exact Outbox.rowOps_recordAll_none h.placed (h.idle g haway) t.pushes hu.assigned

end
end IoReplica

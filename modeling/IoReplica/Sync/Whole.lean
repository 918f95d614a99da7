import IoReplica.Sync.Outcome

/-! A whole run, candidate by candidate: its writes and its changes are theirs in order, and every
handle awaits what its own candidate left it. -/
namespace IoReplica
namespace ReplicaSync

variable (collection : ReplicaCollectionId) (opts : ReplicaSyncOptions)

/-- What merging every candidate leaves: the effects of each, in order. -/
structure MergedAll (cs : List Candidate) (m : ReplicaSync) : Prop where
  writes : m.writes = cs.flatMap (fun c => (effect collection opts c).1.writes)
  pushes : m.pushes = cs.filterMap (fun c =>
    (effect collection opts c).2.map (ReplicaChange.new collection))
  pending : ∀ c ∈ cs, m.pendingAt c.handle = (effect collection opts c).1.pendingAt c.handle
  idle : ∀ h, (∀ c ∈ cs, c.handle ≠ h) → m.pendingAt h = .none

theorem mergeCandidate_opts (a : ReplicaSync) {c : Candidate} (hc : c.Paired) :
    (a.mergeCandidate c).opts = a.opts := by
  have hlocal := (a.merge_local hc).1
  simp only [mergeCandidate]
  split
  · rename_i heq
    rw [heq] at hlocal
    exact hlocal.opts
  · rename_i heq
    rw [heq] at hlocal
    exact hlocal.opts

theorem mergeAll_opts (a : ReplicaSync) {cs : List Candidate} (hcs : ∀ c ∈ cs, c.Paired) :
    (a.mergeAll cs).opts = a.opts := by
  induction cs generalizing a with
  | nil => rfl
  | cons c cs ih =>
    have hrest := ih (a.mergeCandidate c) (fun d hd => hcs d (List.mem_cons_of_mem _ hd))
    exact hrest.trans (a.mergeCandidate_opts (hcs c List.mem_cons_self))

/-- What one candidate merged first leaves of the other handles. -/
theorem mergeCandidate_idle {c : Candidate} (hc : c.Paired) {h : ReplicaHandle} (hh : c.handle ≠ h) :
    ((new collection opts).mergeCandidate c).pendingAt h = .none := by
  have hothers := ((new collection opts).merge_local hc).1.others h (Ne.symm hh)
  rw [new_pendingAt] at hothers
  rw [(new_mergeCandidate collection opts hc).1]
  exact hothers

theorem mergedAll (cs : List Candidate) (hpaired : ∀ c ∈ cs, c.Paired)
    (hasc : cs.Pairwise (fun a b => a.handle < b.handle)) :
    MergedAll collection opts cs ((new collection opts).mergeAll cs) := by
  induction cs with
  | nil => exact ⟨rfl, rfl, by simp, fun h _ => new_pendingAt collection opts h⟩
  | cons c cs ih =>
    rw [List.pairwise_cons] at hasc
    have hc := hpaired c List.mem_cons_self
    have hrest := ih (fun d hd => hpaired d (List.mem_cons_of_mem _ hd)) hasc.2
    let first := (new collection opts).mergeCandidate c
    have hfirst : first.collection = collection := mergeCandidate_collection _ hc
    have hfirstOpts : first.opts = opts := mergeCandidate_opts _ hc
    obtain ⟨hpend, hwrites, hpushes⟩ := new_mergeCandidate collection opts hc
    have hall : (new collection opts).mergeAll (c :: cs) =
        first.extend ((new collection opts).mergeAll cs) := by
      have hext := extend_mergeAll first (new first.collection first.opts) cs
      rw [extend_new, hfirst, hfirstOpts] at hext
      exact hext
    rw [hall]
    refine ⟨?_, ?_, ?_, ?_⟩
    · have hw : (first.extend ((new collection opts).mergeAll cs)).writes =
          first.writes ++ ((new collection opts).mergeAll cs).writes := rfl
      rw [hw, hrest.writes, hwrites, List.flatMap_cons]
    · have hp : (first.extend ((new collection opts).mergeAll cs)).pushes =
          first.pushes ++ ((new collection opts).mergeAll cs).pushes := rfl
      rw [hp, hrest.pushes, hpushes, List.filterMap_cons]
      cases (effect collection opts c).2 <;> rfl
    · intro d hd
      rcases List.mem_cons.mp hd with rfl | hd
      · have hnone := hrest.idle d.handle (fun e he => (hasc.1 e he).ne')
        rw [← hpend]
        exact extend_pendingAt_idle _ hnone
      · rw [extend_pendingAt (mergeCandidate_idle collection opts hc (hasc.1 d hd).ne)]
        exact hrest.pending d hd
    · intro h hh
      rw [extend_pendingAt (mergeCandidate_idle collection opts hc (hh c List.mem_cons_self))]
      exact hrest.idle h (fun d hd => hh d (List.mem_cons_of_mem _ hd))

end ReplicaSync

/-- The candidates a run merges, given what it loaded. -/
def mergedCandidates (loaded : ReplicaLoaded) (snapshot : ReplicaRemoteSnapshot) :
    List Candidate :=
  (Merge.between (collectPlacements loaded.placements) snapshot).candidates

/-- A completed run in full: the writes and the changes of its candidates, in handle order, then
what the push results record and the checkpoint. -/
structure WholeRun (collection : ReplicaCollectionId) (opts : ReplicaSyncOptions)
    (loaded : ReplicaLoaded) (snapshot : ReplicaRemoteSnapshot) (t : Transcript)
    (box : Outbox) : Prop where
  changes : t.changes = (mergedCandidates loaded snapshot).filterMap (fun c =>
    (effect collection opts c).2.map (ReplicaChange.new collection))
  writes : t.writes =
    (mergedCandidates loaded snapshot).flatMap (fun c => (effect collection opts c).1.writes) ++
      (Outbox.recordAll collection box t.pushes ++
        [.setCheckpoint collection snapshot.checkpoint])
  awaits : ∀ c ∈ mergedCandidates loaded snapshot,
    box c.handle = (effect collection opts c).1.pendingAt c.handle
  idle : ∀ h, (∀ c ∈ mergedCandidates loaded snapshot, c.handle ≠ h) → box h = .none

theorem Syncs.whole {collection : ReplicaCollectionId} {opts : ReplicaSyncOptions}
    {loaded : ReplicaLoaded} {snapshot : ReplicaRemoteSnapshot} {t : Transcript}
    (h : Syncs collection opts loaded snapshot t) :
    ∃ box, WholeRun collection opts loaded snapshot t box := by
  obtain ⟨hpushes, hwrites⟩ := h.spec
  obtain ⟨hasc, hpaired, -⟩ :=
    Merge.candidates_spec (CollectionRows.ofLoad loaded.placements) snapshot
  have hm := ReplicaSync.mergedAll collection opts (mergedCandidates loaded snapshot) hpaired hasc
  refine ⟨_, ?_, ?_, hm.pending, hm.idle⟩
  · rw [← hm.pushes]
    exact hpushes
  · rw [← hm.writes]
    exact hwrites

/-- The candidates of a run, read off the load: one a handle. -/
theorem mem_mergedCandidates {loaded : ReplicaLoaded} {snapshot : ReplicaRemoteSnapshot}
    (c : Candidate) : c ∈ mergedCandidates loaded snapshot ↔
      Merge.candidateAt (collectPlacements loaded.placements) snapshot c.handle = some c :=
  (Merge.candidates_spec (CollectionRows.ofLoad loaded.placements) snapshot).mem_iff c

theorem mergedCandidates_paired {loaded : ReplicaLoaded} {snapshot : ReplicaRemoteSnapshot}
    {c : Candidate} (hc : c ∈ mergedCandidates loaded snapshot) : c.Paired :=
  (Merge.candidates_spec (CollectionRows.ofLoad loaded.placements) snapshot).paired c hc

theorem mergedCandidates_unique {loaded : ReplicaLoaded} {snapshot : ReplicaRemoteSnapshot}
    {c d : Candidate} (hc : c ∈ mergedCandidates loaded snapshot)
    (hd : d ∈ mergedCandidates loaded snapshot) (hh : c.handle = d.handle) : c = d := by
  rw [mem_mergedCandidates] at hc hd
  rw [hh, hd, Option.some.injEq] at hc
  exact hc.symm

/-- The change a run pushes for a handle is its candidate's. -/
theorem WholeRun.mem_changes {collection : ReplicaCollectionId} {opts : ReplicaSyncOptions}
    {loaded : ReplicaLoaded} {snapshot : ReplicaRemoteSnapshot} {t : Transcript} {box : Outbox}
    (h : WholeRun collection opts loaded snapshot t box) {k : ReplicaChange} :
    k ∈ t.changes ↔ ∃ c ∈ mergedCandidates loaded snapshot,
      c.handle = k.handle ∧ (effect collection opts c).2.map (ReplicaChange.new collection) = some k := by
  rw [h.changes, List.mem_filterMap]
  constructor
  · rintro ⟨c, hc, hk⟩
    refine ⟨c, hc, ?_, hk⟩
    obtain ⟨kind, hkind, rfl⟩ := Option.map_eq_some_iff.mp hk
    have hnames := ((ReplicaSync.new collection opts).merge_local (mergedCandidates_paired hc)).2
    exact (hnames kind hkind).symm
  · rintro ⟨c, hc, -, hk⟩
    exact ⟨c, hc, hk⟩

section
variable {collection : ReplicaCollectionId} {opts : ReplicaSyncOptions} {loaded : ReplicaLoaded}
  {snapshot : ReplicaRemoteSnapshot} {t : Transcript} {box : Outbox}

open ReplicaSync

/-- Everything a run awaits is a row of the handle awaiting it. -/
theorem WholeRun.placed (h : WholeRun collection opts loaded snapshot t box) (g : ReplicaHandle) :
    (box g).Placed g := by
  by_cases hg : ∃ c ∈ mergedCandidates loaded snapshot, c.handle = g
  · obtain ⟨c, hc, rfl⟩ := hg
    rw [h.awaits c hc]
    refine ((new collection opts).merge_local (mergedCandidates_paired hc)).1.placed ?_
    rw [new_pendingAt]
    exact .none _
  · push Not at hg
    rw [h.idle g hg]
    exact .none g

/-- The changes a run derives for one of its candidates. -/
theorem WholeRun.changes_at (h : WholeRun collection opts loaded snapshot t box) {c : Candidate}
    (hc : c ∈ mergedCandidates loaded snapshot) : t.changes.filter (fun k => k.handle = c.handle) =
      ((effect collection opts c).2.map (ReplicaChange.new collection)).toList := by
  obtain ⟨hasc, -, -⟩ := Merge.candidates_spec (CollectionRows.ofLoad loaded.placements) snapshot
  have hsorted : (mergedCandidates loaded snapshot).Pairwise (fun a b => a.handle < b.handle) :=
    hasc
  obtain ⟨pre, post, hcs⟩ := List.append_of_mem hc
  rw [hcs, List.pairwise_append, List.pairwise_cons] at hsorted
  obtain ⟨-, ⟨hpost, -⟩, hpre⟩ := hsorted
  have hnames : ∀ d ∈ mergedCandidates loaded snapshot, ∀ k,
      (effect collection opts d).2.map (ReplicaChange.new collection) = some k →
        k.handle = d.handle := by
    intro d hd k hk
    obtain ⟨kind, hkind, rfl⟩ := Option.map_eq_some_iff.mp hk
    exact ((new collection opts).merge_local (mergedCandidates_paired hd)).2 kind hkind
  have hothers : ∀ ds : List Candidate,
      (∀ d ∈ ds, d ∈ mergedCandidates loaded snapshot ∧ d.handle ≠ c.handle) →
      (ds.filterMap (fun d => (effect collection opts d).2.map
        (ReplicaChange.new collection))).filter (fun k => k.handle = c.handle) = [] := by
    intro ds hds
    rw [List.filter_eq_nil_iff]
    intro k hk hkc
    obtain ⟨d, hd, hkd⟩ := List.mem_filterMap.mp hk
    obtain ⟨hmem, hne⟩ := hds d hd
    exact hne ((hnames d hmem k hkd).symm.trans (of_decide_eq_true hkc))
  have hbefore := hothers pre (fun d hd =>
    ⟨by rw [hcs]; simp [hd], (hpre d hd c List.mem_cons_self).ne⟩)
  have hafter := hothers post (fun d hd => ⟨by rw [hcs]; simp [hd], (hpost d hd).ne'⟩)
  rw [h.changes, hcs, List.filterMap_append, List.filterMap_cons, List.filter_append, hbefore]
  cases hk : (effect collection opts c).2.map (ReplicaChange.new collection) with
  | none => exact hafter
  | some k =>
    have hkc : k.handle = c.handle := hnames c hc k hk
    simp [hkc, hafter]

end
end IoReplica

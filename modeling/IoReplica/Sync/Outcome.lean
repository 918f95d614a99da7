import IoReplica.Sync.Cell

/-! The row a completed sync run leaves under a handle, and the change it asks for it. -/
namespace IoReplica

/-- Does a result accept a change of this handle? -/
def ReplicaPushResult.confirms (r : ReplicaPushResult) (h : ReplicaHandle) : Bool :=
  decide (r.outcome = .accepted ∧ r.handle = h)

namespace Outbox

/-- The results reported up to the chunk that carries a handle's change: later ones are not its. -/
def awaited (h : ReplicaHandle) : List PushExchange → List ReplicaPushResult
  | [] => []
  | (changes, results) :: rest =>
    if h ∈ changes.map (·.handle) then results else results ++ awaited h rest

/-- The result a handle's change is recorded with, if it was accepted. -/
def confirmation (h : ReplicaHandle) (es : List PushExchange) : Option ReplicaPushResult :=
  (awaited h es).find? (fun r => r.confirms h)

/-- No other member is assigned this handle. -/
def Unassigned (h : ReplicaHandle) (es : List PushExchange) : Prop :=
  ∀ e ∈ es, ∀ r ∈ e.2, r.handle ≠ h → r.assigned ≠ some h

variable {collection : ReplicaCollectionId} {h : ReplicaHandle} {box : Outbox}

/-- Recording a result writes its own handle, and the handle assigned to an awaited create. -/
theorem record_row {awaits : Pending} {r : ReplicaPushResult} (hp : awaits.Placed r.handle)
    {op : ReplicaWriteOp} (hop : op ∈ awaits.record collection r) :
    op.row = some r.handle ∨ (op.row = r.assigned ∧ awaits.created.isSome) := by
  simp only [Pending.record, List.mem_append, Option.mem_toList, Option.map_eq_some_iff] at hop
  rcases hop with ((⟨p, hq, rfl⟩ | ⟨p, hq, rfl⟩) | hop) | hop
  · exact Or.inl (congrArg some (hp.flags p hq))
  · exact Or.inl (congrArg some (hp.content p hq))
  · split at hop
    · rw [List.mem_singleton.mp hop]
      exact Or.inl rfl
    · cases hop
  · cases hc : awaits.created with
    | none => simp [hc] at hop
    | some p =>
      simp only [hc, Option.map_some, Option.getD_some, Pending.recordCreate, List.mem_cons,
        Option.mem_toList, Option.map_eq_some_iff] at hop
      rcases hop with rfl | ⟨g, hg, rfl⟩
      · exact Or.inl (congrArg some (hp.created p hc))
      · exact Or.inr ⟨hg.symm, rfl⟩

/-- Recording another handle's result writes nothing of a row. -/
theorem rowOps_record_of_ne {r : ReplicaPushResult} (hp : (box r.handle).Placed r.handle)
    (hr : r.handle ≠ h) (ha : r.assigned ≠ some h) :
    rowOps h ((box r.handle).record collection r) = [] := by
  apply rowOps_of_ne
  intro op hop heq
  rcases record_row hp hop with hrow | ⟨hrow, -⟩
  · exact hr (Option.some.inj (hrow.symm.trans heq))
  · exact ha (hrow.symm.trans heq)

/-- What an outbox keeps through a list of results. -/
theorem settle_spec (collection : ReplicaCollectionId) (hp : ∀ g, (box g).Placed g)
    (r : ReplicaPushResult) (ha : r.handle ≠ h → r.assigned ≠ some h) :
    (∀ g, ((settle collection box r).1 g).Placed g) ∧
      (settle collection box r).1 h = (if r.confirms h then .none else box h) ∧
      rowOps h (settle collection box r).2 =
        if r.confirms h then rowOps h ((box h).record collection r) else [] := by
  cases ho : r.outcome with
  | rejected => simp [settle, ho, ReplicaPushResult.confirms, hp]
  | accepted =>
    simp only [settle, ho, ReplicaPushResult.confirms]
    by_cases hr : r.handle = h
    · subst hr
      refine ⟨?_, by simp, by simp⟩
      intro g
      by_cases hg : g = r.handle
      · subst hg
        rw [Function.update_self]
        exact .none _
      · rw [Function.update_of_ne hg]
        exact hp g
    · refine ⟨?_, ?_, ?_⟩
      · intro g
        by_cases hg : g = r.handle
        · subst hg
          rw [Function.update_self]
          exact .none _
        · rw [Function.update_of_ne hg]
          exact hp g
      · simp [hr, Function.update_of_ne (Ne.symm hr)]
      · rw [rowOps_record_of_ne (hp _) hr (ha hr)]
        simp [hr]

theorem settleAll_spec (collection : ReplicaCollectionId) (hp : ∀ g, (box g).Placed g)
    (rs : List ReplicaPushResult) (ha : ∀ r ∈ rs, r.handle ≠ h → r.assigned ≠ some h) :
    (∀ g, ((settleAll collection box rs).1 g).Placed g) ∧
      (settleAll collection box rs).1 h =
        (if (rs.find? (fun r => r.confirms h)).isSome then .none else box h) ∧
      rowOps h (settleAll collection box rs).2 =
        match rs.find? (fun r => r.confirms h) with
        | some r => rowOps h ((box h).record collection r)
        | none => [] := by
  induction rs generalizing box with
  | nil => exact ⟨hp, rfl, rfl⟩
  | cons r rs ih =>
    obtain ⟨hp', hbox, hrow⟩ := settle_spec collection hp r
      (ha r List.mem_cons_self)
    obtain ⟨hp'', hbox', hrow'⟩ := ih hp' (fun q hq => ha q (List.mem_cons_of_mem _ hq))
    by_cases hc : r.confirms h = true
    · rw [if_pos hc] at hbox hrow
      rw [hbox] at hbox' hrow'
      have hfind : (r :: rs).find? (fun q => q.confirms h) = some r := by
        rw [List.find?_cons, hc]
      rw [hfind]
      refine ⟨hp'', ?_, ?_⟩
      · rw [settleAll, hbox']
        split <;> rfl
      · rw [settleAll, rowOps_append, hrow, hrow']
        simp only [Pending.record_none, rowOps_nil]
        split <;> exact List.append_nil _
    · rw [if_neg hc] at hbox hrow
      rw [hbox] at hbox' hrow'
      have hfind : (r :: rs).find? (fun q => q.confirms h) = rs.find? (fun q => q.confirms h) := by
        rw [List.find?_cons, Bool.eq_false_iff.mpr hc]
      rw [hfind]
      refine ⟨hp'', hbox', ?_⟩
      rw [settleAll, rowOps_append, hrow, hrow', List.nil_append]

theorem forget_placed (hp : ∀ g, (box g).Placed g) (hs : List ReplicaHandle) (g : ReplicaHandle) :
    ((box.forget hs) g).Placed g := by
  simp only [forget]
  split
  · exact .none g
  · exact hp g

theorem rowOps_recordAll_none (hp : ∀ g, (box g).Placed g) (hbox : box h = .none)
    (es : List PushExchange) (ha : Unassigned h es) :
    rowOps h (recordAll collection box es) = [] := by
  induction es generalizing box with
  | nil => rfl
  | cons e es ih =>
    obtain ⟨changes, results⟩ := e
    obtain ⟨hp', hbox', hrow⟩ := settleAll_spec collection hp results
      (ha _ List.mem_cons_self)
    have hnone : (settleAll collection box results).1 h = .none := by
      rw [hbox', hbox]
      split <;> rfl
    simp only [recordAll, rowOps_append, hrow]
    rw [ih (forget_placed hp' _) (by simp [forget, hnone])
      (fun e he => ha e (List.mem_cons_of_mem _ he))]
    rw [hbox]
    split <;> simp

/-- A push phase writes a row once: when its own change is accepted. -/
theorem rowOps_recordAll (hp : ∀ g, (box g).Placed g) (es : List PushExchange)
    (ha : Unassigned h es) :
    rowOps h (recordAll collection box es) =
      match confirmation h es with
      | some r => rowOps h ((box h).record collection r)
      | none => [] := by
  induction es generalizing box with
  | nil => rfl
  | cons e es ih =>
    obtain ⟨changes, results⟩ := e
    obtain ⟨hp', hbox', hrow⟩ := settleAll_spec collection hp results
      (ha _ List.mem_cons_self)
    have ha' : Unassigned h es := fun e he => ha e (List.mem_cons_of_mem _ he)
    have hp'' := forget_placed hp' (changes.map (·.handle))
    simp only [recordAll, rowOps_append, hrow, confirmation, awaited]
    by_cases hmem : h ∈ changes.map (·.handle)
    · rw [if_pos hmem, rowOps_recordAll_none hp'' (by simp only [forget, hmem, if_true]) es ha',
        List.append_nil]
    · rw [if_neg hmem, List.find?_append]
      cases hf : results.find? (fun r => r.confirms h) with
      | some r =>
        rw [hf] at hbox'
        rw [rowOps_recordAll_none hp'' (by simp [forget, hbox']) es ha', List.append_nil]
        rfl
      | none =>
        rw [hf] at hbox'
        have hkeep : (settleAll collection box results).1.forget (changes.map (·.handle)) h =
            box h := by
          simp only [forget, hmem, if_false, hbox']
          rfl
        rw [ih hp'' ha', hkeep]
        rfl

theorem rowAfter_recordAll_none (hp : ∀ g, (box g).Placed g) (hbox : box h = .none)
    (es : List PushExchange) (ha : Unassigned h es) (init : Option ReplicaPlacement) :
    rowAfter h init (recordAll collection box es) = init := by
  rw [← rowAfter_rowOps, rowOps_recordAll_none hp hbox es ha, rowAfter_nil]

/-- A handle's row moves once in a push phase: when its own change is accepted. -/
theorem rowAfter_recordAll (hp : ∀ g, (box g).Placed g) (es : List PushExchange)
    (ha : Unassigned h es) (init : Option ReplicaPlacement) :
    rowAfter h init (recordAll collection box es) =
      match confirmation h es with
      | some r => rowAfter h init ((box h).record collection r)
      | none => init := by
  rw [← rowAfter_rowOps, rowOps_recordAll hp es ha]
  split
  · exact rowAfter_rowOps ..
  · rfl

end Outbox

namespace ReplicaSync

theorem mergeCandidate_placed (a : ReplicaSync) {c : Candidate} (hc : c.Paired)
    (ha : ∀ g, (a.pendingAt g).Placed g) (g : ReplicaHandle) :
    ((a.mergeCandidate c).pendingAt g).Placed g := by
  have hlocal := (a.merge_local hc).1
  have hm : (a.mergeCandidate c).pendingAt = (a.merge c).1.pendingAt := by
    simp only [mergeCandidate]
    split
    · rename_i heq
      rw [heq]
      rfl
    · rename_i heq
      rw [heq]
  rw [hm]
  by_cases hg : g = c.handle
  · rw [hg]
    exact hlocal.placed (ha c.handle)
  · rw [hlocal.others g hg]
    exact ha g

theorem mergeAll_placed (a : ReplicaSync) {cs : List Candidate} (hcs : ∀ c ∈ cs, c.Paired)
    (ha : ∀ g, (a.pendingAt g).Placed g) (g : ReplicaHandle) :
    ((a.mergeAll cs).pendingAt g).Placed g := by
  induction cs generalizing a with
  | nil => exact ha g
  | cons c cs ih =>
    exact ih (a.mergeCandidate c) (fun d hd => hcs d (List.mem_cons_of_mem _ hd))
      (a.mergeCandidate_placed (hcs c List.mem_cons_self) ha)

theorem mergeCandidate_collection (a : ReplicaSync) {c : Candidate} (hc : c.Paired) :
    (a.mergeCandidate c).collection = a.collection := by
  have hlocal := (a.merge_local hc).1
  simp only [mergeCandidate]
  split
  · rename_i heq
    rw [heq] at hlocal
    exact hlocal.collection
  · rename_i heq
    rw [heq] at hlocal
    exact hlocal.collection

theorem mergeAll_collection (a : ReplicaSync) {cs : List Candidate} (hcs : ∀ c ∈ cs, c.Paired) :
    (a.mergeAll cs).collection = a.collection := by
  induction cs generalizing a with
  | nil => rfl
  | cons c cs ih =>
    have hrest := ih (a.mergeCandidate c) (fun d hd => hcs d (List.mem_cons_of_mem _ hd))
    exact hrest.trans (a.mergeCandidate_collection (hcs c List.mem_cons_self))

/-- The run with its merge just opened. -/
def opened (collection : ReplicaCollectionId) (opts : ReplicaSyncOptions)
    (cursor : Option ReplicaCheckpoint) (m : Merge) : ReplicaSync :=
  { new collection opts with checkpoint := cursor, merging := some m, state := .pendingEnumerate }

theorem opened_mergeAll (collection : ReplicaCollectionId) (opts : ReplicaSyncOptions)
    (cursor : Option ReplicaCheckpoint) (m : Merge) (cs : List Candidate) :
    (opened collection opts cursor m).mergeAll cs =
      { (new collection opts).mergeAll cs with
        loc := ∅
        checkpoint := cursor
        merging := some m
        inFlight := []
        nextCheckpoint := none
        state := .pendingEnumerate } := by
  have h := extend_mergeAll (opened collection opts cursor m) (new collection opts) cs
  have hnew : (opened collection opts cursor m).extend (new collection opts) =
      opened collection opts cursor m := extend_new (opened collection opts cursor m)
  rw [hnew] at h
  rw [h]
  simp [extend, opened, new, ReplicaSyncReport.extend, ReplicaSyncReport.default]

end ReplicaSync

/-- A completed sync run: what it loaded, what the remote enumerated, and every exchange. -/
def Syncs (collection : ReplicaCollectionId) (opts : ReplicaSyncOptions)
    (loaded : ReplicaLoaded) (snapshot : ReplicaRemoteSnapshot) (t : Transcript) : Prop :=
  ∃ rest report, t = (.wantsLoad collection .all, .load loaded) ::
      (.wantsEnumerate collection (if opts.full then none else loaded.checkpoint),
        .enumerate snapshot) :: rest ∧
    Coroutine.Runs ReplicaSync.resume (ReplicaSync.new collection opts) none t (.ok report)

/-- One sync of a sequence: its options, the load, the snapshot and every exchange. -/
structure SyncStep where
  opts : ReplicaSyncOptions
  loaded : ReplicaLoaded
  snapshot : ReplicaRemoteSnapshot
  transcript : Transcript

/-- Every completed run is one of what it loaded and what the remote enumerated. -/
theorem runs_syncs {collection : ReplicaCollectionId} {opts : ReplicaSyncOptions}
    {t : Transcript} {report : ReplicaSyncReport}
    (h : Coroutine.Runs ReplicaSync.resume (ReplicaSync.new collection opts) none t (.ok report)) :
    ∃ loaded snapshot, Syncs collection opts loaded snapshot t := by
  obtain ⟨b, u, rfl, hload⟩ := h.ends
  obtain ⟨loaded, rfl⟩ : ∃ loaded, b = .load loaded := by
    cases b with
    | load loaded => exact ⟨loaded, rfl⟩
    | enumerate | fetch | push | write | lookupObject => exact absurd hload.ends.2 (by simp)
  obtain ⟨b', v, rfl, henumerate⟩ := hload.ends
  obtain ⟨snapshot, rfl⟩ : ∃ snapshot, b' = .enumerate snapshot := by
    cases b' with
    | enumerate snapshot => exact ⟨snapshot, rfl⟩
    | load | fetch | push | write | lookupObject => exact absurd henumerate.ends.2 (by simp)
  exact ⟨loaded, snapshot, v, report, rfl, h⟩

/-- A completed run merges every candidate, pushes every change derived and writes what both
record, then the checkpoint. -/
theorem Syncs.spec {collection : ReplicaCollectionId} {opts : ReplicaSyncOptions}
    {loaded : ReplicaLoaded} {snapshot : ReplicaRemoteSnapshot} {t : Transcript}
    (h : Syncs collection opts loaded snapshot t) :
    let m := (ReplicaSync.new collection opts).mergeAll
      (Merge.between (collectPlacements loaded.placements) snapshot).candidates
    (t.pushes.map (·.1)).flatten = m.pushes ∧
      t.writes = m.writes ++ (Outbox.recordAll collection m.pendingAt t.pushes ++
        [.setCheckpoint collection snapshot.checkpoint]) := by
  obtain ⟨rest, report, rfl, hruns⟩ := h
  obtain ⟨b, u, hload, hruns⟩ := hruns.ends
  cases hload
  obtain ⟨b', u', henumerate, hruns⟩ := hruns.ends
  cases henumerate
  have hends := hruns.ends
  let rows := CollectionRows.ofLoad loaded.placements
  let cs := (Merge.between rows.rows snapshot).candidates
  have hpaired : ∀ c ∈ cs, c.Paired := (Merge.candidates_spec rows snapshot).paired
  have hspec : ReplicaSync.PushSpec
      (((ReplicaSync.opened collection opts _ (Merge.between rows.rows snapshot)).mergeAll cs).closed
        snapshot.checkpoint) rest :=
    ReplicaSync.mergeLoop_ends _ _ (Merge.between rows.rows snapshot) rest report rfl le_rfl rfl
      hends
  rw [ReplicaSync.opened_mergeAll] at hspec
  have hcoll : ((ReplicaSync.new collection opts).mergeAll cs).collection = collection :=
    ReplicaSync.mergeAll_collection _ hpaired
  have hwrites := hspec.writes
  simp only [ReplicaSync.closing, ReplicaSync.closed, hcoll] at hwrites
  exact ⟨hspec.pushes, hwrites⟩

/-- The changes a run pushed, in order. -/
def Transcript.changes (t : Transcript) : List ReplicaChange := (t.pushes.map (·.1)).flatten

/-- No other row of the run is written onto this handle: no other row's keep-both fork lands on it,
and no other member is assigned it. -/
structure Undisturbed (s : CollectionRows) (h : ReplicaHandle) (t : Transcript) : Prop where
  forks : ∀ (g : ReplicaHandle) (p : ReplicaPlacement), s.rows[g]? = some p → g ≠ h →
    ¬ Forks g p.object h
  assigned : Outbox.Unassigned h t.pushes

theorem Undisturbed.loaded {s : CollectionRows} {h : ReplicaHandle} {t : Transcript}
    (hu : Undisturbed s h t) {loaded : ReplicaLoaded} (hl : loaded.placements = s.placements) :
    Undisturbed (.ofLoad loaded.placements) h t := by
  refine ⟨fun g p hp => hu.forks g p ?_, hu.assigned⟩
  have hrow : (collectPlacements loaded.placements)[g]? = some p := hp
  rwa [hl, CollectionRows.collect_placements] at hrow

theorem Merge.candidateAt_spec {rows : HandleMap ReplicaPlacement}
    {snapshot : ReplicaRemoteSnapshot} {h : ReplicaHandle} {c : Candidate}
    (hc : candidateAt rows snapshot h = some c) : c.handle = h ∧ c.loc = rows[h]? := by
  simp only [candidateAt] at hc
  split at hc
  · exact select_spec hc
  · cases hc

/-- What a completed run leaves under the handle of one of its candidates, and the change it
pushed for it: its candidate merged alone, then the result its change was accepted with. -/
structure RunAt (collection : ReplicaCollectionId) (opts : ReplicaSyncOptions) (c : Candidate)
    (t : Transcript) : Prop where
  row : ∀ init, rowAfter c.handle init t.writes =
    match Outbox.confirmation c.handle t.pushes with
    | some r => rowAfter c.handle
        (rowAfter c.handle init (effect collection opts c).1.writes)
        (((effect collection opts c).1.pendingAt c.handle).record collection r)
    | none => rowAfter c.handle init (effect collection opts c).1.writes
  changes : t.changes.filter (fun k => k.handle = c.handle) =
    ((effect collection opts c).2.map (ReplicaChange.new collection)).toList

/-- Every candidate of an undisturbed run spares a handle that is not its own. -/
theorem Undisturbed.spares {s : CollectionRows} {snapshot : ReplicaRemoteSnapshot}
    {g : ReplicaHandle} {t : Transcript} (hu : Undisturbed s g t) {d : Candidate}
    (hd : d ∈ (Merge.between s.rows snapshot).candidates) (hh : d.handle ≠ g) : d.Spares g := by
  obtain ⟨-, hpaired, hmem⟩ := Merge.candidates_spec s snapshot
  refine ⟨hpaired d hd, hh, ?_⟩
  obtain ⟨-, hloc⟩ := Merge.candidateAt_spec ((hmem d).mp hd)
  cases hp : d.loc with
  | none =>
    rintro ⟨o, ho, -⟩
    cases ho
  | some p =>
    rw [hp] at hloc
    exact hu.forks d.handle p hloc.symm hh

theorem Syncs.runAt {collection : ReplicaCollectionId} {opts : ReplicaSyncOptions}
    {loaded : ReplicaLoaded} {snapshot : ReplicaRemoteSnapshot} {t : Transcript}
    (h : Syncs collection opts loaded snapshot t) {s : CollectionRows}
    (hl : loaded.placements = s.placements) {c : Candidate}
    (hc : Merge.candidateAt s.rows snapshot c.handle = some c)
    (hu : Undisturbed s c.handle t) : RunAt collection opts c t := by
  obtain ⟨hpushes, hwrites⟩ := h.spec
  rw [hl, CollectionRows.collect_placements] at hpushes hwrites
  obtain ⟨hasc, hpaired, hmem⟩ := Merge.candidates_spec s snapshot
  have hin := (hmem c).mpr hc
  have hnodup : (Merge.between s.rows snapshot).candidates.Nodup :=
    hasc.imp (fun hlt heq => absurd (congrArg Candidate.handle heq) hlt.ne)
  have hothers : ∀ d ∈ (Merge.between s.rows snapshot).candidates, d ≠ c → d.Spares c.handle := by
    intro d hd hne
    refine hu.spares hd (fun he => ?_)
    have hat := (hmem d).mp hd
    rw [he, hc, Option.some.injEq] at hat
    exact hne hat.symm
  have hat := ReplicaSync.mergeAll_at collection opts hin (hpaired c hin) hothers hnodup
  have hplaced := ReplicaSync.mergeAll_placed (ReplicaSync.new collection opts) hpaired
    (fun g => by rw [ReplicaSync.new_pendingAt]; exact .none g)
  refine ⟨?_, ?_⟩
  · intro init
    rw [hwrites, rowAfter_append, rowAfter_append, hat.row, rowAfter_setCheckpoint, rowAfter_nil,
      Outbox.rowAfter_recordAll hplaced _ hu.assigned, hat.pending]
  · rw [Transcript.changes, hpushes]
    exact hat.pushes

/-- A completed run leaves a handle of no candidate as it was, and pushes nothing for it. -/
theorem Syncs.away {collection : ReplicaCollectionId} {opts : ReplicaSyncOptions}
    {loaded : ReplicaLoaded} {snapshot : ReplicaRemoteSnapshot} {t : Transcript}
    (h : Syncs collection opts loaded snapshot t) {s : CollectionRows}
    (hl : loaded.placements = s.placements) {g : ReplicaHandle}
    (hc : Merge.candidateAt s.rows snapshot g = none) (hu : Undisturbed s g t) :
    (∀ init, rowAfter g init t.writes = init) ∧ t.changes.filter (fun k => k.handle = g) = [] := by
  obtain ⟨hpushes, hwrites⟩ := h.spec
  rw [hl, CollectionRows.collect_placements] at hpushes hwrites
  obtain ⟨-, hpaired, hmem⟩ := Merge.candidates_spec s snapshot
  have hothers : ∀ d ∈ (Merge.between s.rows snapshot).candidates, d.Spares g := by
    intro d hd
    refine hu.spares hd (fun he => ?_)
    have hat := (hmem d).mp hd
    rw [he, hc] at hat
    cases hat
  have haway := ReplicaSync.mergeAll_away (ReplicaSync.new collection opts) hothers
  have hplaced := ReplicaSync.mergeAll_placed (ReplicaSync.new collection opts) hpaired
    (fun g => by rw [ReplicaSync.new_pendingAt]; exact .none g)
  have hpend := haway.pending.trans (ReplicaSync.new_pendingAt collection opts g)
  refine ⟨?_, ?_⟩
  · intro init
    obtain ⟨ops, hops, hrow⟩ := haway.writes
    rw [hwrites, rowAfter_append, rowAfter_append, hops, rowAfter_append, rowAfter_of_ne _ hrow,
      rowAfter_setCheckpoint, rowAfter_nil,
      Outbox.rowAfter_recordAll_none hplaced hpend _ hu.assigned]
    rfl
  · obtain ⟨ks, hks, hh⟩ := haway.pushes
    rw [Transcript.changes, hpushes, hks, List.filter_eq_nil_iff]
    intro k hk
    have hne := hh k hk
    simpa using hne

end IoReplica

import IoReplica.Sync.Protocol
import IoReplica.Sync.Rest

/-! A muted run done twice, whole or from any of its batches on: the second finds the rows of the
first as it left them. -/
namespace IoReplica

namespace Merge

/-- What a merge makes of a handle depends on the row stored under it alone. -/
theorem candidateAt_congr {rows rows' : HandleMap ReplicaPlacement} {h : ReplicaHandle}
    (hr : rows[h]? = rows'[h]?) (snapshot : ReplicaRemoteSnapshot) :
    candidateAt rows snapshot h = candidateAt rows' snapshot h := by
  simp only [candidateAt, hr]
  rfl

/-- A handle neither stored nor listed is no candidate. -/
theorem candidateAt_none {rows : HandleMap ReplicaPlacement} {snapshot : ReplicaRemoteSnapshot}
    {h : ReplicaHandle} (hrow : rows[h]? = none) (hlisted : snapshot.reported h = none) :
    candidateAt rows snapshot h = none := by
  simp [candidateAt, hrow, hlisted]

end Merge

namespace ReplicaSync
variable {collection : ReplicaCollectionId} {opts : ReplicaSyncOptions}

/-- A row where its candidate landed is served as an idle candidate, if it is served again. -/
theorem candidateAt_landing {rows rows' : HandleMap ReplicaPlacement}
    {snapshot : ReplicaRemoteSnapshot} {h : ReplicaHandle} {c d : Candidate}
    (hc : Merge.candidateAt rows snapshot h = some c) (hlands : Lands collection opts c)
    (hrow : rows'[h]? = landing collection opts c)
    (hd : Merge.candidateAt rows' snapshot h = some d) : d.Idle collection opts := by
  have hidle := hlands.idle
  cases hfull : snapshot.complete with
  | true =>
    rw [Merge.candidateAt_complete hfull] at hc hd
    split at hc
    · split at hd
      · cases hc
        cases hd
        rw [hrow]
        exact hidle
      · cases hd
    · cases hc
  | false =>
    by_cases hv : h ∈ snapshot.vanished
    · rw [Merge.candidateAt_vanished hfull hv] at hc hd
      split at hc
      · split at hd
        · cases hc
          cases hd
          rw [hrow]
          exact hidle
        · cases hd
      · cases hc
    · cases hi : snapshot.reported h with
      | some item =>
        rw [Merge.candidateAt_listed hfull hv hi] at hc hd
        cases hc
        cases hd
        rw [hrow]
        exact hidle
      | none =>
        -- an unlisted row is served with its own base for the remote
        rw [Merge.candidateAt_unlisted hfull hv hi, Option.bind_eq_some_iff] at hc hd
        obtain ⟨p, hp, hc⟩ := hc
        obtain ⟨q, hq, hd⟩ := hd
        split at hc
        · cases hc
        · split at hd
          · cases hd
          · rename_i hclean
            cases hc
            cases hd
            rw [hrow] at hq
            have hsame := hlands.standIn p q rfl rfl hq hclean
            rw [hq] at hidle
            dsimp only at hsame hidle
            rw [hsame]
            exact hidle

/-- No keep-both handle the run stages is stored or listed. -/
def ForksApart (collection : ReplicaCollectionId) (opts : ReplicaSyncOptions) (s : CollectionRows)
    (snapshot : ReplicaRemoteSnapshot) (cs : List Candidate) : Prop :=
  ∀ c ∈ cs, ∀ q, .upsertPlacement q ∈ (effect collection opts c).1.writes → q.handle ≠ c.handle →
    s.rows[q.handle]? = none ∧ snapshot.reported q.handle = none

/-- Ops whose writes to a row are all staged creates leave it, or leave one of them. -/
theorem rowAfter_creates {h : ReplicaHandle} {ops : List ReplicaWriteOp}
    (hops : ∀ op ∈ ops, op.row = some h →
      ∃ q, op = .upsertPlacement q ∧ q.status = .created ∧ q.base = none)
    (init : Option ReplicaPlacement) :
    rowAfter h init ops = init ∨
      ∃ q, rowAfter h init ops = some q ∧ q.status = .created ∧ q.base = none := by
  induction ops generalizing init with
  | nil => exact Or.inl rfl
  | cons op ops ih =>
    have hsplit : rowAfter h init (op :: ops) = rowAfter h (rowAfter h init [op]) ops :=
      rowAfter_append h init [op] ops
    have hrest := ih (fun x hx => hops x (List.mem_cons_of_mem _ hx)) (rowAfter h init [op])
    rw [hsplit]
    by_cases hrow : op.row = some h
    · obtain ⟨q, rfl, hstatus, hbase⟩ := hops op List.mem_cons_self hrow
      have hq : q.handle = h := Option.some.inj hrow
      have hone : rowAfter h init [.upsertPlacement q] = some q := by simp [hq]
      rw [hone] at hrest ⊢
      rcases hrest with hr | hr
      · exact Or.inr ⟨q, hr, hstatus, hbase⟩
      · exact Or.inr hr
    · have hone : rowAfter h init [op] = init := by
        refine rowAfter_of_ne init (fun x hx => ?_)
        rw [List.mem_singleton.mp hx]
        exact hrow
      rw [hone] at hrest ⊢
      exact hrest

/-- What a group of a muted run's candidates makes of one handle. -/
inductive GroupLeaves (collection : ReplicaCollectionId) (opts : ReplicaSyncOptions)
    (s : CollectionRows) (snapshot : ReplicaRemoteSnapshot) (group : List Candidate)
    (h : ReplicaHandle) : Option ReplicaPlacement → Prop
  | landed {c : Candidate} (mem : c ∈ group) (handle : c.handle = h) :
    GroupLeaves collection opts s snapshot group h (landing collection opts c)
  | kept (others : ∀ c ∈ group, c.handle ≠ h) :
    GroupLeaves collection opts s snapshot group h s.rows[h]?
  | forked {p : ReplicaPlacement} (others : ∀ c ∈ group, c.handle ≠ h) (stored : s.rows[h]? = none)
    (listed : snapshot.reported h = none) (status : p.status = .created) (base : p.base = none) :
    GroupLeaves collection opts s snapshot group h (some p)

theorem group_leaves {s : CollectionRows} {snapshot : ReplicaRemoteSnapshot} {group : List Candidate}
    (hmem : ∀ c ∈ group, Merge.candidateAt s.rows snapshot c.handle = some c)
    (hlands : ∀ c ∈ group, Lands collection opts c)
    (hasc : group.Pairwise (fun a b => a.handle < b.handle))
    (hforks : ForksApart collection opts s snapshot group) (h : ReplicaHandle) :
    GroupLeaves collection opts s snapshot group h
      (rowAfter h s.rows[h]? (derived collection opts group)) := by
  have hfork : ∀ c ∈ group, c.handle ≠ h → ∀ op ∈ (effect collection opts c).1.writes,
      op.row = some h → (∃ q, op = .upsertPlacement q ∧ q.status = .created ∧ q.base = none) ∧
        s.rows[h]? = none ∧ snapshot.reported h = none := by
    intro c hc hne op hop hrow
    rcases (hlands c hc).own op hop with hown | ⟨p, o, -, rfl⟩
    · rw [hown] at hrow
      exact absurd (Option.some.inj hrow) hne
    · have hh : (forkedPlacement collection p o).handle = h := Option.some.inj hrow
      have hapart := hforks c hc _ hop (fun he => hne (he.symm.trans hh))
      rw [hh] at hapart
      exact ⟨⟨_, rfl, rfl, rfl⟩, hapart⟩
  by_cases hin : ∃ c ∈ group, c.handle = h
  · obtain ⟨c, hc, rfl⟩ := hin
    obtain ⟨pre, post, rfl⟩ := List.append_of_mem hc
    -- a fork onto a candidate's handle would be onto a stored or listed one
    have hsome : ¬ (s.rows[c.handle]? = none ∧ snapshot.reported c.handle = none) := by
      rintro ⟨hrow, hlisted⟩
      have hat := hmem c hc
      rw [Merge.candidateAt_none hrow hlisted] at hat
      cases hat
    obtain ⟨-, hcons, hapart⟩ := List.pairwise_append.mp hasc
    rw [List.pairwise_cons] at hcons
    have hspare : ∀ d ∈ pre ++ c :: post, d.handle ≠ c.handle →
        ∀ op ∈ (effect collection opts d).1.writes, op.row ≠ some c.handle :=
      fun d hd hne op hop hrow => hsome (hfork d hd hne op hop hrow).2
    have hpre : ∀ op ∈ derived collection opts pre, op.row ≠ some c.handle := by
      intro op hop
      obtain ⟨d, hd, hop⟩ := List.mem_flatMap.mp hop
      exact hspare d (List.mem_append_left _ hd) (hapart d hd c List.mem_cons_self).ne op hop
    have hpost : ∀ op ∈ derived collection opts post, op.row ≠ some c.handle := by
      intro op hop
      obtain ⟨d, hd, hop⟩ := List.mem_flatMap.mp hop
      exact hspare d (List.mem_append_right _ (List.mem_cons_of_mem _ hd)) (hcons.1 d hd).ne' op hop
    have hsplit : derived collection opts (pre ++ c :: post) = derived collection opts pre ++
        ((effect collection opts c).1.writes ++ derived collection opts post) := by
      simp only [derived, List.flatMap_append, List.flatMap_cons]
    have hloc : s.rows[c.handle]? = c.loc := (Merge.candidateAt_spec (hmem c hc)).2.symm
    rw [hsplit, rowAfter_append, rowAfter_append, rowAfter_of_ne _ hpre, rowAfter_of_ne _ hpost, hloc]
    exact .landed hc rfl
  · simp only [not_exists, not_and] at hin
    have hops : ∀ op ∈ derived collection opts group, op.row = some h →
        (∃ q, op = .upsertPlacement q ∧ q.status = .created ∧ q.base = none) ∧
          s.rows[h]? = none ∧ snapshot.reported h = none := by
      intro op hop hrow
      obtain ⟨c, hc, hop⟩ := List.mem_flatMap.mp hop
      exact hfork c hc (hin c hc) op hop hrow
    by_cases htouch : ∃ op ∈ derived collection opts group, op.row = some h
    · obtain ⟨op, hop, hrow⟩ := htouch
      obtain ⟨-, hstored, hlisted⟩ := hops op hop hrow
      rcases rowAfter_creates (fun op hop hrow => (hops op hop hrow).1) s.rows[h]? with hr | hr
      · rw [hr]
        exact .kept hin
      · obtain ⟨q, hr, hstatus, hbase⟩ := hr
        rw [hr]
        exact .forked hin hstored hlisted hstatus hbase
    · simp only [not_exists, not_and] at htouch
      rw [rowAfter_of_ne _ htouch]
      exact .kept hin

/-- The candidates of the rows a group left are the rest of the run's, but for idle ones. -/
theorem candidates_after {s : CollectionRows} {snapshot : ReplicaRemoteSnapshot}
    {group rest : List Candidate} (hmuted : opts.Muted)
    (hsplit : (Merge.between s.rows snapshot).candidates = group ++ rest)
    (hformed : ∀ (h : ReplicaHandle) (p : ReplicaPlacement), s.rows[h]? = some p → Formed p)
    (hforks : ForksApart collection opts s snapshot (group ++ rest)) :
    Listing.Alike (Candidate.Idle collection opts)
      (Merge.between (s.apply (derived collection opts group)).rows snapshot).candidates rest := by
  have hspec := Merge.candidates_spec s snapshot
  have hspec' := Merge.candidates_spec (s.apply (derived collection opts group)) snapshot
  obtain ⟨hasc, hpaired, hmem⟩ := hspec
  rw [hsplit] at hasc hpaired hmem
  have hat : ∀ c ∈ group ++ rest, Merge.candidateAt s.rows snapshot c.handle = some c :=
    fun c hc => (hmem c).mp hc
  have hlands : ∀ c ∈ group ++ rest, Lands collection opts c := by
    intro c hc
    refine effect_lands hmuted (hpaired c hc) (fun p hp => ?_)
    refine hformed c.handle p ?_
    rw [← hp]
    exact (Merge.candidateAt_spec (hat c hc)).2.symm
  have hleaves := group_leaves (fun c hc => hat c (List.mem_append_left _ hc))
    (fun c hc => hlands c (List.mem_append_left _ hc)) (List.pairwise_append.mp hasc).1
    (fun c hc => hforks c (List.mem_append_left _ hc))
  have hapart := (List.pairwise_append.mp hasc).2.2
  refine Listing.alike_of_ascending (fun c : Candidate => c.handle) _ _ hspec'.ascending
    (List.pairwise_append.mp hasc).2.1 ?_ ?_
  · intro d hd
    have hd' := (hspec'.mem_iff d).mp hd
    have hrow := CollectionRows.get_apply s (derived collection opts group) d.handle
    have hleft := hleaves d.handle
    rw [← hrow] at hleft
    generalize hr : (s.apply (derived collection opts group)).rows[d.handle]? = r at hleft
    cases hleft with
    | @landed c hc hh =>
      right
      have hcat := hat c (List.mem_append_left _ hc)
      rw [hh] at hcat
      exact candidateAt_landing hcat (hlands c (List.mem_append_left _ hc)) hr hd'
    | kept others =>
      left
      rw [Merge.candidateAt_congr hr] at hd'
      rcases List.mem_append.mp ((hmem d).mpr hd') with hg | hg
      · exact absurd rfl (others d hg)
      · exact hg
    | @forked p others stored listed status base =>
      right
      rw [Merge.candidateAt_create hr base status listed, Option.some.injEq] at hd'
      rw [← hd', Candidate.Idle, effect, merge_live _ _ (by simp [status])]
      have hadd : (new collection opts).opts.mayAdd = false := hmuted.mayAdd
      simp [base, mergeCreate, hadd]
  · intro c hc
    left
    rw [hspec'.mem_iff]
    have hcat := hat c (List.mem_append_right _ hc)
    have hne : ∀ d ∈ group, d.handle ≠ c.handle := fun d hd => (hapart d hd c hc).ne
    have hrow := CollectionRows.get_apply s (derived collection opts group) c.handle
    have hleft := hleaves c.handle
    rw [← hrow] at hleft
    generalize hr : (s.apply (derived collection opts group)).rows[c.handle]? = r at hleft
    cases hleft with
    | landed hd hh => exact absurd hh (hne _ hd)
    | kept => rw [Merge.candidateAt_congr hr, hcat]
    | forked others stored listed =>
      rw [Merge.candidateAt_none stored listed] at hcat
      cases hcat

theorem derived_append (cs ds : List Candidate) : derived collection opts (cs ++ ds) =
    derived collection opts cs ++ derived collection opts ds := List.flatMap_append

theorem derived_flatten (gs : List (List Candidate)) :
    (gs.map (derived collection opts)).flatten = derived collection opts gs.flatten := by
  induction gs with
  | nil => rfl
  | cons g gs ih => rw [List.map_cons, List.flatten_cons, ih, List.flatten_cons, derived_append]

theorem derived_alike {cs ds : List Candidate}
    (h : Listing.Alike (Candidate.Idle collection opts) cs ds) :
    derived collection opts cs = derived collection opts ds := by
  have hidle : ∀ {c : Candidate}, c.Idle collection opts →
      (effect collection opts c).1.writes = [] := by
    intro c hc
    rw [hc]
    rfl
  induction h with
  | nil => rfl
  | both c _ ih => exact congrArg ((effect collection opts c).1.writes ++ ·) ih
  | left idle _ ih => rw [derived, List.flatMap_cons, hidle idle]; exact ih
  | right idle _ ih => rw [ih]; simp only [derived, List.flatMap_cons, hidle idle, List.nil_append]

/-- The batches of a run that derives no change: whole candidates, the checkpoint after the last. -/
theorem runs_unpushed {loaded : ReplicaLoaded} {snapshot : ReplicaRemoteSnapshot} {t : Transcript}
    {report : ReplicaSyncReport}
    (hchange : ∀ c ∈ mergedCandidates loaded snapshot, (effect collection opts c).2 = none)
    (h : Coroutine.Runs resume (new collection opts) none
      (enumerated collection opts loaded snapshot t) (.ok report)) :
    ∃ (groups : List (List Candidate)) (last : List Candidate),
      mergedCandidates loaded snapshot = groups.flatten ++ last ∧
      t = groups.map (fun g => written (derived collection opts g)) ++
        [written (derived collection opts last ++
          [.setCheckpoint collection snapshot.checkpoint])] := by
  obtain ⟨hasc, hpaired, -⟩ :=
    Merge.candidates_spec (CollectionRows.ofLoad loaded.placements) snapshot
  obtain ⟨groups, last, out, u, hcut, -, ht, hm, hu⟩ := runs_merged h
  have hall := mergedAll collection opts (mergedCandidates loaded snapshot) hpaired hasc
  have hpushes : out.pushes = [] := by
    refine hm.pushes.trans (hall.pushes.trans ?_)
    rw [List.filterMap_eq_nil_iff]
    intro c hc
    rw [hchange c hc]
    rfl
  refine ⟨groups, last, hcut, ?_⟩
  rw [ht, hu.written hm.nextCheckpoint hpushes, hm.writes, hm.collection]
  rfl

theorem walk_idle {cs : List Candidate} {self : ReplicaSync}
    (hcs : ∀ c ∈ cs, c.Idle self.collection self.opts)
    (hroom : self.writes.length < WRITE_CHUNK) : walk cs self = (self, none) := by
  induction cs with
  | nil => rfl
  | cons c cs ih =>
    have hsame := mergeCandidate_idle_eq self (hcs c List.mem_cons_self)
    simp only [walk, hsame, if_neg (not_le.mpr hroom)]
    exact ih (fun d hd => hcs d (List.mem_cons_of_mem _ hd))

/-- A run whose candidates all do nothing writes its checkpoint and reports nothing. -/
theorem runs_idle {loaded : ReplicaLoaded} {snapshot : ReplicaRemoteSnapshot} {t : Transcript}
    {report : ReplicaSyncReport}
    (hidle : ∀ c ∈ mergedCandidates loaded snapshot, c.Idle collection opts)
    (h : Coroutine.Runs resume (new collection opts) none
      (enumerated collection opts loaded snapshot t) (.ok report)) :
    t = [written [.setCheckpoint collection snapshot.checkpoint]] ∧ report = .default := by
  let m := Merge.between (collectPlacements loaded.placements) snapshot
  let start := opened collection opts (if opts.full then none else loaded.checkpoint) m
  have hstep := start.mergeStep_walk m
  have hwalk : walk m.candidates start = (start, none) :=
    walk_idle hidle (Nat.zero_lt_of_ne_zero (by decide))
  rw [hwalk] at hstep
  dsimp only at hstep
  have hends : Coroutine.Ends resume (start.mergingAt m).mergeStep t (.ok report) :=
    runs_enumerated.mp h
  rw [hstep, step_last (start.closed m.checkpoint) rfl] at hends
  obtain ⟨b, u, rfl, hruns⟩ := hends
  have hb : b = .write := answered_write hruns (Or.inl rfl)
  rw [hb] at hruns ⊢
  obtain ⟨hu, hreport⟩ := hruns.ends
  rw [hu]
  exact ⟨rfl, (Except.ok.inj hreport).symm⟩

end ReplicaSync

/-- The batches of a prefix of a muted run's: those of a group of its candidates. -/
theorem prefix_batches {collection : ReplicaCollectionId} {opts : ReplicaSyncOptions}
    {groups : List (List Candidate)} {last : List Candidate} {ck : ReplicaWriteOp}
    {pre : List (List ReplicaWriteOp)}
    (h : pre <+: groups.map (ReplicaSync.derived collection opts) ++
      [ReplicaSync.derived collection opts last ++ [ck]]) :
    ∃ group rest, groups.flatten ++ last = group ++ rest ∧
      (pre.flatten = ReplicaSync.derived collection opts group ∨
        (pre.flatten = ReplicaSync.derived collection opts group ++ [ck] ∧ rest = [])) := by
  rcases List.prefix_concat_iff.mp h with rfl | h
  · refine ⟨groups.flatten ++ last, [], by simp, Or.inr ⟨?_, rfl⟩⟩
    rw [List.flatten_append, ReplicaSync.derived_flatten, ReplicaSync.derived_append]
    simp
  · obtain ⟨gs, ⟨gs', rfl⟩, rfl⟩ := List.prefix_map_iff.mp h
    refine ⟨gs.flatten, gs'.flatten ++ last, ?_, Or.inl (ReplicaSync.derived_flatten gs)⟩
    rw [List.flatten_append, List.append_assoc]

theorem CollectionRows.apply_setCheckpoint (s : CollectionRows) (ops : List ReplicaWriteOp)
    (c : ReplicaCollectionId) (k : ReplicaCheckpoint) :
    s.apply (ops ++ [.setCheckpoint c k]) = s.apply ops := by
  rw [CollectionRows.apply, List.foldl_append]
  rfl

theorem CollectionRows.apply_append (s : CollectionRows) (ops ops' : List ReplicaWriteOp) :
    s.apply (ops ++ ops') = (s.apply ops).apply ops' := List.foldl_append

/-- What a load of the rows of `s` is merged as. -/
theorem mergedCandidates_of_rows {s : CollectionRows} {loaded : ReplicaLoaded}
    (hl : loaded.placements = s.placements) (snapshot : ReplicaRemoteSnapshot) :
    mergedCandidates loaded snapshot = (Merge.between s.rows snapshot).candidates := by
  rw [mergedCandidates, hl, CollectionRows.collect_placements]

open ReplicaSync

/-- Done again on the same snapshot, a muted run writes its checkpoint and reports nothing; done
again after any of its batches, it ends with the rows of the run that was not cut short. -/
theorem repeated_merge_settled {collection : ReplicaCollectionId} {opts : ReplicaSyncOptions}
    {s : CollectionRows} {snapshot : ReplicaRemoteSnapshot} {loaded : ReplicaLoaded} {t : Transcript}
    {report : ReplicaSyncReport} (hmuted : opts.Muted)
    (hformed : ∀ (h : ReplicaHandle) (p : ReplicaPlacement), s.rows[h]? = some p → Formed p)
    (hl : loaded.placements = s.placements)
    (hforks : ForksApart collection opts s snapshot (mergedCandidates loaded snapshot))
    (hrun : Coroutine.Runs resume (ReplicaSync.new collection opts) none
      (enumerated collection opts loaded snapshot t) (.ok report)) :
    (∀ loaded' t' report', loaded'.placements = (s.apply (Transcript.writes t)).placements →
      Coroutine.Runs resume (ReplicaSync.new collection opts) none
        (enumerated collection opts loaded' snapshot t') (.ok report') →
      Transcript.writes t' = [.setCheckpoint collection snapshot.checkpoint] ∧
        report' = .default) ∧
    ∀ pre, pre <+: Transcript.batches t → ∀ loaded' t' report',
      loaded'.placements = (s.apply pre.flatten).placements →
      Coroutine.Runs resume (ReplicaSync.new collection opts) none
        (enumerated collection opts loaded' snapshot t') (.ok report') →
      ((s.apply pre.flatten).apply (Transcript.writes t')).rows =
        (s.apply (Transcript.writes t)).rows := by
  have hcs := mergedCandidates_of_rows hl snapshot
  have hspec := Merge.candidates_spec s snapshot
  have hlands : ∀ c ∈ mergedCandidates loaded snapshot, Lands collection opts c := by
    rw [hcs]
    intro c hc
    refine effect_lands hmuted (hspec.paired c hc) (fun p hp => hformed c.handle p ?_)
    rw [← hp]
    exact (Merge.candidateAt_spec ((hspec.mem_iff c).mp hc)).2.symm
  obtain ⟨groups, last, hcut, ht⟩ := runs_unpushed (fun c hc => (hlands c hc).change) hrun
  have hbatches : Transcript.batches t = groups.map (derived collection opts) ++
      [derived collection opts last ++ [.setCheckpoint collection snapshot.checkpoint]] := by
    rw [ht]
    simp [Transcript.batches, written, List.filterMap_map]
  have hwrites : Transcript.writes t = derived collection opts (mergedCandidates loaded snapshot) ++
      [.setCheckpoint collection snapshot.checkpoint] := by
    rw [← Transcript.flatten_batches, hbatches, List.flatten_append, derived_flatten, hcut,
      derived_append]
    simp
  -- what a second run merges, done after a group of the first one's candidates
  have hagain : ∀ group rest, mergedCandidates loaded snapshot = group ++ rest → ∀ loaded',
      loaded'.placements = (s.apply (derived collection opts group)).placements →
      Listing.Alike (Candidate.Idle collection opts) (mergedCandidates loaded' snapshot) rest := by
    intro group rest hsplit loaded' hl'
    rw [mergedCandidates_of_rows hl' snapshot]
    refine candidates_after hmuted (hcs.symm.trans hsplit) hformed ?_
    rw [← hsplit]
    exact hforks
  refine ⟨?_, ?_⟩
  · intro loaded' t' report' hl' hrun'
    rw [hwrites, CollectionRows.apply_setCheckpoint] at hl'
    have halike := hagain _ [] (List.append_nil _).symm loaded' hl'
    obtain ⟨ht', hreport⟩ := runs_idle (fun c hc => (halike.mem hc).resolve_left (by simp)) hrun'
    exact ⟨by rw [ht']; rfl, hreport⟩
  · intro pre hpre loaded' t' report' hl' hrun'
    rw [hbatches] at hpre
    obtain ⟨group, rest, hsplit, hflat⟩ := prefix_batches hpre
    have hrows : s.apply pre.flatten = s.apply (derived collection opts group) := by
      rcases hflat with hflat | ⟨hflat, -⟩
      · rw [hflat]
      · rw [hflat, CollectionRows.apply_setCheckpoint]
    rw [hrows] at hl' ⊢
    have halike := hagain group rest (hcut.trans hsplit) loaded' hl'
    have hchange : ∀ c ∈ mergedCandidates loaded' snapshot, (effect collection opts c).2 = none := by
      intro c hc
      rcases halike.mem hc with hin | hidle
      · refine (hlands c ?_).change
        rw [hcut, hsplit]
        exact List.mem_append_right _ hin
      · rw [hidle]
    obtain ⟨groups', last', hcut', ht'⟩ := runs_unpushed hchange hrun'
    have hwrites' : Transcript.writes t' = derived collection opts rest ++
        [.setCheckpoint collection snapshot.checkpoint] := by
      rw [← derived_alike halike, hcut', ← Transcript.flatten_batches, ht']
      simp [Transcript.batches, written, List.filterMap_map, derived_append,
        derived_flatten]
    rw [hwrites', hwrites, CollectionRows.apply_setCheckpoint, CollectionRows.apply_setCheckpoint,
      hcut, hsplit, derived_append, CollectionRows.apply_append]

section Runs

open StagedEdit

/-- Both versions kept, nothing pushed. -/
def keepingBoth : ReplicaSyncOptions :=
  { ReplicaSyncOptions.default with push := false, delete := .keep, conflict := .keepBoth }

/-- The edited card against a remote that edited it too. -/
def editedSeam : Seam := Seam.single card ⟨[⟨⟨"a"⟩, .empty, some "2"⟩], [], true, ⟨[]⟩⟩ []

/-- The card's edit forked beside the pulled row: a second run finds nothing to do. -/
theorem forked_card_settled : ∃ t report,
    Coroutine.Runs resume (ReplicaSync.new card.collection keepingBoth) none
      (enumerated card.collection keepingBoth ⟨editedSeam.rows.placements, none⟩ editedSeam.snapshot t)
      (.ok report) ∧ (Transcript.writes t).length = 4 ∧
    (∀ loaded' t' report', loaded'.placements =
        (editedSeam.rows.apply (Transcript.writes t)).placements →
      Coroutine.Runs resume (ReplicaSync.new card.collection keepingBoth) none
        (enumerated card.collection keepingBoth loaded' editedSeam.snapshot t') (.ok report') →
      Transcript.writes t' = [.setCheckpoint card.collection editedSeam.snapshot.checkpoint] ∧
        report' = .default) ∧
    ∀ pre, pre <+: Transcript.batches t → ∀ loaded' t' report',
      loaded'.placements = (editedSeam.rows.apply pre.flatten).placements →
      Coroutine.Runs resume (ReplicaSync.new card.collection keepingBoth) none
        (enumerated card.collection keepingBoth loaded' editedSeam.snapshot t') (.ok report') →
      ((editedSeam.rows.apply pre.flatten).apply (Transcript.writes t')).rows =
        (editedSeam.rows.apply (Transcript.writes t)).rows := by
  have hrun : (editedSeam.sync 9 card.collection keepingBoth).map
      (fun o => (Transcript.writes o.2).length) = some 4 := by decide
  obtain ⟨⟨s', t⟩, hd, hlen⟩ := Option.map_eq_some_iff.mp hrun
  obtain ⟨⟨rest, report, rfl, hruns⟩, -⟩ := Seam.sync_syncs hd
  have hmuted : keepingBoth.Muted := ⟨rfl, rfl⟩
  have hget : ∀ (h : ReplicaHandle) (p : ReplicaPlacement), editedSeam.rows.rows[h]? = some p →
      p = card := by
    intro h p hp
    rw [editedSeam, Seam.single, CollectionRows.get_single] at hp
    split at hp
    · exact (Option.some.inj hp).symm
    · cases hp
  have hformed : ∀ (h : ReplicaHandle) (p : ReplicaPlacement), editedSeam.rows.rows[h]? = some p →
      Formed p := by
    intro h p hp
    rw [hget h p hp]
    exact ⟨by decide, by decide⟩
  have hspec := Merge.candidates_spec editedSeam.rows editedSeam.snapshot
  have hforks : ForksApart card.collection keepingBoth editedSeam.rows editedSeam.snapshot
      (mergedCandidates ⟨editedSeam.rows.placements, none⟩ editedSeam.snapshot) := by
    rw [mergedCandidates_of_rows rfl]
    intro c hc q hq hne
    have hloc := (Merge.candidateAt_spec ((hspec.mem_iff c).mp hc)).2
    have hlands : Lands card.collection keepingBoth c :=
      effect_lands hmuted (hspec.paired c hc) (fun p hp => hformed c.handle p (hloc.symm.trans hp))
    rcases hlands.own _ hq with hown | ⟨p, o, hp, hfork⟩
    · exact absurd (Option.some.inj hown) hne
    · have hcard := hget c.handle p (hloc.symm.trans hp)
      have hh : q.handle = keepBothHandle ⟨"a"⟩ o := by
        rw [ReplicaWriteOp.upsertPlacement.inj hfork, hcard]
        rfl
      have ha : card.handle ≠ q.handle := by
        rw [hh]
        exact (keepBothHandle_ne ⟨"a"⟩ o).symm
      refine ⟨?_, ?_⟩
      · rw [editedSeam, Seam.single, CollectionRows.get_single, if_neg ha]
      · have hitem : decide ((⟨"a"⟩ : ReplicaHandle) = q.handle) = false := decide_eq_false ha
        simp only [editedSeam, Seam.single, ReplicaRemoteSnapshot.reported, List.find?_cons, hitem,
          List.find?_nil]
  obtain ⟨hagain, hprefix⟩ := repeated_merge_settled hmuted hformed rfl hforks hruns
  exact ⟨rest, report, hruns, hlen, hagain, hprefix⟩

end Runs

end IoReplica

import IoReplica.Library.Listing
import IoReplica.Sync.StagedEdit
import IoReplica.Sync.Walk
import IoReplica.Sync.Whole

/-! A delta run against the full run it stands for: they part on candidates that do nothing. -/
namespace IoReplica

/-- Merging the candidate queues, derives and reports nothing. -/
def Candidate.Idle (collection : ReplicaCollectionId) (opts : ReplicaSyncOptions) (c : Candidate) :
    Prop := effect collection opts c = (ReplicaSync.new collection opts, none)

/-- A Clean based row in sync with its base, no conflict left on it. -/
def Settled (p : ReplicaPlacement) : Prop :=
  p.status = .clean → ∀ base, p.base = some base → p.flags = base.flags ∧ p.conflictRevision = none

/-- The complete snapshot a delta stands for: what it lists and does not report vanished, and the
best-known state of every stored based row it does not mention. -/
structure Completes (rows : HandleMap ReplicaPlacement) (delta full : ReplicaRemoteSnapshot) :
    Prop where
  complete : full.complete = true
  checkpoint : full.checkpoint = delta.checkpoint
  reported : ∀ h, full.reported h =
    if h ∈ delta.vanished then none
    else (delta.reported h).or (rows[h]?.bind (Merge.standIn h))

namespace ReplicaSync

variable {collection : ReplicaCollectionId} {opts : ReplicaSyncOptions}

/-- A row in sync merged with its own base does nothing. -/
theorem idle_standIn {h : ReplicaHandle} {p : ReplicaPlacement} (hp : Settled p)
    (hclean : p.status = .clean) : Candidate.Idle collection opts ⟨h, some p, Merge.standIn h p⟩ := by
  have hs : p.status ≠ .tombstone := by simp [hclean]
  rw [Candidate.Idle, effect, merge_live _ _ hs]
  cases hb : p.base with
  | none => simp [Merge.standIn, hb, mergeCreate, hclean]
  | some base =>
    obtain ⟨hflags, hrev⟩ := hp hclean base hb
    have hbf : p.baseFlags = some base.flags := by simp [ReplicaPlacement.baseFlags, hb]
    simp [Merge.standIn, hb, hrev, mergePresent, reconcileContent, hclean, localChanged, movedFrom,
      reconcileFlags, hbf, hflags]

theorem mergeCandidate_idle_eq (self : ReplicaSync) {c : Candidate}
    (hc : c.Idle self.collection self.opts) : self.mergeCandidate c = self := by
  have hext := extend_merge self (new self.collection self.opts) c
  rw [extend_new] at hext
  rw [Candidate.Idle, effect] at hc
  rw [hc, extend_new] at hext
  simp only [mergeCandidate, hext]

/-- Walks over candidates alike but for idle ones queue the same and stop at the same point. -/
theorem walk_alike {cs ds : List Candidate} {self : ReplicaSync}
    (h : Listing.Alike (Candidate.Idle collection opts) cs ds)
    (hcs : ∀ c ∈ cs, c.Paired) (hcoll : self.collection = collection) (hopts : self.opts = opts)
    (hroom : self.writes.length < WRITE_CHUNK) :
    (walk cs self).1 = (walk ds self).1 ∧
      match (walk cs self).2, (walk ds self).2 with
      | none, none => True
      | some cs', some ds' => Listing.Alike (Candidate.Idle collection opts) cs' ds' ∧
          ∀ c ∈ cs', c.Paired
      | _, _ => False := by
  induction h generalizing self with
  | nil => exact ⟨rfl, trivial⟩
  | both c rest ih =>
    have hc := hcs c List.mem_cons_self
    have hcs' := fun d hd => hcs d (List.mem_cons_of_mem _ hd)
    simp only [walk]
    by_cases hfull : WRITE_CHUNK ≤ (self.mergeCandidate c).writes.length
    · rw [if_pos hfull, if_pos hfull]
      exact ⟨rfl, rest, hcs'⟩
    · rw [if_neg hfull, if_neg hfull]
      exact ih hcs' ((self.mergeCandidate_collection hc).trans hcoll)
        ((self.mergeCandidate_opts hc).trans hopts) (not_le.mp hfull)
  | left idle rest ih =>
    have hsame := mergeCandidate_idle_eq self (by rw [hcoll, hopts]; exact idle)
    simp only [walk, hsame, if_neg (not_le.mpr hroom)]
    exact ih (fun d hd => hcs d (List.mem_cons_of_mem _ hd)) hcoll hopts hroom
  | right idle rest ih =>
    have hsame := mergeCandidate_idle_eq self (by rw [hcoll, hopts]; exact idle)
    simp only [walk, hsame, if_neg (not_le.mpr hroom)]
    exact ih hcs hcoll hopts hroom

theorem walk_kept (cs : List Candidate) (self : ReplicaSync) (hcs : ∀ c ∈ cs, c.Paired) :
    (walk cs self).1.collection = self.collection ∧ (walk cs self).1.opts = self.opts := by
  induction cs generalizing self with
  | nil => exact ⟨rfl, rfl⟩
  | cons c cs ih =>
    have hc := hcs c List.mem_cons_self
    have hcoll := self.mergeCandidate_collection hc
    have hopts := self.mergeCandidate_opts hc
    simp only [walk]
    split
    · exact ⟨hcoll, hopts⟩
    · obtain ⟨hcoll', hopts'⟩ := ih (self.mergeCandidate c)
        (fun d hd => hcs d (List.mem_cons_of_mem _ hd))
      exact ⟨hcoll'.trans hcoll, hopts'.trans hopts⟩

/-- Two runs between batches of the same merge, alike but for idle candidates left. -/
inductive Abreast : ReplicaSync → ReplicaSync → Prop
  | same (a : ReplicaSync) : Abreast a a
  | merging {a : ReplicaSync} {m n : Merge} (state : a.state = .merging) (writes : a.writes = [])
      (checkpoint : m.checkpoint = n.checkpoint)
      (alike : Listing.Alike (Candidate.Idle a.collection a.opts) m.candidates n.candidates)
      (paired : ∀ c ∈ m.candidates, c.Paired) : Abreast (a.mergingAt m) (a.mergingAt n)

/-- Merges alike hand the same batch, or the same first push, to the driver. -/
theorem mergeStep_abreast {self : ReplicaSync} {m n : Merge} (hroom : self.writes.length < WRITE_CHUNK)
    (hcheckpoint : m.checkpoint = n.checkpoint)
    (halike : Listing.Alike (Candidate.Idle self.collection self.opts) m.candidates n.candidates)
    (hpaired : ∀ c ∈ m.candidates, c.Paired) :
    (self.mergingAt m).mergeStep.2 = (self.mergingAt n).mergeStep.2 ∧
      Abreast (self.mergingAt m).mergeStep.1 (self.mergingAt n).mergeStep.1 := by
  obtain ⟨hout, hrest⟩ := walk_alike halike hpaired rfl rfl hroom
  obtain ⟨hcoll, hopts⟩ := walk_kept m.candidates self hpaired
  have hm := self.mergeStep_walk m
  have hn := self.mergeStep_walk n
  cases hwm : walk m.candidates self with
  | mk out restm =>
    cases hwn : walk n.candidates self with
    | mk out' restn =>
      rw [hwm] at hm hout hrest hcoll hopts
      rw [hwn] at hn hout hrest
      dsimp only at hm hn hout hrest hcoll hopts
      subst hout
      cases restm with
      | none =>
        cases restn with
        | none =>
          dsimp only at hm hn
          rw [hm, hn, hcheckpoint]
          exact ⟨rfl, .same _⟩
        | some => exact absurd hrest id
      | some restm =>
        cases restn with
        | none => exact absurd hrest id
        | some restn =>
          obtain ⟨halike', hpaired'⟩ := hrest
          obtain ⟨m', hmc, rfl, hmstep⟩ := hm
          obtain ⟨n', hnc, rfl, hnstep⟩ := hn
          obtain ⟨hfcoll, hfopts, hfstate, hfwrites⟩ := out.flush_kept
          rw [hmstep, hnstep, mergingAt_flush, mergingAt_flush]
          refine ⟨rfl, .merging hfstate hfwrites ?_ ?_ hpaired'⟩
          · rw [hmc, hnc, hcheckpoint]
          · rw [hfcoll, hfopts, hcoll, hopts]
            exact halike'

/-- Abreast runs answer every resume alike, and stay abreast. -/
theorem resume_abreast (a b : ReplicaSync) (arg : Option ReplicaArg) (h : Abreast a b) :
    (a.resume arg).2 = (b.resume arg).2 ∧ Abreast (a.resume arg).1 (b.resume arg).1 := by
  cases h with
  | same => exact ⟨rfl, .same _⟩
  | @merging a m n state writes checkpoint alike paired =>
    have hm : (a.mergingAt m).state = .merging := state
    have hn : (a.mergingAt n).state = .merging := state
    have hkept := Abreast.merging state writes checkpoint alike paired
    cases arg with
    | none => exact ⟨by simp only [resume, hm, hn], by simpa only [resume, hm, hn] using hkept⟩
    | some arg =>
      cases arg with
      | write =>
        simp only [resume, hm, hn]
        exact mergeStep_abreast (by rw [writes]; exact Nat.zero_lt_of_ne_zero (by decide))
          checkpoint alike paired
      | load | enumerate | fetch | push | lookupObject =>
        exact ⟨by simp only [resume, hm, hn], by simpa only [resume, hm, hn] using hkept⟩

end ReplicaSync

namespace Merge

theorem candidateAt_complete {rows : HandleMap ReplicaPlacement} {full : ReplicaRemoteSnapshot}
    (hfull : full.complete = true) (h : ReplicaHandle) :
    candidateAt rows full h =
      if rows[h]?.isSome ∨ (full.reported h).isSome then some ⟨h, rows[h]?, full.reported h⟩
      else none := by
  simp only [candidateAt, select, between, hfull, if_true]

/-- What the two runs make of one handle: the same candidate, or idle ones. -/
theorem candidateAt_delta {rows : HandleMap ReplicaPlacement} {delta full : ReplicaRemoteSnapshot}
    (hdelta : delta.complete = false) (hfull : Completes rows delta full)
    {h : ReplicaHandle} (hrow : ∀ p, rows[h]? = some p → Settled p)
    (collection : ReplicaCollectionId) (opts : ReplicaSyncOptions) :
    candidateAt rows delta h = candidateAt rows full h ∨
      ∀ c, candidateAt rows delta h = some c ∨ candidateAt rows full h = some c →
        c.Idle collection opts := by
  rw [candidateAt_complete hfull.complete, hfull.reported]
  have habsent : Candidate.Idle collection opts ⟨h, none, none⟩ := rfl
  by_cases hv : h ∈ delta.vanished
  · rw [if_pos hv]
    cases hp : rows[h]? with
    | some p =>
      left
      simp [candidateAt, select, between, narrow, hdelta, hv, hp]
    | none =>
      right
      rintro c (hc | hc)
      · simp only [candidateAt, hp] at hc
        split at hc
        · simp [select, between, narrow, hdelta, hv] at hc
          rw [← hc]
          exact habsent
        · cases hc
      · simp at hc
  · rw [if_neg hv]
    cases hi : delta.reported h with
    | some item =>
      left
      simp [candidateAt, select, between, narrow, hdelta, hv, hi]
    | none =>
      cases hp : rows[h]? with
      | none =>
        left
        simp [candidateAt, hi, hp]
      | some p =>
        by_cases hclean : p.status = .clean
        · right
          rintro c (hc | hc)
          · simp [candidateAt, select, between, narrow, hdelta, hv, hi, hp, hclean] at hc
          · simp only [Option.isSome_some, true_or, if_true, Option.some.injEq] at hc
            rw [← hc]
            exact ReplicaSync.idle_standIn (hrow p hp) hclean
        · left
          simp [candidateAt, select, between, narrow, hdelta, hv, hi, hp, hclean]

end Merge

/-- The exchanges of a run up to its enumeration, then the rest. -/
def enumerated (collection : ReplicaCollectionId) (opts : ReplicaSyncOptions)
    (loaded : ReplicaLoaded) (snapshot : ReplicaRemoteSnapshot) (rest : Transcript) : Transcript :=
  (.wantsLoad collection .all, .load loaded) ::
    (.wantsEnumerate collection (if opts.full then none else loaded.checkpoint),
      .enumerate snapshot) :: rest

namespace ReplicaSync

/-- The candidates of a delta and of the snapshot it stands for are alike but for idle ones. -/
theorem candidates_alike {loaded : ReplicaLoaded} {delta full : ReplicaRemoteSnapshot}
    (hdelta : delta.complete = false)
    (hfull : Completes (collectPlacements loaded.placements) delta full)
    (hrows : ∀ (h : ReplicaHandle) (p : ReplicaPlacement),
      (collectPlacements loaded.placements)[h]? = some p → Settled p)
    (collection : ReplicaCollectionId) (opts : ReplicaSyncOptions) :
    Listing.Alike (Candidate.Idle collection opts) (mergedCandidates loaded delta)
      (mergedCandidates loaded full) := by
  let rows := CollectionRows.ofLoad loaded.placements
  have hd := Merge.candidates_spec rows delta
  have hf := Merge.candidates_spec rows full
  refine Listing.alike_of_ascending (fun c : Candidate => c.handle) _ _ hd.ascending hf.ascending
    ?_ ?_
  · intro c hc
    rw [mem_mergedCandidates] at hc ⊢
    rcases Merge.candidateAt_delta hdelta hfull (hrows c.handle) collection opts with heq | hidle
    · exact Or.inl (heq.symm.trans hc)
    · exact Or.inr (hidle c (Or.inl hc))
  · intro c hc
    rw [mem_mergedCandidates] at hc ⊢
    rcases Merge.candidateAt_delta hdelta hfull (hrows c.handle) collection opts with heq | hidle
    · exact Or.inl (heq.trans hc)
    · exact Or.inr (hidle c (Or.inr hc))

/-- A run up to its enumerate reply. -/
def awaitingEnumerate (collection : ReplicaCollectionId) (opts : ReplicaSyncOptions)
    (loaded : ReplicaLoaded) : ReplicaSync :=
  { new collection opts with
    loc := collectPlacements loaded.placements
    checkpoint := if opts.full then none else loaded.checkpoint
    state := .pendingEnumerate }

theorem runs_enumerated {collection : ReplicaCollectionId} {opts : ReplicaSyncOptions}
    {loaded : ReplicaLoaded} {snapshot : ReplicaRemoteSnapshot} {rest : Transcript}
    {r : Except ReplicaArgError ReplicaSyncReport} :
    Coroutine.Runs resume (new collection opts) none
        (enumerated collection opts loaded snapshot rest) r ↔
      Coroutine.Ends resume
        ((awaitingEnumerate collection opts loaded).openMerge snapshot).mergeStep rest r := by
  constructor
  · intro h
    obtain ⟨b, u, hload, h⟩ := h.ends
    cases hload
    obtain ⟨b, u, henumerate, h⟩ := h.ends
    cases henumerate
    exact h.ends
  · intro h
    refine .ask (show _ = ({ new collection opts with state := .pendingLoad }, _) from rfl) ?_
    refine .ask (show _ = (awaitingEnumerate collection opts loaded, _) from rfl) ?_
    have hr : (awaitingEnumerate collection opts loaded).resume (some (.enumerate snapshot)) =
        ((awaitingEnumerate collection opts loaded).openMerge snapshot).mergeStep := rfl
    exact Coroutine.Ends.runs (by rw [hr]; exact h)

/-- Runs abreast, the same asked of their drivers, end alike. -/
theorem ends_abreast {x y : ReplicaSync × Step} (h : x.2 = y.2 ∧ Abreast x.1 y.1) {t : Transcript}
    {r : Except ReplicaArgError ReplicaSyncReport} (hx : Coroutine.Ends resume x t r) :
    Coroutine.Ends resume y t r := by
  obtain ⟨a, s⟩ := x
  obtain ⟨b, s'⟩ := y
  obtain ⟨hstep, habreast⟩ := h
  dsimp only at hstep habreast
  subst hstep
  cases s with
  | complete r' => exact hx
  | yielded y =>
    obtain ⟨arg, u, ht, hruns⟩ := hx
    exact ⟨arg, u, ht, hruns.simulate resume_abreast habreast⟩

/-- The complete snapshot a delta stands for, listed in full. -/
def expanded (rows : HandleMap ReplicaPlacement) (delta : ReplicaRemoteSnapshot) :
    ReplicaRemoteSnapshot where
  items := delta.items.filter (fun i => i.handle ∉ delta.vanished) ++
    rows.toList.filterMap (fun e =>
      if e.1 ∈ delta.vanished ∨ (delta.reported e.1).isSome then none else Merge.standIn e.1 e.2)
  vanished := []
  complete := true
  checkpoint := delta.checkpoint

theorem expanded_completes (rows : HandleMap ReplicaPlacement) (delta : ReplicaRemoteSnapshot) :
    Completes rows delta (expanded rows delta) := by
  refine ⟨rfl, rfl, fun h => ?_⟩
  have hlisted : (delta.items.filter (fun i => i.handle ∉ delta.vanished)).find?
      (fun i => i.handle = h) = if h ∈ delta.vanished then none else delta.reported h := by
    rw [List.find?_filter]
    by_cases hv : h ∈ delta.vanished
    · rw [if_pos hv, List.find?_eq_none]
      intro i _
      simp only [decide_not, Bool.not_eq_true', decide_eq_false_iff_not,
        decide_eq_true_eq, not_and]
      rintro hi rfl
      exact hi hv
    · rw [if_neg hv, ReplicaRemoteSnapshot.reported]
      congr 1
      funext i
      by_cases hi : i.handle = h
      · simp [hi, hv]
      · simp [hi]
  have hstood : (rows.toList.filterMap (fun e =>
      if e.1 ∈ delta.vanished ∨ (delta.reported e.1).isSome then none
      else Merge.standIn e.1 e.2)).find? (fun i => i.handle = h) =
        if h ∈ delta.vanished ∨ (delta.reported h).isSome then none
        else rows[h]?.bind (Merge.standIn h) := by
    rw [List.find?_filterMap]
    have hhandle : ∀ (g : ReplicaHandle) (p : ReplicaPlacement) (i : ReplicaRemoteItem),
        Merge.standIn g p = some i → i.handle = g := by
      intro g p i hi
      obtain ⟨base, -, rfl⟩ := Option.map_eq_some_iff.mp hi
      rfl
    generalize hf : rows.toList.find? _ = found
    cases found with
    | some e =>
      have hany := List.find?_some hf
      obtain ⟨i, hi, hih⟩ := (Option.any_eq_true _ _).mp hany
      split at hi
      · cases hi
      · rename_i hout
        have he : e.1 = h := (hhandle _ _ _ hi).symm.trans (of_decide_eq_true hih)
        have hget := (OrderedMap.mem_toList_iff rows e.1 e.2).mp (List.mem_of_find?_eq_some hf)
        rw [he] at hget hout
        rw [Option.bind_some, he, if_neg hout, if_neg hout, hget]
        rfl
    | none =>
      by_cases hout : h ∈ delta.vanished ∨ (delta.reported h).isSome
      · rw [if_pos hout]
        rfl
      · rw [if_neg hout]
        cases hp : rows[h]? with
        | none => rfl
        | some p =>
          have hno := List.find?_eq_none.mp hf (h, p) ((OrderedMap.mem_toList_iff _ _ _).mpr hp)
          cases hi : Merge.standIn h p with
          | none => simp [hi]
          | some i => simp [hout, hi, hhandle h p i hi] at hno
  rw [ReplicaRemoteSnapshot.reported, expanded, List.find?_append, hlisted, hstood]
  by_cases hv : h ∈ delta.vanished
  · simp [hv]
  · cases hi : delta.reported h <;> simp [hv]

/-- A delta run asks, writes and reports what the run over the snapshot it stands for does, given
the same answers. -/
theorem delta_run_iff {loaded : ReplicaLoaded} {delta full : ReplicaRemoteSnapshot}
    (hdelta : delta.complete = false)
    (hfull : Completes (collectPlacements loaded.placements) delta full)
    (hrows : ∀ (h : ReplicaHandle) (p : ReplicaPlacement),
      (collectPlacements loaded.placements)[h]? = some p → Settled p)
    (collection : ReplicaCollectionId) (opts : ReplicaSyncOptions) (rest : Transcript)
    (r : Except ReplicaArgError ReplicaSyncReport) :
    Coroutine.Runs resume (new collection opts) none
        (enumerated collection opts loaded delta rest) r ↔
      Coroutine.Runs resume (new collection opts) none
        (enumerated collection opts loaded full rest) r := by
  have halike := candidates_alike hdelta hfull hrows collection opts
  let self : ReplicaSync := { awaitingEnumerate collection opts loaded with loc := ∅ }
  have hroom : self.writes.length < WRITE_CHUNK := Nat.zero_lt_of_ne_zero (by decide)
  have hforth := mergeStep_abreast (m := Merge.between (collectPlacements loaded.placements) delta)
    (n := Merge.between (collectPlacements loaded.placements) full) hroom hfull.checkpoint.symm halike
    (fun c hc => mergedCandidates_paired hc)
  have hback := mergeStep_abreast (m := Merge.between (collectPlacements loaded.placements) full)
    (n := Merge.between (collectPlacements loaded.placements) delta) hroom hfull.checkpoint
    halike.symm (fun c hc => mergedCandidates_paired hc)
  have hopen : ∀ snapshot, (awaitingEnumerate collection opts loaded).openMerge snapshot =
      self.mergingAt (Merge.between (collectPlacements loaded.placements) snapshot) := fun _ => rfl
  rw [runs_enumerated, runs_enumerated, hopen, hopen]
  exact ⟨ends_abreast hforth, ends_abreast hback⟩

end ReplicaSync

/-- An edited card no delta mentions is merged as the full listing of its base would merge it. -/
theorem card_delta_expanded : ∃ rest r,
    Coroutine.Runs ReplicaSync.resume (ReplicaSync.new ⟨"contacts"⟩ .default) none
      (enumerated ⟨"contacts"⟩ .default
        ⟨(CollectionRows.empty.write (.upsertPlacement StagedEdit.card)).placements, none⟩
        (ReplicaSync.expanded
          (collectPlacements
            (CollectionRows.empty.write (.upsertPlacement StagedEdit.card)).placements)
          ⟨[], [], false, ⟨[1]⟩⟩) rest) r := by
  let s := Seam.single StagedEdit.card ⟨[], [], false, ⟨[1]⟩⟩ []
  obtain ⟨fuel, s', t, hd⟩ := s.sync_total ⟨"contacts"⟩ .default
  obtain ⟨⟨rest, report, rfl, hruns⟩, -⟩ := Seam.sync_syncs hd
  refine ⟨rest, .ok report, (@ReplicaSync.delta_run_iff _ ⟨[], [], false, ⟨[1]⟩⟩ _ rfl
    (ReplicaSync.expanded_completes _ _) ?_ ⟨"contacts"⟩ .default rest (.ok report)).mp hruns⟩
  intro h p hp
  rw [CollectionRows.collect_placements, CollectionRows.get_single] at hp
  split at hp
  · cases hp
    exact fun hclean => by cases hclean
  · cases hp

end IoReplica

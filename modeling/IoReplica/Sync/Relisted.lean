import IoReplica.Sync.Seam

/-! A snapshot listed in another order, or with its repeats left out: the run over it is the same. -/
namespace IoReplica

/-- The items in another order, those of one handle in the order they had. -/
structure Reordered (items items' : List ReplicaRemoteItem) : Prop where
  perm : items'.Perm items
  order : ∀ h : ReplicaHandle,
    items'.filter (fun i => i.handle = h) = items.filter (fun i => i.handle = h)

/-- The items in handle order, each handle's first one alone. -/
structure Collapsed (items items' : List ReplicaRemoteItem) : Prop where
  ascending : items'.Pairwise (fun a b => a.handle < b.handle)
  first : ∀ h : ReplicaHandle,
    items'.find? (fun i => i.handle = h) = items.find? (fun i => i.handle = h)

theorem exists_collapsed (items : List ReplicaRemoteItem) : ∃ items', Collapsed items items' :=
  ⟨_, Listing.collapse_pairwise _ items, fun h => Listing.find_collapse _ h items⟩

theorem Reordered.first {items items' : List ReplicaRemoteItem} (hr : Reordered items items')
    (h : ReplicaHandle) :
    items'.find? (fun i => i.handle = h) = items.find? (fun i => i.handle = h) := by
  rw [← List.head?_filter, hr.order, List.head?_filter]

/-- A completed sync run with what it reports. -/
def Reports (collection : ReplicaCollectionId) (opts : ReplicaSyncOptions) (loaded : ReplicaLoaded)
    (snapshot : ReplicaRemoteSnapshot) (t : Transcript) (report : ReplicaSyncReport) : Prop :=
  ∃ rest, t = (.wantsLoad collection .all, .load loaded) ::
      (.wantsEnumerate collection (if opts.full then none else loaded.checkpoint),
        .enumerate snapshot) :: rest ∧
    Coroutine.Runs ReplicaSync.resume (ReplicaSync.new collection opts) none t (.ok report)

namespace ReplicaSync

/-- A run past its enumeration: it asks for pushes and writes, and is over once it asks no more. -/
def Asking : ReplicaSync × Step → Prop
  | (self, .yielded (.wantsPush ..)) => self.state = .pendingPush
  | (self, .yielded (.wantsWrite _)) => self.state = .pendingWrite ∨ self.state = .merging
  | (_, .yielded _) => False
  | (_, .complete _) => True

theorem step_asking (self : ReplicaSync) : Asking self.step := by
  by_cases hp : self.pushes = []
  · rw [step_last _ hp]
    exact Or.inl rfl
  · rw [step_chunk hp]
    exact rfl

theorem closeMerge_asking (self : ReplicaSync) : Asking self.closeMerge := by
  simp only [closeMerge]
  split
  · exact step_asking _
  · exact step_asking _

theorem mergeLoop_asking (fuel : ℕ) (self : ReplicaSync) : Asking (self.mergeLoop fuel) := by
  induction fuel generalizing self with
  | zero => exact closeMerge_asking self
  | succ fuel ih =>
    simp only [mergeLoop]
    split
    · exact closeMerge_asking self
    · split
      · exact Or.inr (batch_kept _).1
      · exact ih _

/-- An answer in kind keeps a run asking. -/
theorem resume_asking {self : ReplicaSync} {y : ReplicaYield} (hy : Asking (self, .yielded y))
    (b : ReplicaArg) : Asking (self.resume (some b)) := by
  cases y with
  | wantsEnumerate | wantsFetch | wantsLoad | wantsLookupObject => exact absurd hy id
  | wantsPush c changes =>
    have hs : self.state = .pendingPush := hy
    cases b with
    | push results =>
      simp only [resume, hs]
      exact Or.inl (batch_kept _).1
    | enumerate | fetch | write | load | lookupObject =>
      simp only [resume, hs]
      trivial
  | wantsWrite ops =>
    rcases hy with hs | hs
    · cases b with
      | write =>
        simp only [resume, hs]
        split
        · trivial
        · exact step_asking self
      | enumerate | fetch | push | load | lookupObject =>
        simp only [resume, hs]
        trivial
    · cases b with
      | write =>
        simp only [resume, hs]
        exact mergeLoop_asking _ _
      | enumerate | fetch | push | load | lookupObject =>
        simp only [resume, hs]
        trivial

/-- What completes a run answers its requests in kind. -/
theorem answered {self : ReplicaSync} {y : ReplicaYield} (hy : Asking (self, .yielded y))
    {b : ReplicaArg} {t : Transcript} {report : ReplicaSyncReport}
    (h : Coroutine.Runs resume self (some b) t (.ok report)) :
    (∃ c changes results, y = .wantsPush c changes ∧ b = .push results) ∨
      ∃ ops, y = .wantsWrite ops ∧ b = .write := by
  cases y with
  | wantsEnumerate | wantsFetch | wantsLoad | wantsLookupObject => exact absurd hy id
  | wantsPush c changes =>
    obtain ⟨results, rfl, -⟩ := ends_pushed h hy
    exact Or.inl ⟨c, changes, results, rfl, rfl⟩
  | wantsWrite ops =>
    have hends := h.ends
    refine Or.inr ⟨ops, rfl, ?_⟩
    cases b with
    | write => rfl
    | enumerate | fetch | push | load | lookupObject =>
      rcases hy with hs | hs
      · simp only [resume, hs] at hends
        exact absurd hends.2 (by simp)
      · simp only [resume, hs] at hends
        exact absurd hends.2 (by simp)

/-- Past its enumeration, a completed run is what its push results make of it. -/
theorem Asking.unique {out : ReplicaSync × Step} (hout : Asking out) {t u : Transcript}
    {report report' : ReplicaSyncReport} (ht : Ends out t (.ok report)) (hu : Ends out u (.ok report'))
    (hreplies : t.pushes.map (·.2) = u.pushes.map (·.2)) : t = u ∧ report = report' := by
  induction t generalizing out u with
  | nil =>
    obtain ⟨self, step⟩ := out
    cases step with
    | yielded y =>
      obtain ⟨b, v, heq, -⟩ := ht
      cases heq
    | complete r =>
      obtain ⟨-, rfl⟩ := ht
      obtain ⟨rfl, heq⟩ := hu
      cases heq
      exact ⟨rfl, rfl⟩
  | cons e t ih =>
    obtain ⟨self, step⟩ := out
    cases step with
    | complete r => cases ht.1
    | yielded y =>
      obtain ⟨b, t', heq, hruns⟩ := ht
      cases heq
      obtain ⟨b', u', rfl, hruns'⟩ := hu
      have hsame : b = b' ∧
          (Transcript.pushes t).map (·.2) = (Transcript.pushes u').map (·.2) := by
        rcases answered hout hruns with ⟨c, changes, results, rfl, rfl⟩ | ⟨ops, rfl, rfl⟩
        · obtain ⟨results', rfl, -⟩ := ends_pushed hruns' hout
          have hheads : results :: (Transcript.pushes t).map (·.2) =
              results' :: (Transcript.pushes u').map (·.2) := hreplies
          exact ⟨congrArg _ (List.cons.inj hheads).1, (List.cons.inj hheads).2⟩
        · rcases answered hout hruns' with ⟨c, changes, results, heq, -⟩ | ⟨ops', -, rfl⟩
          · cases heq
          · exact ⟨rfl, hreplies⟩
      obtain ⟨rfl, hrest⟩ := hsame
      obtain ⟨rfl, rfl⟩ := ih (resume_asking hout b) hruns.ends hruns'.ends hrest
      exact ⟨rfl, rfl⟩

/-- The merge opened over a snapshot is what the snapshot lists first of each handle. -/
theorem openMerge_congr (self : ReplicaSync) (snapshot : ReplicaRemoteSnapshot)
    {items' : List ReplicaRemoteItem} (h : ∀ h : ReplicaHandle,
      items'.find? (fun i => i.handle = h) = snapshot.items.find? (fun i => i.handle = h)) :
    self.openMerge { snapshot with items := items' } = self.openMerge snapshot := by
  have hordered : orderItems items' = orderItems snapshot.items := by
    rw [orderItems_eq_collapse, orderItems_eq_collapse]
    exact Listing.collapse_congr (fun i : ReplicaRemoteItem => i.handle) h
  simp only [openMerge, hordered]

end ReplicaSync

open ReplicaSync

/-- A run is its enumeration's, with the rest to go. -/
theorem Reports.ends {collection : ReplicaCollectionId} {opts : ReplicaSyncOptions}
    {loaded : ReplicaLoaded} {snapshot : ReplicaRemoteSnapshot} {t : Transcript}
    {report : ReplicaSyncReport} : Reports collection opts loaded snapshot t report ↔
      ∃ rest, t = (.wantsLoad collection .all, .load loaded) ::
        (.wantsEnumerate collection (if opts.full then none else loaded.checkpoint),
          .enumerate snapshot) :: rest ∧
        Ends (({ new collection opts with
          loc := collectPlacements loaded.placements
          checkpoint := if opts.full then none else loaded.checkpoint
          state := .pendingEnumerate } : ReplicaSync).openMerge snapshot).mergeStep rest
          (.ok report) := by
  constructor
  · rintro ⟨rest, rfl, hruns⟩
    obtain ⟨b, u, hload, hruns⟩ := hruns.ends
    cases hload
    obtain ⟨b', u', henumerate, hruns⟩ := hruns.ends
    cases henumerate
    exact ⟨rest, rfl, hruns.ends⟩
  · rintro ⟨rest, rfl, hends⟩
    exact ⟨rest, rfl, .ask rfl (.ask rfl (Coroutine.Ends.runs hends))⟩

/-- An enumeration out of order, or listing a handle again, costs nothing: whatever is stored, the run
over it in any order that keeps each handle's own, and over the first of each handle in handle order,
pushes the same chunks, writes the same batches and reports the same for the same push results. -/
theorem relisting_costs_nothing (collection : ReplicaCollectionId) (opts : ReplicaSyncOptions)
    (loaded : ReplicaLoaded) (snapshot : ReplicaRemoteSnapshot) :
    (∃ items', Collapsed snapshot.items items') ∧
      ∀ items', Reordered snapshot.items items' ∨ Collapsed snapshot.items items' →
        (∀ t report, Reports collection opts loaded snapshot t report →
          ∃ u, Reports collection opts loaded { snapshot with items := items' } u report ∧
            u.pushes = t.pushes ∧ u.batches = t.batches) ∧
        ∀ t report u report', Reports collection opts loaded snapshot t report →
          Reports collection opts loaded { snapshot with items := items' } u report' →
          u.pushes.map (·.2) = t.pushes.map (·.2) →
            u.pushes.map (·.1) = t.pushes.map (·.1) ∧ u.batches = t.batches ∧ report' = report := by
  refine ⟨exists_collapsed snapshot.items, fun items' h => ?_⟩
  have hfirst : ∀ h : ReplicaHandle, items'.find? (fun i => i.handle = h) =
      snapshot.items.find? (fun i => i.handle = h) := by
    rcases h with h | h
    · exact h.first
    · exact h.first
  constructor
  · intro t report ht
    obtain ⟨rest, rfl, hends⟩ := Reports.ends.mp ht
    rw [← openMerge_congr _ snapshot hfirst] at hends
    exact ⟨_, Reports.ends.mpr ⟨rest, rfl, hends⟩, rfl, rfl⟩
  · intro t report u report' ht hu hreplies
    obtain ⟨rest, rfl, hends⟩ := Reports.ends.mp ht
    obtain ⟨rest', rfl, hends'⟩ := Reports.ends.mp hu
    rw [openMerge_congr _ snapshot hfirst] at hends'
    obtain ⟨rfl, rfl⟩ := Asking.unique (mergeLoop_asking _ _) hends' hends hreplies
    exact ⟨rfl, rfl, rfl⟩

/-- A contact listed ahead of its turn, and listed again at another revision. -/
def shuffled : ReplicaRemoteSnapshot :=
  ⟨[⟨⟨"2"⟩, .empty, some "new"⟩, ⟨⟨"1"⟩, .empty, none⟩, ⟨⟨"2"⟩, .empty, some "old"⟩], [], true, ⟨[]⟩⟩

theorem shuffled_alike : ∃ t u report,
    Reports ⟨"contacts"⟩ .default ⟨[], none⟩ shuffled t report ∧
    Reports ⟨"contacts"⟩ .default ⟨[], none⟩
      { shuffled with items := [⟨⟨"1"⟩, .empty, none⟩, ⟨⟨"2"⟩, .empty, some "new"⟩] } u report ∧
    u.batches = t.batches := by
  obtain ⟨t, rest, report, ht, hruns⟩ := exists_syncs ⟨"contacts"⟩ .default ⟨[], none⟩ shuffled
  have hlt : (⟨"1"⟩ : ReplicaHandle) < ⟨"2"⟩ := by decide
  have hcollapsed : Collapsed shuffled.items
      [⟨⟨"1"⟩, .empty, none⟩, ⟨⟨"2"⟩, .empty, some "new"⟩] := by
    refine ⟨by simpa using hlt, fun h => ?_⟩
    by_cases h1 : (⟨"1"⟩ : ReplicaHandle) = h
    · subst h1
      decide
    · by_cases h2 : (⟨"2"⟩ : ReplicaHandle) = h
      · subst h2
        decide
      · simp [shuffled, h1, h2]
  obtain ⟨u, hu, -, hbatches⟩ := ((relisting_costs_nothing ⟨"contacts"⟩ .default ⟨[], none⟩
    shuffled).2 _ (Or.inr hcollapsed)).1 t report ⟨rest, ht, hruns⟩
  exact ⟨t, u, report, ⟨rest, ht, hruns⟩, hu, hbatches⟩

end IoReplica

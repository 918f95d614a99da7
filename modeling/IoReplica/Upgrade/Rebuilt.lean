import IoReplica.Completed
import IoReplica.Upgrade.Kept
import IoReplica.Upgrade.Minted

/-! A collection hydrated from no links at all, in batches of any kind and order: the link ids its
rows come to. -/
namespace IoReplica
namespace ReplicaUpgrade

/-- The exchanges an upgrade has left at most. -/
def remaining (self : ReplicaUpgrade) : ℕ :=
  match self.state with
  | .start => 6
  | .pendingLoad => 5
  | .pendingLookup => 4
  | .pendingFetch => 3
  | .pendingLinkCheck => 2
  | .pendingWrite => 1
  | .done => 0

variable {known : LinkMap ReplicaHash}
  {remote : List ReplicaHandle → ReplicaTier → List ReplicaFetchedItem}

theorem writeFetched_yields {self self' : ReplicaUpgrade} {y : ReplicaYield}
    (h : self.writeFetched = (self', .yielded y)) :
    self'.state = .pendingWrite ∧ ∃ ops, y = .wantsWrite ops := by
  simp only [writeFetched, yieldWrite, Prod.mk.injEq, Coroutine.Step.yielded.injEq] at h
  obtain ⟨rfl, rfl⟩ := h
  exact ⟨rfl, _, rfl⟩

/-- A serviced upgrade is handed what it waits for, and asks ever less. -/
theorem exactly_awaited {self self' : ReplicaUpgrade} {a : Option ReplicaArg} {y : ReplicaYield}
    (hyields : self.resume a = (self', .yielded y)) (s : CollectionRows) :
    self'.Awaits (some (exactly known remote s y).2) ∧ self'.remaining < self.remaining := by
  simp only [resume] at hyields
  split at hyields
  case h_1 hstate =>
    cases hyields
    simp [Awaits, exactly, remaining, hstate]
  case h_2 loaded hstate =>
    split at hyields
    · cases hyields
    · split at hyields
      · cases hyields
        simp [Awaits, exactly, remaining, hstate]
      · split at hyields
        · cases hyields
          simp [Awaits, exactly, remaining, hstate]
        · cases hyields
          simp [Awaits, exactly, remaining, hstate]
  case h_3 known' hstate =>
    split at hyields
    · cases hyields
      simp [Awaits, exactly, remaining, hstate]
    · cases hyields
      simp [Awaits, exactly, remaining, hstate]
  case h_4 items hstate =>
    split at hyields
    · obtain ⟨hnext, ops, rfl⟩ := writeFetched_yields hyields
      simp [Awaits, exactly, remaining, hstate, hnext]
    · cases hyields
      simp [Awaits, exactly, remaining, hstate]
  case h_5 loaded hstate =>
    obtain ⟨hnext, ops, rfl⟩ := writeFetched_yields hyields
    simp [Awaits, exactly, remaining, hstate, hnext]
  all_goals cases hyields

/-- Handed what it waits for, an upgrade completes without an error. -/
theorem awaited_ok {self self' : ReplicaUpgrade} {a : Option ReplicaArg}
    {r : Except ReplicaArgError ReplicaUpgradeReport} (ha : self.Awaits a)
    (hdone : self.resume a = (self', .complete r)) : ∃ report, r = .ok report := by
  cases r with
  | ok report => exact ⟨report, rfl⟩
  | error e =>
    cases e with
    | unexpectedArg => exact absurd (congrArg Prod.snd hdone) (resume_awaited ha)
    | missingArg =>
      cases a with
      | none => cases hs : self.state <;> simp [Awaits, resume, hs] at ha hdone
      | some arg =>
        simp only [resume] at hdone
        split at hdone
        case h_2 =>
          split at hdone
          · cases hdone
          · split at hdone
            · cases hdone
            · split at hdone <;> cases hdone
        case h_3 => split at hdone <;> cases hdone
        case h_4 => split at hdone <;> cases hdone
        case h_8 hnone _ => cases hnone
        all_goals cases hdone

/-- Every upgrade serviced by an exact storage and a remote completes. -/
theorem exactRun_total (known : LinkMap ReplicaHash)
    (remote : List ReplicaHandle → ReplicaTier → List ReplicaFetchedItem)
    (collection : ReplicaCollectionId) (handles : List ReplicaHandle) (tier : ReplicaTier)
    (s : CollectionRows) :
    ∃ fuel s' t, exactRun fuel known remote collection handles tier s = some (s', t) := by
  obtain ⟨fuel, s', t, r, hd, report, rfl⟩ := @Coroutine.drive_total _ _ _ _ _
    resume (exactly known remote) _ _ _ (fun self a => self.Awaits a) (fun self _ => self.remaining)
    (fun r => ∃ report, r = .ok report) (fun c c' a y _ hy s => exactly_awaited hy s)
    (fun c c' a r ha hdone => awaited_ok ha hdone) (new collection handles tier) none s trivial
  refine ⟨fuel, s', t, ?_⟩
  rw [exactRun, hd]

/-- An upgrade that completes on its first load wants nothing. -/
theorem Holding.idle {self self' : ReplicaUpgrade} {a : Option ReplicaArg}
    {r : Except ReplicaArgError ReplicaUpgradeReport} {report : ReplicaUpgradeReport}
    {m : HandleMap ReplicaPlacement} (h : Holding self a m) (hr : r = .ok report)
    (hdone : self.resume a = (self', .complete r)) : self.wanted m = [] := by
  subst hr
  simp only [resume] at hdone
  split at hdone
  case h_2 loaded hstate =>
    obtain ⟨-, loaded', heq, hplaced⟩ := h.resolve_left (by simp [hstate])
    cases heq
    split at hdone
    · rename_i hempty
      rw [wanted, ← hplaced]
      exact List.isEmpty_iff.mp hempty
    · split at hdone
      · cases hdone
      · split at hdone <;> cases hdone
  case h_3 => split at hdone <;> cases hdone
  case h_4 hstate | h_6 hstate => simp [Holding, hstate] at h
  all_goals cases hdone

/-- From its first load on, a run fetches the wanted rows without a link, and no unwanted one. -/
theorem runs_fetched {self : ReplicaUpgrade} {a : Option ReplicaArg} {t : Transcript}
    {report : ReplicaUpgradeReport} {m : HandleMap ReplicaPlacement}
    (h : Coroutine.Runs resume self a t (.ok report)) (hholds : Holding self a m) :
    ∃ hs, AsksFor self m hs ∧ (hs = [] ∧ t.fetched = [] ∨ ∃ items,
      (.wantsFetch self.collection hs self.tier, .fetch items) ∈ t ∧ t.fetched = items) := by
  generalize hr : (Except.ok report : Except ReplicaArgError ReplicaUpgradeReport) = r at h
  induction h with
  | done completes =>
    refine ⟨[], ⟨List.nil_sublist _, ?_⟩, Or.inl ⟨rfl, rfl⟩⟩
    rw [hholds.idle hr.symm completes]
    exact fun h hh => by cases hh
  | @ask c c' a y b t r yields hrest ih =>
    subst hr
    have hcollection := (resume_asks yields).2.1
    rcases hholds.next yields with ⟨links, rfl, hnext, hplaced, hhandles, htier⟩ |
      ⟨hs, rfl, hnext, hplaced, hasks⟩ | ⟨ops, rfl, hnext, hasks⟩
    · have hends := hrest.ends
      obtain ⟨known, rfl⟩ : ∃ known, b = .lookupObject known := by
        cases b with
        | lookupObject known => exact ⟨known, rfl⟩
        | load | enumerate | push | write | fetch =>
          simp [resume, hnext, Coroutine.Ends] at hends
      obtain ⟨hs, hasks, hcases⟩ := ih (Or.inl ⟨hnext, hplaced⟩) rfl
      rw [hcollection, htier] at hcases
      refine ⟨hs, ?_, ?_⟩
      · rw [AsksFor, wanted, hhandles, htier] at hasks
        exact hasks
      · rcases hcases with hnone | ⟨items, hmem, hfetched⟩
        · exact Or.inl hnone
        · exact Or.inr ⟨items, List.mem_cons_of_mem _ hmem, hfetched⟩
    · obtain ⟨items, rfl, hnone, -⟩ := fetch_checks hnext hrest
      refine ⟨hs, hasks, Or.inr ⟨items, List.mem_cons_self, ?_⟩⟩
      rw [Transcript.fetched, List.flatMap_cons, ← Transcript.fetched, hnone, List.append_nil]
    · have hends := hrest.ends
      have hnil : t = [] := by
        cases hrest with
        | done => rfl
        | ask yields' _ => exact absurd hnext (resume_asks yields').1
      subst hnil
      refine ⟨[], hasks, Or.inl ⟨rfl, ?_⟩⟩
      cases b with
      | write => rfl
      | load | enumerate | push | fetch | lookupObject =>
        simp [resume, hnext, Coroutine.Ends] at hends

end ReplicaUpgrade

open ReplicaUpgrade

/-- A completed upgrade fetches the rows it raises that have no link, and no row it does not raise. -/
theorem Upgrades.fetches {collection : ReplicaCollectionId} {handles : List ReplicaHandle}
    {tier : ReplicaTier} {loaded : ReplicaLoaded} {t : Transcript}
    (h : Upgrades collection handles tier loaded t) : ∃ hs, hs.Sublist (asked handles tier loaded) ∧
      (∀ g ∈ asked handles tier loaded,
        (collectPlacements loaded.placements)[g]?.any (·.linkId.isNone) = true → g ∈ hs) ∧
      (hs = [] ∧ t.fetched = [] ∨ ∃ items,
        (.wantsFetch collection hs tier, .fetch items) ∈ t ∧ t.fetched = items) := by
  obtain ⟨rest, report, ht, hruns⟩ := h
  rw [ht] at hruns
  obtain ⟨b, u, hload, hruns⟩ := hruns.ends
  cases hload
  obtain ⟨hs, hasks, hcases⟩ := runs_fetched hruns (Or.inr ⟨rfl, loaded, rfl, rfl⟩)
  refine ⟨hs, hasks.1, hasks.2, ?_⟩
  rw [ht]
  rcases hcases with hnone | ⟨items, hmem, hfetched⟩
  · exact Or.inl hnone
  · exact Or.inr ⟨items, List.mem_cons_of_mem _ hmem, hfetched⟩

/-- Every fetch is answered for the handles it asks for, each resolved to its hint. -/
def Resolves (hint : ReplicaHandle → ReplicaLinkId) (t : Transcript) : Prop :=
  ∀ (collection : ReplicaCollectionId) (hs : List ReplicaHandle) (tier : ReplicaTier)
    (a : ReplicaArg), (.wantsFetch collection hs tier, a) ∈ t → ∃ items, a = .fetch items ∧
      (items.map (·.handle)).Perm hs ∧ ∀ item ∈ items, item.linkId = hint item.handle

/-- An upgrade of the row gives it a link. -/
def ReplicaUpgrade.linkable (tier : ReplicaTier) (p : ReplicaPlacement) : Bool :=
  pending tier p && fresh tier p

def CollectionRows.linkAt (s : CollectionRows) (h : ReplicaHandle) : Option ReplicaLinkId :=
  s.rows[h]?.bind (·.linkId)

/-- The collection hydrated batch by batch: every handle in one batch, each batch over what the last
one left. -/
structure Hydration (hint : ReplicaHandle → ReplicaLinkId) (tierOf : ReplicaHandle → ReplicaTier)
    (collection : ReplicaCollectionId) (n : ℕ) (rows : ℕ → CollectionRows)
    (steps : ℕ → UpgradeStep) : Prop where
  sequence : UpgradeSequence collection n rows steps
  exactly : ∀ i < n, ServesExactly (rows i) (steps i).transcript
  resolves : ∀ i < n, Resolves hint (steps i).transcript
  tiers : ∀ i < n, ∀ h ∈ (steps i).handles, (steps i).tier = tierOf h
  batches : ((List.range n).flatMap (fun i => (steps i).handles)).Perm
    ((rows 0).placements.map (·.handle))

/-- However the collection is cut into batches, and in whatever order these run, its rows come to the
same links. -/
def MintsAlike (hint : ReplicaHandle → ReplicaLinkId) (tierOf : ReplicaHandle → ReplicaTier)
    (collection : ReplicaCollectionId) (s : CollectionRows) : Prop :=
  ∀ n rows steps n' rows' steps', Hydration hint tierOf collection n rows steps → rows 0 = s →
    Hydration hint tierOf collection n' rows' steps' → rows' 0 = s →
      ∀ h, (rows n).linkAt h = (rows' n').linkAt h

/-- No two rows an upgrade would link share a hint. -/
def HintsApart (hint : ReplicaHandle → ReplicaLinkId) (tierOf : ReplicaHandle → ReplicaTier)
    (s : CollectionRows) : Prop :=
  ∀ p q : ReplicaPlacement, s.rows[p.handle]? = some p → s.rows[q.handle]? = some q →
    linkable (tierOf p.handle) p = true → linkable (tierOf q.handle) q = true →
      hint p.handle = hint q.handle → p.handle = q.handle

namespace Upgrades

variable {collection : ReplicaCollectionId} {handles : List ReplicaHandle} {tier : ReplicaTier}
  {loaded : ReplicaLoaded} {t : Transcript} {s : CollectionRows}
  {hint : ReplicaHandle → ReplicaLinkId}

/-- An upgrade whose fetch is answered as asked is fetched each handle once, of those it names. -/
theorem resolved (h : Upgrades collection handles tier loaded t) (hr : Resolves hint t)
    (hnodup : handles.Nodup) : (t.fetched.map (·.handle)).Nodup ∧
      (∀ item ∈ t.fetched, item.handle ∈ asked handles tier loaded ∧
        item.linkId = hint item.handle) ∧
      ∀ g ∈ asked handles tier loaded,
        (collectPlacements loaded.placements)[g]?.any (·.linkId.isNone) = true →
          ∃ item ∈ t.fetched, item.handle = g := by
  obtain ⟨hs, hsub, hall, hcases⟩ := h.fetches
  have hsnodup : hs.Nodup := (hnodup.sublist List.filter_sublist).sublist hsub
  rcases hcases with ⟨rfl, hnone⟩ | ⟨items, hmem, hfetched⟩
  · rw [hnone]
    refine ⟨List.nodup_nil, fun _ hi => (by cases hi), fun g hg hunlinked => ?_⟩
    exact absurd (hall g hg hunlinked) List.not_mem_nil
  · obtain ⟨items', heq, hperm, hhints⟩ := hr _ _ _ _ hmem
    cases heq
    rw [hfetched]
    refine ⟨hperm.nodup_iff.mpr hsnodup, ?_, ?_⟩
    · intro item hi
      exact ⟨hsub.subset (hperm.mem_iff.mp (List.mem_map_of_mem hi)), hhints item hi⟩
    · intro g hg hunlinked
      exact List.mem_map.mp (hperm.mem_iff.mpr (hall g hg hunlinked))

/-- A row the upgrade does not name is left alone. -/
theorem unnamed (h : Upgrades collection handles tier loaded t) (hs : Serves s t)
    (hr : Resolves hint t) (hnodup : handles.Nodup) {g : ReplicaHandle} (hg : g ∉ handles) :
    (s.apply t.writes).rows[g]? = s.rows[g]? := by
  obtain ⟨-, hfetched, -⟩ := h.resolved hr hnodup
  rw [CollectionRows.get_apply]
  apply rowAfter_of_ne
  intro op hop heq
  rcases h.sources hs hop with ⟨p, -, hash, hhit, rfl⟩ | ⟨item, hi, p, -, hh, -, hrow⟩
  · have hpg : p.handle = g := Option.some.inj heq
    exact hg (hpg ▸ (of_hit hhit).1)
  · cases hrow with
    | object => cases heq
    | row q written =>
      have hgi : item.handle = g :=
        hh.symm.trans (written.handle.symm.trans (Option.some.inj heq))
      have hasked := (hfetched item hi).1
      rw [hgi] at hasked
      exact hg (List.mem_filter.mp hasked).1

/-- The claimants of an upgrade answered as asked: each of them a row it links, under its hint. -/
theorem claimants_resolved (h : Upgrades collection handles tier loaded t) (hs : Serves s t)
    (hexact : ServesExactly s t) (hr : Resolves hint t) (hnodup : handles.Nodup) :
    ((claimants tier t).map (·.1)).Nodup ∧ ∀ e, e ∈ claimants tier t ↔ e.2 = hint e.1 ∧
      e.1 ∈ handles ∧ s.rows[e.1]?.any (linkable tier) = true := by
  obtain ⟨hapart, hfetched, hall⟩ := h.resolved hr hnodup
  obtain ⟨rest, ht, -⟩ := h.checked
  have hfirst : ∀ p : ReplicaPlacement, p ∈ loaded.placements ↔ s.rows[p.handle]? = some p ∧
      p.handle ∈ handles := by
    intro p
    rw [hexact collection (.handles handles) loaded (ht ▸ List.mem_cons_self) p]
    exact and_congr_right (fun _ => decide_eq_true_iff)
  have hloaded : ∀ p ∈ loaded.placements, p ∈ t.loaded := fun _ hp => h.mem_loaded hp
  obtain ⟨hheld, hget⟩ := held_collect (h.first_served hs)
  refine ⟨?_, ?_⟩
  · have hsorted : ((inOrder t.fetched).map (·.handle)).Nodup :=
      ((List.perm_insertionSort _ _).map _).nodup_iff.mpr hapart
    rw [claimants, List.map_map]
    exact hsorted.sublist (List.filter_sublist.map _)
  · intro e
    constructor
    · intro he
      obtain ⟨item, hitem, rfl⟩ := List.mem_map.mp he
      obtain ⟨hi, hany⟩ := List.mem_filter.mp hitem
      rw [inOrder, List.mem_insertionSort] at hi
      obtain ⟨p, hp, hboth⟩ := List.any_eq_true.mp hany
      simp only [Bool.and_eq_true, decide_eq_true_eq] at hboth
      obtain ⟨hh, hfresh⟩ := hboth
      obtain ⟨hasked, hhint⟩ := hfetched item hi
      obtain ⟨hin, hpending⟩ := List.mem_filter.mp hasked
      refine ⟨hhint, hin, ?_⟩
      have hstored := hs p hp
      rw [hh] at hstored
      obtain ⟨r, hr, hrp⟩ := (Option.any_eq_true _ _).mp hpending
      have hsame := hheld _ _ hr
      rw [hstored, Option.some.injEq] at hsame
      rw [hstored, Option.any_some, linkable, hfresh, hsame, hrp]
      rfl
    · rintro ⟨hhint, hin, hany⟩
      obtain ⟨p, hp, hlinkable⟩ := (Option.any_eq_true _ _).mp hany
      rw [linkable, Bool.and_eq_true] at hlinkable
      have hh : p.handle = e.1 := s.keyed _ _ hp
      rw [← hh] at hp hin
      have hmem := (hfirst p).mpr ⟨hp, hin⟩
      have hcollect := (hget p hp).mpr hmem
      have hasked : p.handle ∈ asked handles tier loaded :=
        List.mem_filter.mpr ⟨hin, by rw [hcollect, Option.any_some, hlinkable.1]⟩
      have hunlinked := (fresh_iff.mp hlinkable.2).1
      obtain ⟨item, hi, hih⟩ := hall p.handle hasked (by rw [hcollect, Option.any_some, hunlinked]; rfl)
      refine List.mem_map.mpr ⟨item, List.mem_filter.mpr ⟨?_, ?_⟩, ?_⟩
      · rw [inOrder, List.mem_insertionSort]
        exact hi
      · refine List.any_eq_true.mpr ⟨p, hloaded p hmem, ?_⟩
        simp [hih, hlinkable.2]
      · rw [(hfetched item hi).2, hih, hh]
        exact Prod.ext rfl hhint.symm

/-- A row the upgrade names and would not link stays without a link; one it would link gets the name
of its claim. -/
theorem named (h : Upgrades collection handles tier loaded t) (hs : Serves s t)
    (hexact : ServesExactly s t) (hr : Resolves hint t) (hnodup : handles.Nodup)
    {p : ReplicaPlacement} (hp : s.rows[p.handle]? = some p) (hin : p.handle ∈ handles)
    (hunlinked : p.linkId = none) :
    (linkable tier p = false → (s.apply t.writes).linkAt p.handle = none) ∧
    (linkable tier p = true → ∃ i l, (claimants tier t)[i]? = some (p.handle, hint p.handle) ∧
      Claims.Gets mint s.Linked (claimants tier t) i l ∧
        (s.apply t.writes).linkAt p.handle = some l) := by
  obtain ⟨-, hclaimants⟩ := h.claimants_resolved hs hexact hr hnodup
  obtain ⟨r, hrow, hafter⟩ := h.link_after hs hexact.checks hp
  have hlink : (s.apply t.writes).linkAt p.handle = r.linkId := by
    rw [CollectionRows.linkAt, hrow, Option.bind_some]
  rw [hlink]
  generalize r.linkId = link at hafter
  constructor
  · intro hlinkable
    cases hafter with
    | kept => exact hunlinked
    | given entry own =>
      have hany := ((hclaimants _).mp (List.mem_of_getElem? entry)).2.2
      rw [own, hp, Option.any_some, hlinkable] at hany
      cases hany
  · intro hlinkable
    cases hafter with
    | kept unnamed =>
      have hmem := (hclaimants (p.handle, hint p.handle)).mpr
        ⟨rfl, hin, by rw [hp, Option.any_some, hlinkable]⟩
      exact absurd rfl (unnamed _ hmem)
    | @given i e l entry own last gets unlinked =>
      have hhint := ((hclaimants e).mp (List.mem_of_getElem? entry)).1
      refine ⟨i, l, ?_, gets, rfl⟩
      rw [entry, ← own]
      exact congrArg some (Prod.ext rfl hhint)

end Upgrades

namespace Hydration

variable {hint : ReplicaHandle → ReplicaLinkId} {tierOf : ReplicaHandle → ReplicaTier}
  {collection : ReplicaCollectionId} {n : ℕ} {rows : ℕ → CollectionRows} {steps : ℕ → UpgradeStep}

theorem handles_nodup (h : Hydration hint tierOf collection n rows steps) :
    ((List.range n).flatMap (fun i => (steps i).handles)).Nodup := by
  rw [h.batches.nodup_iff, List.Nodup, List.pairwise_map]
  exact (rows 0).placements_pairwise

theorem batch_nodup (h : Hydration hint tierOf collection n rows steps) {i : ℕ} (hi : i < n) :
    (steps i).handles.Nodup :=
  (List.nodup_flatMap.mp h.handles_nodup).1 i (List.mem_range.mpr hi)

/-- A handle is in one batch alone. -/
theorem batch_unique (h : Hydration hint tierOf collection n rows steps) {i j : ℕ} (hi : i < n)
    (hj : j < n) {g : ReplicaHandle} (hgi : g ∈ (steps i).handles) (hgj : g ∈ (steps j).handles) :
    i = j := by
  have hdisjoint := (List.nodup_flatMap.mp h.handles_nodup).2
  by_contra hne
  have hsymm : Std.Symm (Function.onFun List.Disjoint (fun i => (steps i).handles)) :=
    ⟨fun _ _ h => h.symm⟩
  exact hdisjoint.forall (List.mem_range.mpr hi) (List.mem_range.mpr hj) hne hgi hgj

/-- Every row of the collection is in some batch. -/
theorem batch_of_row (h : Hydration hint tierOf collection n rows steps) {p : ReplicaPlacement}
    (hp : (rows 0).rows[p.handle]? = some p) : ∃ i < n, p.handle ∈ (steps i).handles := by
  have hmem : p.handle ∈ (rows 0).placements.map (·.handle) :=
    List.mem_map_of_mem (((rows 0).mem_placements p).mpr hp)
  obtain ⟨i, hi, hin⟩ := List.mem_flatMap.mp (h.batches.mem_iff.mpr hmem)
  exact ⟨i, List.mem_range.mp hi, hin⟩

/-- A batch leaves the rows it does not name. -/
theorem step_unnamed (h : Hydration hint tierOf collection n rows steps) {i : ℕ} (hi : i < n)
    {g : ReplicaHandle} (hg : g ∉ (steps i).handles) :
    (rows (i + 1)).rows[g]? = (rows i).rows[g]? := by
  rw [h.sequence.next i hi]
  exact (h.sequence.upgrades i hi).unnamed (h.sequence.serves i hi) (h.resolves i hi)
    (h.batch_nodup hi) hg

/-- Once its batch has run, a row is left alone. -/
theorem row_after (h : Hydration hint tierOf collection n rows steps) {i j : ℕ} (hij : i < j)
    (hj : j ≤ n) {g : ReplicaHandle} (hg : g ∈ (steps i).handles) :
    (rows j).rows[g]? = (rows (i + 1)).rows[g]? := by
  induction j, hij using Nat.le_induction with
  | base => rfl
  | succ j hij ih =>
    have hjn : j < n := hj
    rw [← ih hjn.le]
    apply h.step_unnamed hjn
    intro hgj
    exact absurd (h.batch_unique ((Nat.lt_of_succ_le hij).trans hjn) hjn hg hgj) (by omega)

theorem row_before (h : Hydration hint tierOf collection n rows steps) {i : ℕ} (hi : i ≤ n)
    {g : ReplicaHandle} (hg : ∀ j < i, g ∉ (steps j).handles) :
    (rows i).rows[g]? = (rows 0).rows[g]? := by
  induction i with
  | zero => rfl
  | succ i ih =>
    have hin : i < n := hi
    rw [h.step_unnamed hin (hg i (Nat.lt_succ_self i))]
    exact ih hin.le (fun j hj => hg j (Nat.lt_succ_of_lt hj))

/-- Until its batch runs, a row is as it was. -/
theorem row_at_batch (h : Hydration hint tierOf collection n rows steps) {i : ℕ} (hi : i < n)
    {g : ReplicaHandle} (hg : g ∈ (steps i).handles) :
    (rows i).rows[g]? = (rows 0).rows[g]? := by
  refine h.row_before hi.le ?_
  intro j hj hgj
  exact absurd (h.batch_unique (hj.trans hi) hi hgj hg) (Nat.ne_of_lt hj)

/-- The claimants of a batch: the rows it links, each once and under its hint. -/
theorem claimants_batch (h : Hydration hint tierOf collection n rows steps) {i : ℕ} (hi : i < n) :
    ((claimants (steps i).tier (steps i).transcript).map (·.1)).Nodup ∧
      ∀ e ∈ claimants (steps i).tier (steps i).transcript, e.2 = hint e.1 ∧
        e.1 ∈ (steps i).handles ∧ ∃ p, (rows 0).rows[e.1]? = some p ∧ p.handle = e.1 ∧
          linkable (tierOf p.handle) p = true := by
  obtain ⟨hnodup, hclaimants⟩ := (h.sequence.upgrades i hi).claimants_resolved
    (h.sequence.serves i hi) (h.exactly i hi) (h.resolves i hi) (h.batch_nodup hi)
  refine ⟨hnodup, fun e he => ?_⟩
  obtain ⟨hhint, hin, hany⟩ := (hclaimants e).mp he
  obtain ⟨p, hp, hlinkable⟩ := (Option.any_eq_true _ _).mp hany
  have hh := (rows i).keyed _ _ hp
  rw [h.row_at_batch hi hin] at hp
  refine ⟨hhint, hin, p, hp, hh, ?_⟩
  rw [hh, ← h.tiers i hi e.1 hin]
  exact hlinkable

/-- A handle of a batch is one of the collection. -/
theorem row_of_batch (h : Hydration hint tierOf collection n rows steps) {i : ℕ} (hi : i < n)
    {g : ReplicaHandle} (hg : g ∈ (steps i).handles) :
    ∃ p, (rows 0).rows[g]? = some p ∧ p.handle = g := by
  have hmem := h.batches.mem_iff.mp (List.mem_flatMap.mpr ⟨i, List.mem_range.mpr hi, hg⟩)
  obtain ⟨p, hp, rfl⟩ := List.mem_map.mp hmem
  exact ⟨p, ((rows 0).mem_placements p).mp hp, rfl⟩

/-- Entries that name no handle twice stand at one index each. -/
theorem index_unique {entries : List (ReplicaHandle × ReplicaLinkId)}
    (hnodup : (entries.map (·.1)).Nodup) {i j : ℕ} {e e' : ReplicaHandle × ReplicaLinkId}
    (hi : entries[i]? = some e) (hj : entries[j]? = some e') (hsame : e'.1 = e.1) : j = i := by
  have hj' : (entries.map (·.1))[j]? = some e'.1 := by rw [List.getElem?_map, hj, Option.map_some]
  have hi' : (entries.map (·.1))[i]? = some e.1 := by rw [List.getElem?_map, hi, Option.map_some]
  have hentries : (entries.map (·.1))[j]? = (entries.map (·.1))[i]? := by rw [hj', hi', hsame]
  exact (List.getElem?_inj (List.getElem?_eq_some_iff.mp hj').1 hnodup).mp hentries

/-- The link a row comes to when no two rows linked share a hint. -/
def expected (hint : ReplicaHandle → ReplicaLinkId) (tierOf : ReplicaHandle → ReplicaTier)
    (p : ReplicaPlacement) : Option ReplicaLinkId :=
  if linkable (tierOf p.handle) p then some (hint p.handle) else none

/-- Hints apart, a batch gives each row it links its bare hint. -/
theorem link_at_batch (h : Hydration hint tierOf collection n rows steps)
    (hnone : ∀ p : ReplicaPlacement, (rows 0).rows[p.handle]? = some p → p.linkId = none)
    (hapart : HintsApart hint tierOf (rows 0)) {i : ℕ} (hi : i < n) {p : ReplicaPlacement}
    (hp : (rows 0).rows[p.handle]? = some p) (hin : p.handle ∈ (steps i).handles) :
    (rows (i + 1)).linkAt p.handle = expected hint tierOf p := by
  induction i using Nat.strong_induction_on generalizing p with
  | _ i ih =>
    have hpi := (h.row_at_batch hi hin).trans hp
    obtain ⟨hnodup, hclaimants⟩ := h.claimants_batch hi
    have hnew : ∀ e ∈ claimants (steps i).tier (steps i).transcript, ¬ (rows i).Linked e.2 := by
      rintro e he ⟨q, hq, hql⟩
      obtain ⟨hhint, hein, r, hr, hrh, hrl⟩ := hclaimants e he
      by_cases hearlier : ∃ k < i, q.handle ∈ (steps k).handles
      · obtain ⟨k, hk, hqk⟩ := hearlier
        obtain ⟨q₀, hq₀, hq₀h⟩ := h.row_of_batch (hk.trans hi) hqk
        have hlink := ih k hk (hk.trans hi) (hq₀h.symm ▸ hq₀) (hq₀h.symm ▸ hqk)
        rw [hq₀h, CollectionRows.linkAt, ← h.row_after hk hi.le hqk, hq, Option.bind_some, hql,
          expected] at hlink
        by_cases hlinkable : linkable (tierOf q₀.handle) q₀ = true
        · rw [if_pos hlinkable, Option.some.injEq] at hlink
          have hsame := hapart r q₀ (hrh.symm ▸ hr) (hq₀h.symm ▸ hq₀) hrl hlinkable
            (by rw [hrh, ← hhint, hlink])
          rw [hrh, hq₀h] at hsame
          rw [← hsame] at hqk
          exact absurd (h.batch_unique (hk.trans hi) hi hqk hein) (Nat.ne_of_lt hk)
        · rw [if_neg hlinkable] at hlink
          cases hlink
      · have hq₀ := (h.row_before hi.le (fun k hk hqk => hearlier ⟨k, hk, hqk⟩)).symm.trans hq
        rw [hnone q hq₀] at hql
        cases hql
    have hfirst := @Claims.not_second _ _ mint _ _ hnew (by
      intro k j e e' hk hj hsame
      obtain ⟨hhint, -, r, hr, hrh, hrl⟩ := hclaimants e (List.mem_of_getElem? hk)
      obtain ⟨hhint', -, r', hr', hrh', hrl'⟩ := hclaimants e' (List.mem_of_getElem? hj)
      refine index_unique hnodup hk hj ?_
      rw [← hrh, ← hrh']
      refine hapart r' r (hrh'.symm ▸ hr') (hrh.symm ▸ hr) hrl' hrl ?_
      rw [hrh, hrh', ← hhint, ← hhint', hsame])
    obtain ⟨hplain, hlinked⟩ := (h.sequence.upgrades i hi).named (h.sequence.serves i hi)
      (h.exactly i hi) (h.resolves i hi) (h.batch_nodup hi) hpi hin (hnone p hp)
    rw [← h.sequence.next i hi, h.tiers i hi _ hin] at hplain hlinked
    rw [expected]
    cases hlinkable : linkable (tierOf p.handle) p with
    | false => exact hplain hlinkable
    | true =>
      obtain ⟨k, l, hk, hgets, hlink⟩ := hlinked hlinkable
      rw [h.tiers i hi _ hin] at hfirst
      rw [hlink, if_pos rfl, hgets.unique (.bare hk (hfirst k))]

/-- Hints apart, every row ends with its bare hint, or with no link if no upgrade gives it one. -/
theorem link_at_end (h : Hydration hint tierOf collection n rows steps)
    (hnone : ∀ p : ReplicaPlacement, (rows 0).rows[p.handle]? = some p → p.linkId = none)
    (hapart : HintsApart hint tierOf (rows 0)) (g : ReplicaHandle) :
    (rows n).linkAt g = (rows 0).rows[g]?.bind (expected hint tierOf) := by
  cases hp : (rows 0).rows[g]? with
  | none =>
    have hrow : (rows n).rows[g]? = none := by
      rw [h.row_before le_rfl (fun j hj hg => ?_)]
      · exact hp
      · obtain ⟨p, hp', -⟩ := h.row_of_batch hj hg
        rw [hp] at hp'
        cases hp'
    rw [CollectionRows.linkAt, hrow]
    rfl
  | some p =>
    have hh := (rows 0).keyed g p hp
    subst hh
    obtain ⟨i, hi, hin⟩ := h.batch_of_row hp
    rw [Option.bind_some, ← h.link_at_batch hnone hapart hi hp hin, CollectionRows.linkAt,
      CollectionRows.linkAt, h.row_after hi le_rfl hin]

/-- The row of the first batch alone takes its bare hint, the collection holding no link yet. -/
theorem first_bare (h : Hydration hint tierOf collection n rows steps)
    (hnone : ∀ p : ReplicaPlacement, (rows 0).rows[p.handle]? = some p → p.linkId = none)
    (hn : 0 < n) {p : ReplicaPlacement} (hp : (rows 0).rows[p.handle]? = some p)
    (hlinkable : linkable (tierOf p.handle) p = true) (honly : (steps 0).handles = [p.handle]) :
    (rows n).linkAt p.handle = some (hint p.handle) ∧
      ∃ r, (rows 1).rows[p.handle]? = some r ∧ r.linkId = some (hint p.handle) := by
  have hin : p.handle ∈ (steps 0).handles := honly ▸ List.mem_singleton_self _
  obtain ⟨hnodup, hclaimants⟩ := h.claimants_batch hn
  have hfirst := @Claims.not_second _ _ mint (rows 0).Linked
    (claimants (steps 0).tier (steps 0).transcript) (by
      rintro e - ⟨q, hq, hql⟩
      rw [hnone q hq] at hql
      cases hql) (by
      intro k j e e' hk hj _
      have hek := (hclaimants e (List.mem_of_getElem? hk)).2.1
      have hej := (hclaimants e' (List.mem_of_getElem? hj)).2.1
      rw [honly, List.mem_singleton] at hek hej
      exact index_unique hnodup hk hj (hej.trans hek.symm))
  obtain ⟨-, hlinked⟩ := (h.sequence.upgrades 0 hn).named (h.sequence.serves 0 hn)
    (h.exactly 0 hn) (h.resolves 0 hn) (h.batch_nodup hn) hp hin (hnone p hp)
  rw [← h.sequence.next 0 hn] at hlinked
  obtain ⟨k, l, hk, hgets, hlink⟩ := hlinked (by rw [h.tiers 0 hn _ hin]; exact hlinkable)
  rw [hgets.unique (.bare hk (hfirst k))] at hlink
  obtain ⟨r, hr, hrl⟩ := Option.bind_eq_some_iff.mp hlink
  refine ⟨?_, r, hr, hrl⟩
  rw [CollectionRows.linkAt, h.row_after hn le_rfl hin]
  exact hlink

/-- A row hydrated right after another of its hint is minted. -/
theorem second_minted (h : Hydration hint tierOf collection n rows steps)
    (hnone : ∀ p : ReplicaPlacement, (rows 0).rows[p.handle]? = some p → p.linkId = none)
    (hn : 1 < n) {p q : ReplicaPlacement} (hp : (rows 0).rows[p.handle]? = some p)
    (hq : (rows 0).rows[q.handle]? = some q) (hpl : linkable (tierOf p.handle) p = true)
    (hql : linkable (tierOf q.handle) q = true) (hhint : hint p.handle = hint q.handle)
    (hfirst : (steps 0).handles = [q.handle]) (hnext : (steps 1).handles = [p.handle]) :
    (rows n).linkAt p.handle = some (mint (hint p.handle) p.handle) := by
  obtain ⟨-, r, hr, hrl⟩ := h.first_bare hnone (Nat.zero_lt_of_lt hn) hq hql hfirst
  have hin : p.handle ∈ (steps 1).handles := hnext ▸ List.mem_singleton_self _
  have hp1 := (h.row_at_batch hn hin).trans hp
  obtain ⟨-, hlinked⟩ := (h.sequence.upgrades 1 hn).named (h.sequence.serves 1 hn)
    (h.exactly 1 hn) (h.resolves 1 hn) (h.batch_nodup hn) hp1 hin (hnone p hp)
  rw [← h.sequence.next 1 hn] at hlinked
  obtain ⟨k, l, hk, hgets, hlink⟩ := hlinked (by rw [h.tiers 1 hn _ hin]; exact hpl)
  have hrh := (rows 1).keyed _ _ hr
  have hheld : (rows 1).Linked (hint p.handle) := ⟨r, hrh.symm ▸ hr, hrl.trans (congrArg some hhint.symm)⟩
  rw [CollectionRows.linkAt, h.row_after hn le_rfl hin]
  have hsecond : Claims.Second mint (rows 1).Linked
      (claimants (steps 1).tier (steps 1).transcript) k := .held hk hheld
  have hminted := Claims.Gets.minted hk hsecond
  exact hlink.trans (congrArg some (hgets.unique hminted))

end Hydration
/-- A remote that resolves every handle to its hint. -/
def resolver (hint : ReplicaHandle → ReplicaLinkId) (hs : List ReplicaHandle) (_ : ReplicaTier) :
    List ReplicaFetchedItem :=
  hs.map (fun h => ⟨h, hint h, ⟨""⟩, .unknown, none, none⟩)

theorem exactRun_resolves {fuel : ℕ} {known : LinkMap ReplicaHash}
    {hint : ReplicaHandle → ReplicaLinkId} {collection : ReplicaCollectionId}
    {handles : List ReplicaHandle} {tier : ReplicaTier} {s s' : CollectionRows} {t : Transcript}
    (h : exactRun fuel known (resolver hint) collection handles tier s = some (s', t)) :
    Resolves hint t := by
  intro c hs tier' a hmem
  refine ⟨_, exactRun_fetches h hmem, ?_, ?_⟩
  · rw [resolver, List.map_map]
    exact List.Perm.of_eq (List.map_id hs)
  · intro item hi
    obtain ⟨g, -, rfl⟩ := List.mem_map.mp hi
    rfl

/-- A collection can be hydrated row by row in any order. -/
theorem hydration_total (hint : ReplicaHandle → ReplicaLinkId)
    (tierOf : ReplicaHandle → ReplicaTier) (collection : ReplicaCollectionId) (s : CollectionRows)
    {order : List ReplicaHandle} (horder : order.Perm (s.placements.map (·.handle))) :
    ∃ rows steps, Hydration hint tierOf collection order.length rows steps ∧ rows 0 = s ∧
      ∀ (i : ℕ) (g : ReplicaHandle), order[i]? = some g → (steps i).handles = [g] := by
  have hone : ∀ (s : CollectionRows) (g : ReplicaHandle), ∃ o : CollectionRows × Transcript,
      Upgrades collection [g] (tierOf g) (firstLoad s [g]) o.2 ∧ ServesExactly s o.2 ∧
        Serves s o.2 ∧ o.1 = s.apply o.2.writes ∧ Resolves hint o.2 := by
    intro s g
    obtain ⟨fuel, s', t, hrun⟩ := exactRun_total ∅ (resolver hint) collection [g] (tierOf g) s
    obtain ⟨hupgrades, hexact, hserves, hnext⟩ := exactRun_upgrades hrun
    exact ⟨(s', t), hupgrades, hexact, hserves, hnext, exactRun_resolves hrun⟩
  choose next hnext using hone
  let rows : ℕ → CollectionRows := fun i => (order.take i).foldl (fun s g => (next s g).1) s
  let at' : ℕ → ReplicaHandle := fun i => order.getD i ⟨""⟩
  let steps : ℕ → UpgradeStep := fun i =>
    ⟨[at' i], tierOf (at' i), firstLoad (rows i) [at' i], (next (rows i) (at' i)).2⟩
  have hrows : ∀ i < order.length, rows (i + 1) = (next (rows i) (at' i)).1 := by
    intro i hi
    have hget : order[i]? = some (at' i) := by
      rw [List.getElem?_eq_getElem hi]
      simp [at', List.getD, List.getElem?_eq_getElem hi]
    simp only [rows, List.take_add_one, hget, Option.toList_some, List.foldl_append,
      List.foldl_cons, List.foldl_nil]
  refine ⟨rows, steps, ⟨⟨?_, ?_, ?_⟩, ?_, ?_, ?_, ?_⟩, rfl, ?_⟩
  · exact fun i _ => (hnext (rows i) (at' i)).1
  · exact fun i _ => (hnext (rows i) (at' i)).2.2.1
  · intro i hi
    rw [hrows i hi]
    exact (hnext (rows i) (at' i)).2.2.2.1
  · exact fun i _ => (hnext (rows i) (at' i)).2.1
  · exact fun i _ => (hnext (rows i) (at' i)).2.2.2.2
  · intro i _ g hg
    rw [List.mem_singleton.mp hg]
  · have hflat : (List.range order.length).flatMap (fun i => (steps i).handles) = order := by
      have hmap : (List.range order.length).map at' = order := by
        refine List.ext_getElem (by simp) ?_
        intro i hi hi'
        simp [at', List.getD, List.getElem?_eq_getElem hi']
      exact (List.map_eq_flatMap).symm.trans hmap
    rw [hflat]
    exact horder
  · intro i g hg
    simp [steps, at', List.getD, hg]

/-- A rebuilt collection comes to the same links however it is cut into batches and ordered, exactly
when no two of the rows it links share a hint. -/
theorem mints_alike_iff {hint : ReplicaHandle → ReplicaLinkId}
    {tierOf : ReplicaHandle → ReplicaTier} {collection : ReplicaCollectionId} {s : CollectionRows}
    (hnone : ∀ p : ReplicaPlacement, s.rows[p.handle]? = some p → p.linkId = none) :
    MintsAlike hint tierOf collection s ↔ HintsApart hint tierOf s := by
  constructor
  · intro halike p q hp hq hpl hql hhint
    by_contra hne
    have hnodup : (s.placements.map (·.handle)).Nodup := by
      rw [List.Nodup, List.pairwise_map]
      exact s.placements_pairwise
    have hpm := List.mem_map_of_mem (f := (·.handle)) ((s.mem_placements p).mpr hp)
    have hqm := List.mem_map_of_mem (f := (·.handle)) ((s.mem_placements q).mpr hq)
    -- one order starts with `p`, the other with `q` and then `p`
    have hperm : (p.handle :: (s.placements.map (·.handle)).erase p.handle).Perm
        (s.placements.map (·.handle)) := (List.perm_cons_erase hpm).symm
    have hqe : q.handle ∈ (s.placements.map (·.handle)).erase p.handle :=
      (List.mem_erase_of_ne (Ne.symm hne)).mpr hqm
    have hperm' : (q.handle :: p.handle ::
        ((s.placements.map (·.handle)).erase p.handle).erase q.handle).Perm
          (s.placements.map (·.handle)) :=
      (List.Perm.swap ..).trans (((List.perm_cons_erase hqe).symm.cons p.handle).trans hperm)
    obtain ⟨rows, steps, hfirst, h0, hhandles⟩ := hydration_total hint tierOf collection s hperm
    obtain ⟨rows', steps', hsecond, h0', hhandles'⟩ :=
      hydration_total hint tierOf collection s hperm'
    have hbare := (hfirst.first_bare (h0.symm ▸ hnone) (Nat.succ_pos _) (h0.symm ▸ hp) hpl
      (hhandles 0 p.handle rfl)).1
    have hminted := hsecond.second_minted (h0'.symm ▸ hnone) (Nat.succ_lt_succ (Nat.succ_pos _))
      (h0'.symm ▸ hp) (h0'.symm ▸ hq) hpl hql hhint (hhandles' 0 q.handle rfl)
      (hhandles' 1 p.handle rfl)
    have hsame := halike _ _ _ _ _ _ hfirst h0 hsecond h0' p.handle
    rw [hbare, hminted, Option.some.injEq] at hsame
    exact mint_ne _ _ hsame.symm
  · intro hapart n rows steps n' rows' steps' h h0 h' h0' g
    rw [h.link_at_end (h0.symm ▸ hnone) (h0.symm ▸ hapart) g,
      h'.link_at_end (h0'.symm ▸ hnone) (h0'.symm ▸ hapart) g, h0, h0']

section Runs

/-- Two messages just enumerated. -/
def rebuiltMail : CollectionRows :=
  CollectionRows.empty.apply [.upsertPlacement { probedCard with handle := ⟨"u1"⟩ },
    .upsertPlacement { probedCard with handle := ⟨"u2"⟩ }]

theorem rebuiltMail_unlinked : ∀ p : ReplicaPlacement, rebuiltMail.rows[p.handle]? = some p →
    p.linkId = none := by
  have hall : ∀ p ∈ rebuiltMail.placements, p.linkId = none := by decide +kernel
  exact fun p hp => hall p ((rebuiltMail.mem_placements p).mpr hp)

/-- One upgrade of the mailbox, every message resolved to the same hint. -/
def twinStep (handles : List ReplicaHandle) (s : CollectionRows) :
    Option (CollectionRows × Transcript) :=
  exactRun 9 ∅ (resolver (fun _ => ⟨"m1"⟩)) ⟨"inbox"⟩ handles .metadata s

/-- Hydrated in one batch the first copy keeps the hint; hydrated after the other, it is minted. -/
theorem batches_mint_apart : ∃ (hint : ReplicaHandle → ReplicaLinkId) (s : CollectionRows),
    (∀ p : ReplicaPlacement, s.rows[p.handle]? = some p → p.linkId = none) ∧
      ¬ MintsAlike hint (fun _ => .metadata) ⟨"inbox"⟩ s := by
  refine ⟨fun _ => ⟨"m1"⟩, rebuiltMail, rebuiltMail_unlinked, ?_⟩
  have hwhole : (twinStep [⟨"u1"⟩, ⟨"u2"⟩] rebuiltMail).any (fun o =>
      decide (o.1.linkAt ⟨"u1"⟩ = some ⟨"m1"⟩)) = true := by decide +kernel
  have hsplit : ((twinStep [⟨"u2"⟩] rebuiltMail).bind (fun o =>
      (twinStep [⟨"u1"⟩] o.1).map (fun o' => (o, o')))).any (fun o =>
        decide (o.2.1.linkAt ⟨"u1"⟩ = some ⟨"dup:m1#u1"⟩)) = true := by decide +kernel
  obtain ⟨⟨s', t⟩, hd, hlink⟩ := (Option.any_eq_true _ _).mp hwhole
  obtain ⟨⟨⟨s₁, t₁⟩, ⟨s₂, t₂⟩⟩, hboth, hlink'⟩ := (Option.any_eq_true _ _).mp hsplit
  obtain ⟨⟨s₁', t₁'⟩, hd₁, hd₂⟩ := Option.bind_eq_some_iff.mp hboth
  obtain ⟨⟨s₂', t₂'⟩, hd₂, heq⟩ := Option.map_eq_some_iff.mp hd₂
  cases heq
  obtain ⟨hup, hexact, hserves, hnext⟩ := exactRun_upgrades hd
  obtain ⟨hup₁, hexact₁, hserves₁, hnext₁⟩ := exactRun_upgrades hd₁
  obtain ⟨hup₂, hexact₂, hserves₂, hnext₂⟩ := exactRun_upgrades hd₂
  have hwholeBatch : ([⟨"u1"⟩, ⟨"u2"⟩] : List ReplicaHandle).Perm
      (rebuiltMail.placements.map (·.handle)) := by decide +kernel
  have hsplitBatches : ([⟨"u2"⟩, ⟨"u1"⟩] : List ReplicaHandle).Perm
      (rebuiltMail.placements.map (·.handle)) := by decide +kernel
  have hone : Hydration (fun _ => ⟨"m1"⟩) (fun _ => .metadata) ⟨"inbox"⟩ 1
      (fun i => if i = 0 then rebuiltMail else s')
      (fun _ => ⟨[⟨"u1"⟩, ⟨"u2"⟩], .metadata, firstLoad rebuiltMail [⟨"u1"⟩, ⟨"u2"⟩], t⟩) := by
    refine ⟨⟨?_, ?_, ?_⟩, ?_, ?_, fun _ _ _ _ => rfl, hwholeBatch⟩ <;>
      (intro i hi; interval_cases i)
    · exact hup
    · exact hserves
    · exact hnext
    · exact hexact
    · exact exactRun_resolves hd
  have htwo : Hydration (fun _ => ⟨"m1"⟩) (fun _ => .metadata) ⟨"inbox"⟩ 2
      (fun i => if i = 0 then rebuiltMail else if i = 1 then s₁ else s₂)
      (fun i => if i = 0 then ⟨[⟨"u2"⟩], .metadata, firstLoad rebuiltMail [⟨"u2"⟩], t₁⟩
        else ⟨[⟨"u1"⟩], .metadata, firstLoad s₁ [⟨"u1"⟩], t₂⟩) := by
    refine ⟨UpgradeSequence.sequence_two ⟨_, _, _, _⟩ ⟨_, _, _, _⟩ hup₁ hup₂ hserves₁ hserves₂ hnext₁
      hnext₂, ?_, ?_, ?_, hsplitBatches⟩
    · intro i hi
      interval_cases i
      · exact hexact₁
      · exact hexact₂
    · intro i hi
      interval_cases i
      · exact exactRun_resolves hd₁
      · exact exactRun_resolves hd₂
    · intro i hi _ _
      interval_cases i <;> rfl
  intro halike
  have hsame := halike _ _ _ _ _ _ hone rfl htwo rfl ⟨"u1"⟩
  have hlast : s'.linkAt ⟨"u1"⟩ = s₂.linkAt ⟨"u1"⟩ := hsame
  simp only [decide_eq_true_eq] at hlink hlink'
  rw [hlink, hlink'] at hlast
  exact absurd hlast (by decide)

/-- Messages of distinct hints take the same links from any batches. -/
theorem rebuilt_mail_alike :
    (∃ n rows steps, Hydration (fun h => ⟨h.asStr⟩) (fun _ => .full) ⟨"inbox"⟩ n rows steps ∧
      rows 0 = rebuiltMail) ∧
    MintsAlike (fun h => ⟨h.asStr⟩) (fun _ => .full) ⟨"inbox"⟩ rebuiltMail := by
  obtain ⟨rows, steps, h, h0, -⟩ := hydration_total (fun h => ⟨h.asStr⟩) (fun _ => .full) ⟨"inbox"⟩
    rebuiltMail (List.Perm.refl _)
  refine ⟨⟨_, rows, steps, h, h0⟩, (mints_alike_iff rebuiltMail_unlinked).mpr ?_⟩
  intro p q _ _ _ _ hsame
  have hstr : p.handle.asStr = q.handle.asStr := congrArg (fun l : ReplicaLinkId => l.asStr) hsame
  exact ReplicaId.asStr_injective hstr

end Runs
end IoReplica

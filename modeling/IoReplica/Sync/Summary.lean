import IoReplica.Sync.Events
import IoReplica.Sync.Survives

/-! The report of a run against what it did: its counters are its events', its creates the Adds
accepted, its removals the rows dropped with their member. -/
namespace IoReplica

/-- The event an accepted result is told with, by the map that awaited it. -/
def PendingMap.event (m : PendingMap) (r : ReplicaPushResult) : ReplicaEvent :=
  match m with
  | .flags => .flagsChanged r.handle
  | .content => .contentChanged r.handle
  | .drops => .vanished r.handle
  | .creates => .created (r.assigned.getD r.handle)

namespace Pending

/-- The one map that holds a handle is its change's. -/
theorem Owes.holds {p : Pending} {kind : ReplicaChangeKind} (h : p.Owes (some kind))
    (m : PendingMap) : p.holds m = decide (m = kind.awaitedIn) := by
  rw [Bool.eq_iff_iff, h m, decide_eq_true_iff, Option.map_some, Option.some.injEq]
  exact eq_comm

/-- A handle owed one change announces it alone. -/
theorem Owes.announce {p : Pending} {kind : ReplicaChangeKind} (h : p.Owes (some kind))
    (r : ReplicaPushResult) : p.announce r = [kind.awaitedIn.event r] := by
  have hflags : p.flags.isSome = decide (PendingMap.flags = kind.awaitedIn) := h.holds .flags
  have hcontent : p.content.isSome = decide (PendingMap.content = kind.awaitedIn) :=
    h.holds .content
  have hdropped : p.dropped = decide (PendingMap.drops = kind.awaitedIn) := h.holds .drops
  have hcreated : p.created.isSome = decide (PendingMap.creates = kind.awaitedIn) :=
    h.holds .creates
  rw [Pending.announce, hflags, hcontent, hdropped, hcreated]
  cases kind.awaitedIn <;> rfl

end Pending

namespace ReplicaEvent

/-- Every event but a create is of one counted kind. -/
theorem length_eq_counts {es : List ReplicaEvent} (h : ∀ g, .created g ∉ es) :
    es.length = es.countP (·.isPull) + es.countP (·.isRefresh) + es.countP (·.isConflict) := by
  induction es with
  | nil => rfl
  | cons e es ih =>
    have hrest := ih (fun g hg => h g (List.mem_cons_of_mem _ hg))
    have hone : (if e.isPull then 1 else 0) + (if e.isRefresh then 1 else 0) +
        (if e.isConflict then 1 else 0) = 1 := by
      cases e with
      | added | flagsChanged | vanished | contentChanged | conflicted => rfl
      | created g => exact absurd List.mem_cons_self (h g)
    simp only [List.length_cons, List.countP_cons]
    omega

end ReplicaEvent

namespace ReplicaChange

/-- Does the change create a member? -/
def isAdd (k : ReplicaChange) : Bool :=
  match k.kind with
  | .add .. => true
  | .setFlags .. | .update .. | .remove .. => false

def isRemove (k : ReplicaChange) : Bool :=
  match k.kind with
  | .remove .. => true
  | .setFlags .. | .update .. | .add .. => false

theorem isAdd_iff (k : ReplicaChange) : k.isAdd = true ↔ k.kind.awaitedIn = .creates := by
  simp only [isAdd]
  cases k.kind <;> simp [ReplicaChangeKind.awaitedIn]

theorem isRemove_iff (k : ReplicaChange) : k.isRemove = true ↔ k.kind.awaitedIn = .drops := by
  simp only [isRemove]
  cases k.kind <;> simp [ReplicaChangeKind.awaitedIn]

end ReplicaChange

/-- The result that accepts a change of the run: the first to, of those reported by the reply to the
change's own chunk. -/
def Transcript.acceptance (t : Transcript) (k : ReplicaChange) : Option ReplicaPushResult :=
  Outbox.confirmation k.handle t.pushes

namespace Transcript
variable {t : Transcript}

theorem acceptance_handle {k : ReplicaChange} {r : ReplicaPushResult}
    (h : t.acceptance k = some r) : r.handle = k.handle := by
  have hconfirms : r.confirms k.handle = true := by simpa using List.find?_some h
  exact (of_decide_eq_true hconfirms).2

theorem acceptance_sublist (t : Transcript) (ks : List ReplicaChange) :
    ((ks.filterMap t.acceptance).map (fun r => r.handle)).Sublist
      (ks.map (fun k => k.handle)) := by
  induction ks with
  | nil => exact .slnil
  | cons k ks ih =>
    cases ha : t.acceptance k with
    | none =>
      rw [List.filterMap_cons_none ha]
      exact ih.cons _
    | some r =>
      rw [List.filterMap_cons_some ha, List.map_cons, List.map_cons, acceptance_handle ha]
      exact ih.cons_cons _

end Transcript

/-- A row in sync, live, whose member the snapshot shows gone. -/
def RemoteDeleted (loaded : ReplicaLoaded) (snapshot : ReplicaRemoteSnapshot)
    (h : ReplicaHandle) : Prop :=
  ∃ p, (collectPlacements loaded.placements)[h]? = some p ∧ p.base.isSome ∧
    p.status ≠ .tombstone ∧ snapshot.Gone h

/-- A Remove of the handle that the remote accepted. -/
def Transcript.RemoveAccepted (t : Transcript) (h : ReplicaHandle) : Prop :=
  ∃ k ∈ t.changes, k.handle = h ∧ k.isRemove = true ∧ (t.acceptance k).isSome

/-- A deleted row whose member the run is shown nothing of. -/
def AlreadyGone (loaded : ReplicaLoaded) (snapshot : ReplicaRemoteSnapshot)
    (h : ReplicaHandle) : Prop :=
  ∃ p, (collectPlacements loaded.placements)[h]? = some p ∧ p.status = .tombstone ∧
    Merge.seen (collectPlacements loaded.placements) snapshot h = none

/-- A report that sums up its run. A local delete of something already gone remote is the only row
dropped with its member and not told of. -/
structure Summarises (collection : ReplicaCollectionId) (loaded : ReplicaLoaded)
    (snapshot : ReplicaRemoteSnapshot) (t : Transcript) (report : ReplicaSyncReport) : Prop where
  counted : report.events.length =
    report.pulled + report.pushed + report.refreshed + report.conflicts
  conflicts : report.conflicts = report.events.countP (·.isConflict)
  created : (report.events.filterMap (·.created?)).Perm
    ((t.changes.filter (·.isAdd)).filterMap (fun k =>
      (t.acceptance k).map (fun r => r.assigned.getD r.handle)))
  vanished : ∀ h, .vanished h ∈ report.events ↔
    .dropPlacement collection h .deleted ∈ t.writes ∧
      (RemoteDeleted loaded snapshot h ∨ t.RemoveAccepted h)
  dropped : ∀ c h, .dropPlacement c h .deleted ∈ t.writes →
    c = collection ∧ (.vanished h ∈ report.events ∨ AlreadyGone loaded snapshot h)

section Runs
variable {collection : ReplicaCollectionId} {opts : ReplicaSyncOptions} {loaded : ReplicaLoaded}
  {snapshot : ReplicaRemoteSnapshot} {t : Transcript} {box : Outbox} {report : ReplicaSyncReport}

open ReplicaSync

/-- A based row merged against nothing is one the snapshot shows gone. -/
theorem gone_of_seen {rows : HandleMap ReplicaPlacement} {h : ReplicaHandle}
    {p : ReplicaPlacement} (hb : p.base.isSome)
    (hat : Merge.candidateAt rows snapshot h = some ⟨h, some p, none⟩) : snapshot.Gone h := by
  have hp : rows[h]? = some p := (Merge.candidateAt_spec hat).2.symm
  cases hc : snapshot.complete with
  | true =>
    rw [Merge.candidateAt_complete hc] at hat
    simp only [ReplicaRemoteSnapshot.Gone, hc, if_true]
    split at hat
    · exact (Candidate.mk.inj (Option.some.inj hat)).2.2
    · cases hat
  | false =>
    simp only [ReplicaRemoteSnapshot.Gone, hc, Bool.false_eq_true, if_false]
    by_contra hv
    cases hi : snapshot.reported h with
    | some item =>
      rw [Merge.candidateAt_listed hc hv hi] at hat
      cases (Candidate.mk.inj (Option.some.inj hat)).2.2
    | none =>
      rw [Merge.candidateAt_unlisted hc hv hi, hp, Option.bind_some] at hat
      split at hat
      · cases hat
      · have hstands := (Candidate.mk.inj (Option.some.inj hat)).2.2
        obtain ⟨base, hbase⟩ := Option.isSome_iff_exists.mp hb
        simp [Merge.standIn, hbase] at hstands

/-- A handle is owed the change its candidate derived. -/
theorem WholeRun.owes_derived (h : WholeRun collection opts loaded snapshot t box) {c : Candidate}
    (hc : c ∈ mergedCandidates loaded snapshot) :
    (box c.handle).Owes (effect collection opts c).2 := by
  rw [h.awaits c hc]
  exact merge_balanced _ (mergedCandidates_paired hc) (new_pendingAt collection opts c.handle)

/-- An edit that beats a delete is a row's edit. -/
theorem edited_of_against {p : ReplicaPlacement} (he : editedAgainstDelete p = true) :
    p.Edited := by
  simp only [editedAgainstDelete, Bool.and_eq_true, decide_eq_true_iff] at he
  obtain ⟨⟨hs, ho⟩, hd⟩ := he
  refine ⟨hs, ho, ?_⟩
  cases hb : p.base with
  | none =>
    rw [hb] at hd
    cases hd
  | some base =>
    rw [ReplicaPlacement.baseObject, hb]
    rw [hb] at hd
    exact of_decide_eq_true hd

/-- What a run awaits under a handle, by the changes it pushed. -/
theorem WholeRun.holds_iff (h : WholeRun collection opts loaded snapshot t box) (m : PendingMap)
    (g : ReplicaHandle) :
    (box g).holds m = true ↔ ∃ k ∈ t.changes, k.handle = g ∧ k.kind.awaitedIn = m := by
  constructor
  · intro hholds
    by_cases hg : ∃ c ∈ mergedCandidates loaded snapshot, c.handle = g
    · obtain ⟨c, hc, rfl⟩ := hg
      obtain ⟨kind, hkind, hm⟩ := Option.map_eq_some_iff.mp ((h.owes_derived hc m).mp hholds)
      have hnames := ((new collection opts).merge_local (mergedCandidates_paired hc)).2 kind hkind
      refine ⟨.new collection kind, h.mem_changes.mpr ⟨c, hc, hnames.symm, ?_⟩, hnames, hm⟩
      rw [hkind]
      rfl
    · push Not at hg
      rw [h.idle g hg, Pending.Owes.none m] at hholds
      cases hholds
  · rintro ⟨k, hk, rfl, rfl⟩
    obtain ⟨c, hc, hh, hk⟩ := h.mem_changes.mp hk
    obtain ⟨kind, hkind, rfl⟩ := Option.map_eq_some_iff.mp hk
    have howes := h.owes_derived hc
    rw [hkind, hh] at howes
    exact (howes kind.awaitedIn).mpr rfl

/-- A handle that awaits anything is owed one change. -/
theorem WholeRun.owes (h : WholeRun collection opts loaded snapshot t box) {g : ReplicaHandle}
    (ha : (box g).awaits = true) : ∃ kind, (box g).Owes (some kind) := by
  by_cases hg : ∃ c ∈ mergedCandidates loaded snapshot, c.handle = g
  · obtain ⟨c, hc, rfl⟩ := hg
    have howes := h.owes_derived hc
    cases hk : (effect collection opts c).2 with
    | some kind => exact ⟨kind, hk ▸ howes⟩
    | none =>
      obtain ⟨m, hm⟩ := (Pending.awaits_iff _).mp ha
      rw [hk] at howes
      cases (howes m).mp hm
  · push Not at hg
    rw [h.idle g hg] at ha
    cases ha

variable (collection opts) in
/-- Merging drops a row with its member where it is told of a removal, and where both sides deleted
it. -/
theorem effect_dropped {c : Candidate} (hc : c.Paired) {x : ReplicaCollectionId}
    {g : ReplicaHandle} : .dropPlacement x g .deleted ∈ (effect collection opts c).1.writes ↔
      x = collection ∧ g = c.handle ∧ (c.Gone ∨
        ∃ p, c.loc = some p ∧ c.remote = none ∧ p.status = .tombstone) := by
  have hnew : (new collection opts).writes = [] := rfl
  constructor
  · intro hop
    rcases (new collection opts).merge_writes hc hop with hnone | ⟨q, hq, -⟩ | ⟨hr, heq⟩
    · cases hnone
    · cases hq
    obtain ⟨hx, hg, -⟩ := ReplicaWriteOp.dropPlacement.inj heq
    refine ⟨hx, hg, ?_⟩
    obtain ⟨h, loc, remote⟩ := c
    dsimp only at hr
    subst hr
    cases loc with
    | none => cases hop
    | some p =>
      by_cases hs : p.status = .tombstone
      · exact Or.inr ⟨p, rfl, rfl, hs⟩
      refine Or.inl ⟨p, rfl, rfl, ?_⟩
      rw [effect, merge_live _ _ hs] at hop
      dsimp only at hop
      split at hop
      · rename_i hb
        refine ⟨hb, hs, ?_⟩
        simp only [mergeVanished] at hop
        cases he : editedAgainstDelete p with
        | false => rfl
        | true =>
          rw [he, if_pos rfl] at hop
          split at hop <;> simp [upsert, write, pushAdd, stashCreate, hnew] at hop
      · simp only [mergeCreate] at hop
        split at hop
        · cases hop
        · cases hop
  · rintro ⟨rfl, rfl, ⟨p, hp, hr, hb, hs, he⟩ | ⟨p, hp, hr, hs⟩⟩
    · obtain ⟨h, loc, remote⟩ := c
      dsimp only at hp hr
      subst hp hr
      rw [effect, merge_live _ _ hs]
      simp [hb, mergeVanished, he, drop, write, countPulled, emit, new]
    · obtain ⟨h, loc, remote⟩ := c
      dsimp only at hp hr
      subst hp hr
      rw [effect, merge_tombstone _ _ hs]
      simp [drop, write, new]

/-- A run as it is told: what it reports of its candidates, then of the results that accept what it
awaited. -/
structure ToldRun (collection : ReplicaCollectionId) (opts : ReplicaSyncOptions)
    (loaded : ReplicaLoaded) (snapshot : ReplicaRemoteSnapshot) (t : Transcript)
    (report : ReplicaSyncReport) (box : Outbox) (es : List ReplicaEvent) : Prop where
  whole : WholeRun collection opts loaded snapshot t box
  events : report.events =
    es ++ (box.acknowledged collection t.pushes).flatMap (fun x => x.2.announce x.1)
  pulled : report.pulled = es.countP (·.isPull)
  pushed : report.pushed = (box.acknowledged collection t.pushes).length
  refreshed : report.refreshed = es.countP (·.isRefresh)
  conflicts : report.conflicts = es.countP (·.isConflict)
  uncreated : ∀ h, .created h ∉ es
  vanished : ∀ h, .vanished h ∈ es ↔
    ∃ c ∈ mergedCandidates loaded snapshot, c.handle = h ∧ c.Gone

theorem Reports.syncs (h : Reports collection opts loaded snapshot t report) :
    Syncs collection opts loaded snapshot t := by
  obtain ⟨rest, ht, hruns⟩ := h
  exact ⟨rest, report, ht, hruns⟩

theorem Reports.told (h : Reports collection opts loaded snapshot t report) :
    ∃ box es, ToldRun collection opts loaded snapshot t report box es := by
  obtain ⟨box, hwhole⟩ := h.syncs.whole
  obtain ⟨rest, rfl, hends⟩ := Reports.ends.mp h
  obtain ⟨hasc, hpaired, -⟩ :=
    Merge.candidates_spec (CollectionRows.ofLoad loaded.placements) snapshot
  let cs := mergedCandidates loaded snapshot
  let m := Merge.between (collectPlacements loaded.placements) snapshot
  let start := opened collection opts (if opts.full then none else loaded.checkpoint) m
  have hbatches : Batches report start m rest := mergeStep_batches rfl hends
  have hacks := hbatches.acknowledges hpaired
  have hstart : start.mergeAll cs = _ :=
    opened_mergeAll collection opts (if opts.full then none else loaded.checkpoint) m cs
  have hall := mergedAll collection opts cs hpaired hasc
  have hbox : (start.mergeAll cs).pendingAt = box := by
    rw [hstart]
    funext g
    by_cases hg : ∃ c ∈ cs, c.handle = g
    · obtain ⟨c, hc, rfl⟩ := hg
      rw [hwhole.awaits c hc]
      exact hall.pending c hc
    · push Not at hg
      rw [hwhole.idle g hg]
      exact hall.idle g hg
  have hreport : (start.mergeAll cs).report = ((new collection opts).mergeAll cs).report := by
    rw [hstart]
  obtain ⟨es, hcounts, huncreated, hvanished⟩ := mergeAll_counts cs (new collection opts)
  have hacked : Acknowledges ((new collection opts).mergeAll cs).report
      (box.acknowledged collection (Transcript.pushes rest)) report := by
    rw [← hbox, ← hreport]
    exact hacks
  refine ⟨box, es, hwhole, ?_, ?_, ?_, ?_, ?_, huncreated, hvanished⟩
  · rw [hacked.events, hcounts.events]
    rfl
  · rw [hacked.pulled, hcounts.pulled]
    exact Nat.zero_add _
  · rw [hacked.pushed, hcounts.pushed]
    exact Nat.zero_add _
  · rw [hacked.refreshed, hcounts.refreshed]
    exact Nat.zero_add _
  · rw [hacked.conflicts, hcounts.conflicts]
    exact Nat.zero_add _

/-- An acknowledgement is told of with one event: that of the change its handle was owed. -/
theorem WholeRun.announces (h : WholeRun collection opts loaded snapshot t box)
    {acks : List (ReplicaPushResult × Pending)}
    (hacks : ∀ x ∈ acks, x.2 = box x.1.handle ∧ x.2.awaits = true) :
    ∃ es, acks.flatMap (fun x => x.2.announce x.1) = es ∧ es.length = acks.length ∧
      es.countP (·.isConflict) = 0 ∧
      es.filterMap (·.created?) = (acks.filter (fun x => x.2.created.isSome)).map
        (fun x => x.1.assigned.getD x.1.handle) ∧
      ∀ g, .vanished g ∈ es ↔ ∃ x ∈ acks, x.1.handle = g ∧ x.2.dropped = true := by
  induction acks with
  | nil => exact ⟨[], rfl, rfl, rfl, rfl, by simp⟩
  | cons x acks ih =>
    obtain ⟨r, p⟩ := x
    obtain ⟨es, hes, hlen, hconflicts, hcreated, hvanished⟩ :=
      ih (fun y hy => hacks y (List.mem_cons_of_mem _ hy))
    obtain ⟨hp, ha⟩ := hacks (r, p) List.mem_cons_self
    dsimp only at hp ha
    subst hp
    obtain ⟨kind, howes⟩ := h.owes ha
    have hone := howes.announce r
    have hmade : (box r.handle).created.isSome = decide (PendingMap.creates = kind.awaitedIn) :=
      howes.holds .creates
    have hgone : (box r.handle).dropped = decide (PendingMap.drops = kind.awaitedIn) :=
      howes.holds .drops
    refine ⟨kind.awaitedIn.event r :: es, ?_, ?_, ?_, ?_, fun g => ?_⟩
    · rw [List.flatMap_cons, hes]
      exact congrArg (· ++ es) hone
    · rw [List.length_cons, List.length_cons, hlen]
    · rw [List.countP_cons, hconflicts]
      cases kind.awaitedIn <;> rfl
    · rw [List.filterMap_cons, List.filter_cons, hmade, hcreated]
      cases kind.awaitedIn <;> rfl
    · have hhead : .vanished g = kind.awaitedIn.event r ↔
          r.handle = g ∧ decide (PendingMap.drops = kind.awaitedIn) = true := by
        cases kind.awaitedIn with
        | drops =>
          exact ⟨fun he => ⟨(ReplicaEvent.vanished.inj he).symm, rfl⟩,
            fun he => congrArg _ he.1.symm⟩
        | flags | content | creates => simp [PendingMap.event]
      rw [List.mem_cons, hvanished, List.exists_mem_cons_iff, hgone, hhead]

theorem ToldRun.acknowledged_iff {es : List ReplicaEvent}
    (h : ToldRun collection opts loaded snapshot t report box es) {k : ReplicaChange}
    (hk : k ∈ t.changes) {r : ReplicaPushResult} :
    t.acceptance k = some r ↔
      (r, box r.handle) ∈ box.acknowledged collection t.pushes ∧ r.handle = k.handle := by
  have hawaits : (box k.handle).awaits = true :=
    (Pending.awaits_iff _).mpr ⟨_, (h.whole.holds_iff k.kind.awaitedIn k.handle).mpr
      ⟨k, hk, rfl, rfl⟩⟩
  rw [Outbox.mem_acknowledged]
  constructor
  · intro ha
    have hh := Transcript.acceptance_handle ha
    rw [hh]
    exact ⟨⟨ha, rfl, hawaits⟩, rfl⟩
  · rintro ⟨⟨ha, -, -⟩, hh⟩
    rw [hh] at ha
    exact ha

/-- The creates told of are the Adds accepted. -/
theorem ToldRun.created_perm {es : List ReplicaEvent}
    (h : ToldRun collection opts loaded snapshot t report box es)
    (hnodup : (t.changes.map (fun k => k.handle)).Nodup) :
    (((box.acknowledged collection t.pushes).filter (fun x => x.2.created.isSome)).map (·.1)).Perm
      ((t.changes.filter (·.isAdd)).filterMap t.acceptance) := by
  have hleft : (((box.acknowledged collection t.pushes).filter
      (fun x => x.2.created.isSome)).map (·.1)).Nodup := by
    refine List.Nodup.of_map (fun r => r.handle) ?_
    rw [List.map_map]
    exact (box.acknowledged_nodup t.pushes).sublist (List.filter_sublist.map _)
  have hright : ((t.changes.filter (·.isAdd)).filterMap t.acceptance).Nodup := by
    refine List.Nodup.of_map (fun r => r.handle) ?_
    exact hnodup.sublist ((t.acceptance_sublist _).trans (List.filter_sublist.map _))
  rw [List.perm_ext_iff_of_nodup hleft hright]
  intro r
  rw [List.mem_map, List.mem_filterMap]
  constructor
  · rintro ⟨⟨r', p⟩, hx, rfl⟩
    obtain ⟨hack, hmade⟩ := List.mem_filter.mp hx
    obtain ⟨-, rfl, -⟩ := Outbox.mem_acknowledged.mp hack
    obtain ⟨k, hk, hh, hkind⟩ := (h.whole.holds_iff .creates _).mp hmade
    exact ⟨k, List.mem_filter.mpr ⟨hk, k.isAdd_iff.mpr hkind⟩,
      (h.acknowledged_iff hk).mpr ⟨hack, hh.symm⟩⟩
  · rintro ⟨k, hk, ha⟩
    obtain ⟨hk, hadd⟩ := List.mem_filter.mp hk
    obtain ⟨hack, hh⟩ := (h.acknowledged_iff hk).mp ha
    refine ⟨(r, box r.handle), List.mem_filter.mpr ⟨hack, ?_⟩, rfl⟩
    exact (h.whole.holds_iff .creates _).mpr ⟨k, hk, hh.symm, k.isAdd_iff.mp hadd⟩

/-- Where a row is dropped with its member: a removal told of, an accepted Remove, or a member both
sides deleted. -/
theorem ToldRun.dropped_iff {es : List ReplicaEvent}
    (h : ToldRun collection opts loaded snapshot t report box es) {x : ReplicaCollectionId}
    {g : ReplicaHandle} : .dropPlacement x g .deleted ∈ t.writes ↔
      x = collection ∧ ((∃ c ∈ mergedCandidates loaded snapshot, c.handle = g ∧ c.Gone) ∨
        (∃ y ∈ box.acknowledged collection t.pushes, y.1.handle = g ∧ y.2.dropped = true) ∨
        AlreadyGone loaded snapshot g) := by
  have hgone : ∀ c ∈ mergedCandidates loaded snapshot,
      (∃ p, c.loc = some p ∧ c.remote = none ∧ p.status = .tombstone) →
        AlreadyGone loaded snapshot c.handle := by
    rintro c hc ⟨p, hp, hr, hs⟩
    have hat := (mem_mergedCandidates c).mp hc
    refine ⟨p, (Merge.candidateAt_spec hat).2.symm.trans hp, hs, ?_⟩
    rw [Merge.seen, hat]
    exact hr
  rw [h.whole.writes, Outbox.recordAll_acknowledged]
  simp only [List.mem_append, List.mem_flatMap, List.mem_singleton, reduceCtorEq, or_false]
  constructor
  · rintro (⟨c, hc, hop⟩ | ⟨⟨r, p⟩, hy, hop⟩)
    · obtain ⟨hx, rfl, hcand⟩ := (effect_dropped collection opts (mergedCandidates_paired hc)).mp hop
      rcases hcand with hcand | hcand
      · exact ⟨hx, Or.inl ⟨c, hc, rfl, hcand⟩⟩
      · exact ⟨hx, Or.inr (Or.inr (hgone c hc hcand))⟩
    · obtain ⟨hx, hr, hdropped⟩ := Pending.record_dropped.mp hop
      exact ⟨hx, Or.inr (Or.inl ⟨(r, p), hy, hr, hdropped⟩)⟩
  · rintro ⟨rfl, ⟨c, hc, rfl, hcand⟩ | ⟨⟨r, p⟩, hy, rfl, hdropped⟩ | ⟨p, hp, hs, hseen⟩⟩
    · exact Or.inl ⟨c, hc, (effect_dropped x opts (mergedCandidates_paired hc)).mpr
        ⟨rfl, rfl, Or.inl hcand⟩⟩
    · exact Or.inr ⟨(r, p), hy, Pending.record_dropped.mpr ⟨rfl, rfl, hdropped⟩⟩
    · let c : Candidate := ⟨g, some p, none⟩
      have hlive : p.status ≠ .clean := by rw [hs]; decide
      have hat := Merge.candidateAt_seen snapshot hp hlive
      rw [hseen] at hat
      have hc : c ∈ mergedCandidates loaded snapshot := (mem_mergedCandidates c).mpr hat
      exact Or.inl ⟨c, hc, (effect_dropped x opts (mergedCandidates_paired hc)).mpr
        ⟨rfl, rfl, Or.inr ⟨p, rfl, rfl, hs⟩⟩⟩

/-- The removals told of are those of members deleted remotely and those accepted. -/
theorem ToldRun.removals {es : List ReplicaEvent}
    (h : ToldRun collection opts loaded snapshot t report box es) (g : ReplicaHandle) :
    ((∃ c ∈ mergedCandidates loaded snapshot, c.handle = g ∧ c.Gone) ∨
        ∃ y ∈ box.acknowledged collection t.pushes, y.1.handle = g ∧ y.2.dropped = true) ↔
      .dropPlacement collection g .deleted ∈ t.writes ∧
        (RemoteDeleted loaded snapshot g ∨ t.RemoveAccepted g) := by
  constructor
  · rintro (hcand | hack)
    · refine ⟨h.dropped_iff.mpr ⟨rfl, Or.inl hcand⟩, Or.inl ?_⟩
      obtain ⟨c, hc, rfl, p, hp, hr, hb, hs, -⟩ := hcand
      have hat := (mem_mergedCandidates c).mp hc
      have hseen : Merge.candidateAt (collectPlacements loaded.placements) snapshot c.handle =
          some ⟨c.handle, some p, none⟩ := by rw [hat, ← hp, ← hr]
      exact ⟨p, (Merge.candidateAt_spec hat).2.symm.trans hp, hb, hs, gone_of_seen hb hseen⟩
    · refine ⟨h.dropped_iff.mpr ⟨rfl, Or.inr (Or.inl hack)⟩, Or.inr ?_⟩
      obtain ⟨⟨r, p⟩, hack, rfl, hdropped⟩ := hack
      obtain ⟨-, rfl, -⟩ := Outbox.mem_acknowledged.mp hack
      obtain ⟨k, hk, hh, hkind⟩ := (h.whole.holds_iff .drops _).mp hdropped
      have ha := (h.acknowledged_iff hk).mpr ⟨hack, hh.symm⟩
      exact ⟨k, hk, hh, k.isRemove_iff.mpr hkind, Option.isSome_iff_exists.mpr ⟨r, ha⟩⟩
  · rintro ⟨hop, ⟨p, hp, hb, hs, hgone⟩ | ⟨k, hk, rfl, hremove, ha⟩⟩
    · have hh : p.handle = g := CollectionRows.collect_keyed hp
      subst hh
      have hrow : (CollectionRows.ofLoad loaded.placements).rows[p.handle]? = some p := hp
      let c : Candidate := ⟨p.handle, some p, none⟩
      have hc : c ∈ mergedCandidates loaded snapshot :=
        (mem_mergedCandidates c).mpr (seen_of_gone hrow hgone)
      refine Or.inl ⟨c, hc, rfl, p, rfl, rfl, hb, hs, ?_⟩
      -- an edit would have survived the delete, and its row would not be dropped
      cases he : editedAgainstDelete p with
      | false => rfl
      | true =>
        have hsurvives := h.whole.edit_survives hrow (edited_of_against he) hgone hb
        exact absurd hop (hsurvives.undeleted _)
    · obtain ⟨r, hr⟩ := Option.isSome_iff_exists.mp ha
      obtain ⟨hack, hh⟩ := (h.acknowledged_iff hk).mp hr
      exact Or.inr ⟨_, hack, hh, (h.whole.holds_iff .drops _).mpr
        ⟨k, hk, hh.symm, k.isRemove_iff.mp hremove⟩⟩

/-- Whatever is stored, listed and answered, a run's report sums up what it did: each event is counted
once, the creates told of are the Adds accepted, and the removals the rows dropped with their
member. -/
theorem report_summarises (h : Reports collection opts loaded snapshot t report) :
    Summarises collection loaded snapshot t report := by
  obtain ⟨box, es, htold⟩ := h.told
  have hawaited : ∀ x ∈ box.acknowledged collection t.pushes,
      x.2 = box x.1.handle ∧ x.2.awaits = true := by
    rintro ⟨r, p⟩ hx
    obtain ⟨-, hp, ha⟩ := Outbox.mem_acknowledged.mp hx
    exact ⟨hp, ha⟩
  obtain ⟨fs, hfs, hlen, hconflicts, hcreated, hvanished⟩ := htold.whole.announces hawaited
  have hevents : report.events = es ++ fs := by rw [htold.events, hfs]
  have htells : ∀ g, .vanished g ∈ report.events ↔
      (∃ c ∈ mergedCandidates loaded snapshot, c.handle = g ∧ c.Gone) ∨
        ∃ y ∈ box.acknowledged collection t.pushes, y.1.handle = g ∧ y.2.dropped = true := by
    intro g
    rw [hevents, List.mem_append, htold.vanished, hvanished]
  refine ⟨?_, ?_, ?_, ?_, ?_⟩
  · have hes := ReplicaEvent.length_eq_counts htold.uncreated
    rw [hevents, List.length_append, hlen, htold.pulled, htold.pushed, htold.refreshed,
      htold.conflicts]
    omega
  · rw [hevents, List.countP_append, hconflicts, htold.conflicts]
    rfl
  · have hnone : es.filterMap (·.created?) = [] := by
      rw [List.filterMap_eq_nil_iff]
      intro e he
      cases e with
      | created g => exact absurd he (htold.uncreated g)
      | added | flagsChanged | contentChanged | vanished | conflicted => rfl
    have hperm := (htold.created_perm h.syncs.changes_nodup).map
      (fun r => r.assigned.getD r.handle)
    rw [List.map_map, List.map_filterMap] at hperm
    rw [hevents, List.filterMap_append, hnone, hcreated, List.nil_append]
    exact hperm
  · intro g
    rw [htells, htold.removals]
  · intro c g hop
    obtain ⟨rfl, hwhy⟩ := htold.dropped_iff.mp hop
    refine ⟨rfl, ?_⟩
    rw [htells, or_assoc]
    exact hwhy

/-- A card gone remotely, one deleted locally and one created, both pushed and accepted. -/
def reportedSeam : Seam where
  rows := CollectionRows.empty.apply [
    .upsertPlacement { StagedEdit.card with status := .clean, object := some ⟨"old"⟩ },
    .upsertPlacement { StagedEdit.card with handle := ⟨"b"⟩, status := .tombstone },
    .upsertPlacement { StagedEdit.card with handle := ⟨"c"⟩, status := .created, base := none }]
  checkpoint := none
  snapshot := ⟨[⟨⟨"b"⟩, .empty, some "1"⟩], [], true, ⟨[]⟩⟩
  replies := [[⟨⟨"c"⟩, .accepted, some ⟨"9"⟩, some "1"⟩, ⟨⟨"b"⟩, .accepted, none, none⟩]]

theorem reported_run : ∃ t report,
    Reports ⟨"contacts"⟩ .default ⟨reportedSeam.rows.placements, none⟩ reportedSeam.snapshot t
      report ∧
    Summarises ⟨"contacts"⟩ ⟨reportedSeam.rows.placements, none⟩ reportedSeam.snapshot t report ∧
    report.events = [.vanished ⟨"a"⟩, .created ⟨"9"⟩, .vanished ⟨"b"⟩] := by
  have hrun : (Coroutine.drive ReplicaSync.resume Seam.service 9
      (new ⟨"contacts"⟩ .default) none reportedSeam).map (fun o =>
        o.2.2.toOption.map (fun report => report.events)) =
      some (some [.vanished ⟨"a"⟩, .created ⟨"9"⟩, .vanished ⟨"b"⟩]) := by decide +kernel
  obtain ⟨⟨s, t, r⟩, hd, heq⟩ := Option.map_eq_some_iff.mp hrun
  cases r with
  | error e => cases heq
  | ok report =>
    obtain ⟨rest, report', ht, -⟩ := (Seam.drive_syncs hd).1
    have hreports : Reports ⟨"contacts"⟩ .default ⟨reportedSeam.rows.placements, none⟩
        reportedSeam.snapshot t report := ⟨rest, ht, (Coroutine.drive_runs hd).1⟩
    exact ⟨t, report, hreports, report_summarises hreports, Option.some.inj heq⟩

end Runs

end IoReplica

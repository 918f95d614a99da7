import IoReplica.Sync.Delta
import IoReplica.Sync.Present

/-! A run that pushes nothing and settles no delete: every arm of its merge lands the row where a
second visit leaves it alone. -/
namespace IoReplica

/-- Options that push nothing and keep the deletes they do not take. -/
structure ReplicaSyncOptions.Muted (opts : ReplicaSyncOptions) : Prop where
  push : opts.push = false
  delete : opts.delete = .keep

namespace ReplicaSyncOptions.Muted
variable {opts : ReplicaSyncOptions} (h : opts.Muted)
include h

theorem mayContent : opts.mayContent = false := by simp [ReplicaSyncOptions.mayContent, h.push]

theorem mayFlags : opts.mayFlags = false := by simp [ReplicaSyncOptions.mayFlags, h.push]

theorem mayAdd : opts.mayAdd = false := by simp [ReplicaSyncOptions.mayAdd, h.push]

theorem mayRemove : opts.mayRemove = false := by simp [ReplicaSyncOptions.mayRemove, h.push]

end ReplicaSyncOptions.Muted

/-- A Created row is a live one without a base, and carries a body. -/
structure Formed (p : ReplicaPlacement) : Prop where
  created : p.status = .created ↔ p.base = none ∧ p.status ≠ .tombstone
  body : p.status = .created → p.object.isSome

namespace ReplicaSync

/-- The item reports no content the row does not know of. -/
def Knows (p : ReplicaPlacement) (item : ReplicaRemoteItem) : Prop :=
  movedFrom item (if p.status = .conflict then p.conflictRevision else p.baseRevision) = false

/-- Where the content axis of a muted run leaves a row. -/
structure ContentLands (item : ReplicaRemoteItem) (p q : ReplicaPlacement) : Prop where
  handle : q.handle = p.handle
  flags : q.flags = p.flags
  baseFlags : q.baseFlags = p.baseFlags
  live : q.status ≠ .tombstone
  knows : Knows q item
  latest : item.revision = p.conflictRevision.or p.baseRevision →
    q.conflictRevision.or q.baseRevision = item.revision

/-- The writes of a merge of `p`: its own row, or a fork of it. -/
def OwnOrFork (collection : ReplicaCollectionId) (p : ReplicaPlacement)
    (ops : List ReplicaWriteOp) : Prop :=
  ∀ op ∈ ops, op.row = some p.handle ∨
    ∃ o, op = .upsertPlacement (forkedPlacement collection p o)

theorem movedFrom_self (item : ReplicaRemoteItem) : movedFrom item item.revision = false := by
  simp [movedFrom]

theorem ContentLands.refreshed {p : ReplicaPlacement} {item : ReplicaRemoteItem} {base : ReplicaBase}
    (hb : p.base = some base) (hlive : p.status ≠ .tombstone) (hconflict : p.status ≠ .conflict) :
    ContentLands item p (refreshedPlacement p item) := by
  have hrev : (refreshedPlacement p item).baseRevision = item.revision := by
    simp [refreshedPlacement, ReplicaPlacement.baseRevision, hb]
  refine ⟨rfl, rfl, ?_, hlive, ?_, ?_⟩
  · simp [refreshedPlacement, ReplicaPlacement.baseFlags, hb]
  · have hs : (refreshedPlacement p item).status ≠ .conflict := hconflict
    rw [Knows, if_neg hs, hrev]
    exact movedFrom_self item
  · intro hknown
    rw [hrev]
    have hcr : (refreshedPlacement p item).conflictRevision = p.conflictRevision := rfl
    rw [hcr]
    cases hc : p.conflictRevision with
    | none => rfl
    | some r =>
      rw [hc, Option.some_or] at hknown
      rw [Option.some_or, hknown]

theorem ContentLands.conflicted {p : ReplicaPlacement} {item : ReplicaRemoteItem}
    (hrev : item.revision.isSome) : ContentLands item p (conflictedPlacement p item) := by
  refine ⟨rfl, rfl, rfl, by simp [conflictedPlacement], ?_, ?_⟩
  · have hs : (conflictedPlacement p item).status = .conflict := rfl
    rw [Knows, if_pos hs]
    exact movedFrom_self item
  · intro _
    obtain ⟨r, hr⟩ := Option.isSome_iff_exists.mp hrev
    simp [conflictedPlacement, hr]

theorem ContentLands.known {p : ReplicaPlacement} {item : ReplicaRemoteItem}
    (hlive : p.status ≠ .tombstone) (hknows : Knows p item) : ContentLands item p p :=
  ⟨rfl, rfl, rfl, hlive, hknows, fun h => h.symm⟩

/-- What the content axis of a muted run queues and decides: the last row it queues is the one it
hands on, if it queues one. -/
structure ContentQueues (collection : ReplicaCollectionId) (item : ReplicaRemoteItem)
    (p q : ReplicaPlacement) (a b : ReplicaSync) (outcome : ContentOutcome)
    (ops : List ReplicaWriteOp) : Prop where
  opts : b.opts = a.opts
  writes : b.writes = a.writes ++ ops
  outcome : outcome = .rewritten q ∨ (outcome = .untouched ∧ q = p)
  row : rowAfter p.handle (some p) ops = some q
  own : OwnOrFork collection p ops

variable {collection : ReplicaCollectionId} {item : ReplicaRemoteItem} {p : ReplicaPlacement}

theorem ContentQueues.nothing (a : ReplicaSync) :
    ContentQueues collection item p p a a .untouched [] :=
  ⟨rfl, by simp, Or.inr ⟨rfl, rfl⟩, rfl, fun op hop => by cases hop⟩

theorem OwnOrFork.upsert {q : ReplicaPlacement} (hq : q.handle = p.handle) :
    OwnOrFork collection p [.upsertPlacement q] := by
  intro op hop
  rw [List.mem_singleton.mp hop]
  exact Or.inl (congrArg some hq)

theorem pullContent_queues (a : ReplicaSync) :
    ContentQueues collection item p (refreshedPlacement p item) a (a.pullContent p item).1
      (.rewritten (a.pullContent p item).2) [.upsertPlacement (refreshedPlacement p item)] :=
  ⟨rfl, rfl, Or.inl rfl, by simp [refreshedPlacement], .upsert rfl⟩

theorem markConflict_queues (a : ReplicaSync) :
    ContentQueues collection item p (conflictedPlacement p item) a (a.markConflict p item).1
      (a.markConflict p item).2 [.upsertPlacement (conflictedPlacement p item)] :=
  ⟨rfl, rfl, Or.inl rfl, by simp [conflictedPlacement], .upsert rfl⟩

/-- A content conflict a muted run resolves: marked, or pulled beside a fork of the local body. -/
theorem resolveConflict_queues (a : ReplicaSync) {base : ReplicaBase} {o : ReplicaHash}
    (hmuted : a.opts.Muted) (hb : p.base = some base) (ho : p.object = some o)
    (hlive : p.status ≠ .tombstone) (hconflict : p.status ≠ .conflict)
    (hmoved : movedFrom item base.revision = true) :
    ∃ q ops, ContentQueues a.collection item p q a (a.resolveConflict p item).1
      (a.resolveConflict p item).2 ops ∧ ContentLands item p q := by
  have hrev : item.revision.isSome := by
    simp only [movedFrom, Bool.and_eq_true] at hmoved
    exact hmoved.1
  cases hpolicy : a.opts.conflict with
  | manual =>
    simp only [resolveConflict, hpolicy]
    exact ⟨_, _, markConflict_queues a, .conflicted hrev⟩
  | preferRemote =>
    simp only [resolveConflict, hpolicy]
    exact ⟨_, _, pullContent_queues a, .refreshed hb hlive hconflict⟩
  | preferLocal =>
    simp only [resolveConflict, hpolicy, hmuted.mayContent, Bool.not_false, if_true]
    exact ⟨_, _, markConflict_queues a, .conflicted hrev⟩
  | keepBoth =>
    simp only [resolveConflict, hpolicy, stageConflictDup, ho]
    refine ⟨refreshedPlacement p item, [.upsertPlacement (forkedPlacement a.collection p o),
      .upsertPlacement (refreshedPlacement p item)], ⟨rfl, ?_, Or.inl rfl, ?_, ?_⟩,
      .refreshed hb hlive hconflict⟩
    · simp [pullContent, upsert, write, countRefreshed, emit]
    · simp [refreshedPlacement]
    · intro op hop
      rcases List.mem_cons.mp hop with rfl | hop
      · exact Or.inr ⟨o, rfl⟩
      · rw [List.mem_singleton.mp hop]
        exact Or.inl rfl

/-- A muted run's content axis leaves a row its next visit finds nothing new for. -/
theorem reconcileContent_queues (a : ReplicaSync) (hmuted : a.opts.Muted) (hf : Formed p)
    (hlive : p.status ≠ .tombstone) (item : ReplicaRemoteItem) :
    ∃ q ops, ContentQueues a.collection item p q a (a.reconcileContent p item).1
      (a.reconcileContent p item).2 ops ∧ ContentLands item p q := by
  cases hb : p.base with
  | none =>
    have hcreated : p.status = .created := hf.created.mpr ⟨hb, hlive⟩
    simp only [reconcileContent, hb, hf.body hcreated, Bool.true_and]
    by_cases hrev : item.revision.isSome
    · rw [if_pos hrev]
      exact ⟨_, _, markConflict_queues a, .conflicted hrev⟩
    · rw [if_neg hrev]
      refine ⟨p, [], .nothing a, .known hlive ?_⟩
      simp only [Bool.not_eq_true, Option.isSome_eq_false_iff, Option.isNone_iff_eq_none] at hrev
      simp [Knows, movedFrom, hrev]
  | some base =>
    have hbr : p.baseRevision = base.revision := by simp [ReplicaPlacement.baseRevision, hb]
    simp only [reconcileContent, hb]
    by_cases hc : p.status = .conflict
    · rw [if_pos hc]
      by_cases hm : movedFrom item p.conflictRevision
      · rw [if_pos hm]
        have hrev : item.revision.isSome := by
          simp only [movedFrom, Bool.and_eq_true] at hm
          exact hm.1
        obtain ⟨r, hr⟩ := Option.isSome_iff_exists.mp hrev
        refine ⟨_, [.upsertPlacement _], ⟨rfl, rfl, Or.inl rfl, by simp, .upsert rfl⟩, ?_⟩
        refine ⟨rfl, rfl, by simp [ReplicaPlacement.baseFlags, hb], hlive, ?_, ?_⟩
        · rw [Knows, if_pos hc]
          exact movedFrom_self item
        · intro _
          simp [hr]
      · rw [if_neg hm]
        refine ⟨p, [], .nothing a, .known hlive ?_⟩
        rw [Knows, if_pos hc]
        exact Bool.eq_false_iff.mpr hm
    · rw [if_neg hc]
      cases hl : localChanged p base <;> cases hm : movedFrom item base.revision <;> dsimp only
      · exact ⟨p, [], .nothing a, .known hlive (by rw [Knows, if_neg hc, hbr, hm])⟩
      · exact ⟨_, _, pullContent_queues a, .refreshed hb hlive hc⟩
      · rw [hmuted.mayContent]
        exact ⟨p, [], .nothing a, .known hlive (by rw [Knows, if_neg hc, hbr, hm])⟩
      · have ho : p.object.isSome := by
          simp only [localChanged, Bool.and_eq_true] at hl
          exact hl.1.2
        obtain ⟨o, ho⟩ := Option.isSome_iff_exists.mp ho
        exact resolveConflict_queues a hmuted hb ho hlive hc hm

theorem flagRow_none {p : ReplicaPlacement} {base : ReplicaBase} {item : ReplicaRemoteItem} :
    flagRow base p item = none ↔ mergedFlags base p item = p.flags ∧
      (mergedFlags base p item = item.flags →
        p.flags = base.flags ∧ ¬ (p.status = .dirty ∧ contentEdit p = false)) := by
  simp only [flagRow]
  split_ifs with hm hwrites hpull
  · refine ⟨fun h => (by cases h), fun h => ?_⟩
    obtain ⟨hflags, hdirty⟩ := h.2 hm
    rcases hwrites with hw | hw | hw
    · exact absurd h.1 hw
    · exact absurd hflags hw
    · exact absurd hw hdirty
  · simp only [not_or, not_not] at hwrites
    exact ⟨fun _ => ⟨hwrites.1, fun _ => hwrites.2⟩, fun _ => rfl⟩
  · exact ⟨fun h => (by cases h), fun h => absurd h.1 hpull⟩
  · exact ⟨fun _ => ⟨not_not.mp hpull, fun h => absurd h hm⟩, fun _ => rfl⟩

/-- The row the flag axis writes, if it writes one: a never-based row converges on the remote. -/
def flagWritten (p : ReplicaPlacement) (item : ReplicaRemoteItem) : Option ReplicaPlacement :=
  match p.base with
  | none => some (settledRow p item.flags)
  | some base => flagRow base p item

theorem flagWritten_based {p : ReplicaPlacement} {base : ReplicaBase} (hb : p.base = some base)
    (item : ReplicaRemoteItem) : flagWritten p item = flagRow base p item := by
  simp only [flagWritten, hb]

/-- Neither axis has anything to write for the row. -/
structure AtRest (p : ReplicaPlacement) (item : ReplicaRemoteItem) : Prop where
  live : p.status ≠ .tombstone
  knows : Knows p item
  flags : flagWritten p item = none

theorem AtRest.base {p : ReplicaPlacement} {item : ReplicaRemoteItem} (h : AtRest p item) :
    ∃ base, p.base = some base ∧ flagRow base p item = none := by
  have hflags := h.flags
  cases hb : p.base with
  | none => simp [flagWritten, hb] at hflags
  | some base =>
    simp only [flagWritten, hb] at hflags
    exact ⟨base, rfl, hflags⟩

theorem settledStatus_live {p : ReplicaPlacement} (h : p.status ≠ .tombstone) :
    settledStatus p ≠ .tombstone := by
  simp only [settledStatus]
  split
  · simp
  · exact h

theorem settledStatus_conflict (p : ReplicaPlacement) :
    settledStatus p = .conflict ↔ p.status = .conflict := by
  simp only [settledStatus]
  split
  · rename_i h
    simpa using h
  · exact Iff.rfl

theorem knows_settledRow {p : ReplicaPlacement} {item : ReplicaRemoteItem} (flags : ReplicaFlags)
    (h : Knows p item) : Knows (settledRow p flags) item := by
  have hrev : (settledRow p flags).baseRevision = p.baseRevision := rfl
  have hcr : (settledRow p flags).conflictRevision = p.conflictRevision := rfl
  have hs : (settledRow p flags).status = .conflict ↔ p.status = .conflict :=
    settledStatus_conflict p
  rw [Knows] at h ⊢
  simp only [hs, hrev, hcr]
  exact h

/-- A row just converged on a flag set has nothing left to write for it. -/
theorem flagRow_settledRow {p : ReplicaPlacement} {item : ReplicaRemoteItem} {base : ReplicaBase}
    (hb : (settledRow p item.flags).base = some base) :
    flagRow base (settledRow p item.flags) item = none := by
  have hbase : base = ⟨item.flags, p.baseRevision, p.baseObject⟩ := by
    simp only [settledRow, flagBase, Option.some.injEq] at hb
    exact hb.symm
  have hdirty : (settledRow p item.flags).status ≠ .dirty := by
    simp only [settledRow, settledStatus]
    split
    · simp
    · rename_i h
      simp only [not_not] at h
      simp [h]
  have hflags : (settledRow p item.flags).flags = item.flags := rfl
  have hbf : base.flags = item.flags := by rw [hbase]
  simp [flagRow, mergedFlags, hflags, hbf, hdirty]

/-- Where the flag axis leaves a row: at rest, its revisions untouched. -/
structure FlagsLand (item : ReplicaRemoteItem) (p q : ReplicaPlacement) : Prop where
  handle : q.handle = p.handle
  rest : AtRest q item
  conflictRevision : q.conflictRevision = p.conflictRevision
  baseRevision : q.baseRevision = p.baseRevision
  baseFlags : p.baseFlags = some item.flags → q.baseFlags = some item.flags

theorem flagWritten_lands {p : ReplicaPlacement} {item : ReplicaRemoteItem}
    (hlive : p.status ≠ .tombstone) (hknows : Knows p item) :
    FlagsLand item p ((flagWritten p item).getD p) := by
  have hsettled : FlagsLand item p (settledRow p item.flags) := by
    refine ⟨rfl, ⟨settledStatus_live hlive, knows_settledRow _ hknows, ?_⟩, rfl, rfl, fun _ => rfl⟩
    have hb : (settledRow p item.flags).base = some ⟨item.flags, p.baseRevision, p.baseObject⟩ := rfl
    simp only [flagWritten, hb]
    exact flagRow_settledRow hb
  cases hb : p.base with
  | none =>
    simp only [flagWritten, hb, Option.getD_some]
    exact hsettled
  | some base =>
    rw [flagWritten_based hb]
    cases hrow : flagRow base p item with
    | none =>
      exact ⟨rfl, ⟨hlive, hknows, (flagWritten_based hb item).trans hrow⟩, rfl, rfl, id⟩
    | some q =>
      rw [Option.getD_some]
      simp only [flagRow] at hrow
      split at hrow
      · rename_i hm
        split at hrow
        · cases hrow
          rw [hm]
          exact hsettled
        · cases hrow
      · rename_i hm
        split at hrow
        · cases hrow
          refine ⟨rfl, ⟨hlive, hknows, ?_⟩, rfl, rfl, id⟩
          have habsorb : mergedFlags base { p with flags := mergedFlags base p item } item =
              mergedFlags base p item := ReplicaFlags.merge_absorb _ _ _
          refine (flagWritten_based (p := { p with flags := mergedFlags base p item }) hb item).trans ?_
          rw [flagRow_none, habsorb]
          exact ⟨rfl, fun h => absurd h hm⟩
        · cases hrow

/-- A muted flag axis has nothing to do for a row at rest. -/
theorem reconcileFlags_rest (a : ReplicaSync) (hmuted : a.opts.Muted) {p : ReplicaPlacement}
    {item : ReplicaRemoteItem} (h : AtRest p item) :
    a.reconcileFlags p item .derive = (a, none) := by
  obtain ⟨base, hb, hrow⟩ := h.base
  have hbf : p.baseFlags = some base.flags := by simp [ReplicaPlacement.baseFlags, hb]
  obtain ⟨hpull, hpush⟩ := flagRow_none.mp hrow
  have hpull' : decide (ReplicaFlags.merge base.flags p.flags item.flags ≠ p.flags) = false :=
    decide_eq_false (not_not.mpr hpull)
  simp only [reconcileFlags, hbf]
  by_cases hm : ReplicaFlags.merge base.flags p.flags item.flags = item.flags
  · have hm' : decide (ReplicaFlags.merge base.flags p.flags item.flags ≠ item.flags) = false := by
      simpa using hm
    obtain ⟨hflags, hdirty⟩ := hpush hm
    have hdone : ¬ (p.flags ≠ base.flags ∨ (p.status = .dirty ∧ contentEdit p = false)) :=
      fun h => h.elim (fun hne => hne hflags) hdirty
    rw [hpull', hm']
    simp only [if_neg hdone]
  · have hm' : decide (ReplicaFlags.merge base.flags p.flags item.flags ≠ item.flags) = true := by
      simpa using hm
    rw [hpull', hm']
    simp [hmuted.mayFlags]

/-- A muted content axis has nothing to do for a row that knows of what is reported. -/
theorem reconcileContent_rest (a : ReplicaSync) (hmuted : a.opts.Muted) {p : ReplicaPlacement}
    {item : ReplicaRemoteItem} (h : AtRest p item) :
    a.reconcileContent p item = (a, .untouched) := by
  obtain ⟨base, hb, -⟩ := h.base
  have hknows := h.knows
  have hbr : p.baseRevision = base.revision := by simp [ReplicaPlacement.baseRevision, hb]
  simp only [reconcileContent, hb]
  rw [Knows] at hknows
  by_cases hc : p.status = .conflict
  · rw [if_pos hc] at hknows
    simp [hc, hknows]
  · rw [if_neg hc, hbr] at hknows
    cases localChanged p base <;> simp [hc, hknows, hmuted.mayContent]

theorem mergePresent_rest (a : ReplicaSync) (hmuted : a.opts.Muted) {p : ReplicaPlacement}
    {item : ReplicaRemoteItem} (h : AtRest p item) : a.mergePresent p item = (a, none) := by
  simp only [mergePresent, reconcileContent_rest a hmuted h]
  exact reconcileFlags_rest a hmuted h

/-- What a muted merge of a row leaves under its handle. -/
structure MergeLands (collection : ReplicaCollectionId) (p : ReplicaPlacement)
    (out : Option ReplicaPlacement) (a : ReplicaSync) (b : ReplicaSync × Option ReplicaChangeKind)
    (ops : List ReplicaWriteOp) : Prop where
  change : b.2 = none
  writes : b.1.writes = a.writes ++ ops
  row : rowAfter p.handle (some p) ops = out
  own : OwnOrFork collection p ops

theorem OwnOrFork.append {ops ops' : List ReplicaWriteOp} (h : OwnOrFork collection p ops)
    (h' : OwnOrFork collection p ops') : OwnOrFork collection p (ops ++ ops') := by
  intro op hop
  rcases List.mem_append.mp hop with hop | hop
  · exact h op hop
  · exact h' op hop

/-- The flag axis of a muted run queues the row it lands on. -/
theorem reconcileFlags_queues (a : ReplicaSync) (hmuted : a.opts.Muted) (q : ReplicaPlacement)
    (item : ReplicaRemoteItem) :
    (a.reconcileFlags q item .derive).2 = none ∧
      (a.reconcileFlags q item .derive).1.writes = a.writes ++ asWrites (flagWritten q item) := by
  cases hb : q.base with
  | none =>
    have hbf : q.baseFlags = none := by simp [ReplicaPlacement.baseFlags, hb]
    simp [reconcileFlags, hbf, flagWritten, hb, asWrites, pullFlags, upsert, write, emit,
      countPulled, settledRow]
  | some base =>
    obtain ⟨hwrites, -, hchange⟩ := a.reconcileFlags_spec hb item .derive
    have hno : pushesFlags a.opts base q item .derive = false := by
      simp [pushesFlags, hmuted.mayFlags]
    rw [hno] at hchange
    exact ⟨hchange, by rw [hwrites, flagWritten_based hb]⟩

/-- A row present on both sides lands at rest, and still stands in for the same item. -/
theorem mergePresent_lands (a : ReplicaSync) (hmuted : a.opts.Muted) (hf : Formed p)
    (hlive : p.status ≠ .tombstone) (item : ReplicaRemoteItem) :
    ∃ q ops, MergeLands a.collection p (some q) a (a.mergePresent p item) ops ∧ AtRest q item ∧
      (Merge.standIn p.handle p = some item → Merge.standIn p.handle q = some item) := by
  obtain ⟨q, ops, hqueues, hlands⟩ := reconcileContent_queues a hmuted hf hlive item
  have hflags := flagWritten_lands hlands.live hlands.knows
  have hmutedB : (a.reconcileContent p item).1.opts.Muted := by rw [hqueues.opts]; exact hmuted
  obtain ⟨hchange, hwrites⟩ := reconcileFlags_queues (a.reconcileContent p item).1 hmutedB q item
  have hmerge : a.mergePresent p item = (a.reconcileContent p item).1.reconcileFlags q item .derive := by
    simp only [mergePresent]
    cases hc : a.reconcileContent p item with
    | mk b outcome =>
      rcases hqueues.outcome with ho | ⟨ho, hq⟩
      · rw [hc] at ho
        dsimp only at ho
        rw [ho]
      · rw [hc] at ho
        dsimp only at ho
        rw [ho, hq]
  rw [hmerge]
  refine ⟨(flagWritten q item).getD q, ops ++ asWrites (flagWritten q item),
    ⟨hchange, ?_, ?_, ?_⟩, hflags.rest, ?_⟩
  · rw [hwrites, hqueues.writes, List.append_assoc]
  · rw [rowAfter_append, hqueues.row]
    have hhandle := hflags.handle
    cases hw : flagWritten q item with
    | none => rfl
    | some r =>
      rw [hw, Option.getD_some] at hhandle
      simp [asWrites, hhandle, hlands.handle]
  · refine hqueues.own.append ?_
    have hhandle := hflags.handle
    cases hw : flagWritten q item with
    | none => exact fun op hop => by cases hop
    | some r =>
      rw [hw, Option.getD_some] at hhandle
      exact .upsert (hhandle.trans hlands.handle)
  · intro hstand
    obtain ⟨base, hb, hitem⟩ := Option.map_eq_some_iff.mp hstand
    obtain ⟨base', hb', -⟩ := hflags.rest.base
    have hfl : p.baseFlags = some item.flags := by
      rw [← hitem]
      simp [ReplicaPlacement.baseFlags, hb]
    have hrev : item.revision = p.conflictRevision.or p.baseRevision := by
      rw [← hitem]
      simp [ReplicaPlacement.baseRevision, hb]
    have hfl' := hflags.baseFlags (hlands.baseFlags.trans hfl)
    have hrev' := hlands.latest hrev
    rw [← hflags.conflictRevision, ← hflags.baseRevision] at hrev'
    simp only [ReplicaPlacement.baseFlags, hb', Option.map_some, Option.some.injEq] at hfl'
    simp only [ReplicaPlacement.baseRevision, hb', Option.bind_some] at hrev'
    have hh : item.handle = p.handle := by rw [← hitem]
    simp only [Merge.standIn, hb', Option.map_some, hfl', hrev', ← hh]

/-- The row a candidate's own effect leaves. -/
def landing (collection : ReplicaCollectionId) (opts : ReplicaSyncOptions) (c : Candidate) :
    Option ReplicaPlacement := rowAfter c.handle c.loc (effect collection opts c).1.writes

/-- What a muted run makes of a candidate: no change, and a row its next visit leaves alone. -/
structure Lands (collection : ReplicaCollectionId) (opts : ReplicaSyncOptions) (c : Candidate) :
    Prop where
  change : (effect collection opts c).2 = none
  own : ∀ op ∈ (effect collection opts c).1.writes, op.row = some c.handle ∨
    ∃ p o, c.loc = some p ∧ op = .upsertPlacement (forkedPlacement collection p o)
  idle : Candidate.Idle collection opts ⟨c.handle, landing collection opts c, c.remote⟩
  standIn : ∀ p q, c.loc = some p → c.remote = Merge.standIn c.handle p →
    landing collection opts c = some q → q.status ≠ .clean → Merge.standIn c.handle q = c.remote

variable {opts : ReplicaSyncOptions}

/-- A candidate that does nothing stays where it is. -/
theorem Lands.of_idle {c : Candidate} (h : c.Idle collection opts) : Lands collection opts c := by
  have hw : (effect collection opts c).1.writes = [] := by rw [h]; rfl
  have hloc : landing collection opts c = c.loc := by rw [landing, hw]; rfl
  refine ⟨by rw [h], by simp [hw], by rw [hloc]; exact h, ?_⟩
  intro p q hp hr hq _
  rw [hloc, hp, Option.some.injEq] at hq
  rw [← hq, hr]

theorem mergePresent_idle (hmuted : opts.Muted) {h : ReplicaHandle} {item : ReplicaRemoteItem}
    (hrest : AtRest p item) : Candidate.Idle collection opts ⟨h, some p, some item⟩ := by
  rw [Candidate.Idle, effect, merge_live _ _ hrest.live]
  exact mergePresent_rest _ hmuted hrest

/-- A member pulled anew is at rest against the item it was pulled from. -/
theorem pulled_rest (item : ReplicaRemoteItem) : AtRest (pulledPlacement collection item) item := by
  refine ⟨by simp [pulledPlacement], ?_, ?_⟩
  · have hs : (pulledPlacement collection item).status ≠ .conflict := by simp [pulledPlacement]
    rw [Knows, if_neg hs]
    exact movedFrom_self item
  · have hbased : (pulledPlacement collection item).base =
        some ⟨item.flags, item.revision, none⟩ := rfl
    rw [flagWritten_based hbased, flagRow_none]
    simp [mergedFlags, pulledPlacement]

theorem added_lands (hmuted : opts.Muted) {h : ReplicaHandle} {loc : Option ReplicaPlacement}
    (hi : item.handle = h)
    (heffect : (effect collection opts ⟨h, loc, some item⟩) =
      (new collection opts).mergeAdded h item) :
    Lands collection opts ⟨h, loc, some item⟩ := by
  have hw : (effect collection opts ⟨h, loc, some item⟩).1.writes =
      [.upsertPlacement (pulledPlacement collection item)] := by rw [heffect]; rfl
  have hloc : landing collection opts ⟨h, loc, some item⟩ =
      some (pulledPlacement collection item) := by
    rw [landing, hw]
    simp [pulledPlacement, hi]
  refine ⟨by rw [heffect]; rfl, ?_, ?_, ?_⟩
  · rw [hw]
    intro op hop
    rw [List.mem_singleton.mp hop]
    exact Or.inl (congrArg some hi)
  · rw [hloc]
    exact mergePresent_idle hmuted (pulled_rest item)
  · intro p q _ _ hq hclean
    rw [hloc, Option.some.injEq] at hq
    rw [← hq] at hclean
    exact absurd rfl hclean

theorem tombstone_lands (hmuted : opts.Muted) {h : ReplicaHandle} (hi : item.handle = h) (hs : p.status = .tombstone) :
    Lands collection opts ⟨h, some p, some item⟩ := by
  have hmay : (new collection opts).opts.Muted := hmuted
  have hkeep : (new collection opts).refuseDelete p = (new collection opts, none) := by
    have hd : (new collection opts).opts.delete = .keep := hmuted.delete
    simp [refuseDelete, hd]
  have hmerge := merge_tombstone (new collection opts) h hs (some item)
  dsimp only at hmerge
  by_cases hb : p.base.isSome
  · rw [if_pos hb] at hmerge
    by_cases hmoved : movedFrom item p.baseRevision
    · refine added_lands hmuted hi (hmerge.trans ?_)
      simp only [mergeTombstone, if_pos hmoved, mergeAdded]
    · refine .of_idle (hmerge.trans ?_)
      simp [mergeTombstone, hmoved, hmay.mayContent, hmay.mayRemove, hkeep]
  · rw [if_neg hb] at hmerge
    exact added_lands hmuted hi hmerge

theorem present_lands (hmuted : opts.Muted) {h : ReplicaHandle} (hp : p.handle = h) (hf : Formed p)
    (hs : p.status ≠ .tombstone) : Lands collection opts ⟨h, some p, some item⟩ := by
  subst hp
  have hmerge : effect collection opts ⟨p.handle, some p, some item⟩ =
      (new collection opts).mergePresent p item := merge_live _ _ hs _
  obtain ⟨q, ops, hlands, hrest, hstand⟩ := mergePresent_lands (new collection opts) hmuted hf hs item
  have hw : (effect collection opts ⟨p.handle, some p, some item⟩).1.writes = ops := by
    rw [hmerge, hlands.writes]
    rfl
  have hloc : landing collection opts ⟨p.handle, some p, some item⟩ = some q := by
    rw [landing, hw, hlands.row]
  refine ⟨by rw [hmerge, hlands.change], ?_, ?_, ?_⟩
  · rw [hw]
    intro op hop
    exact (hlands.own op hop).imp_right (fun ⟨o, ho⟩ => ⟨p, o, rfl, ho⟩)
  · rw [hloc]
    exact mergePresent_idle hmuted hrest
  · intro p' q' hp' hr hq _
    cases hp'
    rw [hloc, Option.some.injEq] at hq
    rw [← hq]
    exact hstand hr.symm

/-- Nothing is left to do for a row the remote does not report, but a delete both agree on. -/
theorem absent_lands (hmuted : opts.Muted) {h : ReplicaHandle} (hp : p.handle = h) :
    Lands collection opts ⟨h, some p, none⟩ := by
  have hdrop : ∀ {a : ReplicaSync × Option ReplicaChangeKind} {reason : ReplicaDropReason},
      effect collection opts ⟨h, some p, none⟩ = a → a.2 = none →
      a.1.writes = [.dropPlacement collection h reason] → Lands collection opts ⟨h, some p, none⟩ := by
    intro a reason heffect hchange hw
    have hloc : landing collection opts ⟨h, some p, none⟩ = none := by
      rw [landing, heffect, hw]
      simp
    refine ⟨by rw [heffect, hchange], ?_, ?_, ?_⟩
    · rw [heffect, hw]
      intro op hop
      rw [List.mem_singleton.mp hop]
      exact Or.inl rfl
    · rw [hloc]
      rfl
    · intro p' q _ _ hq
      rw [hloc] at hq
      cases hq
  have hadd : (new collection opts).opts.mayAdd = false := hmuted.mayAdd
  by_cases hs : p.status = .tombstone
  · exact hdrop (merge_tombstone _ _ hs none) rfl rfl
  · have hmerge := merge_live (new collection opts) h hs none
    dsimp only at hmerge
    by_cases hb : p.base.isSome
    · rw [if_pos hb] at hmerge
      by_cases hedited : editedAgainstDelete p
      · have heffect : effect collection opts ⟨h, some p, none⟩ =
            ((new collection opts).upsert (resurrectedPlacement p), none) := by
          refine hmerge.trans ?_
          have hmay : ((new collection opts).upsert (resurrectedPlacement p)).opts.mayAdd = false :=
            hadd
          simp [mergeVanished, hedited, hmay]
        have hw : (effect collection opts ⟨h, some p, none⟩).1.writes =
            [.upsertPlacement (resurrectedPlacement p)] := by rw [heffect]; rfl
        have hloc : landing collection opts ⟨h, some p, none⟩ = some (resurrectedPlacement p) := by
          rw [landing, hw]
          simp [resurrectedPlacement, hp]
        refine ⟨by rw [heffect], ?_, ?_, ?_⟩
        · rw [hw]
          intro op hop
          rw [List.mem_singleton.mp hop]
          exact Or.inl (congrArg some hp)
        · rw [hloc, Candidate.Idle, effect, merge_live _ _ (by simp [resurrectedPlacement])]
          simp [resurrectedPlacement, mergeCreate, hadd]
        · intro p' q hp' hr hq _
          cases hp'
          obtain ⟨base, hbase⟩ := Option.isSome_iff_exists.mp hb
          simp [Merge.standIn, hbase] at hr
      · refine hdrop (hmerge.trans (if_neg hedited)) rfl rfl
    · rw [if_neg hb] at hmerge
      refine .of_idle (hmerge.trans ?_)
      simp [mergeCreate, hadd]

theorem effect_lands (hmuted : opts.Muted) {c : Candidate} (hc : c.Paired)
    (hf : ∀ p, c.loc = some p → Formed p) : Lands collection opts c := by
  obtain ⟨h, loc, remote⟩ := c
  cases loc with
  | none =>
    cases remote with
    | none => exact .of_idle rfl
    | some item => exact added_lands hmuted (hc.remote item rfl) rfl
  | some p =>
    cases remote with
    | none => exact absent_lands hmuted (hc.loc p rfl)
    | some item =>
      by_cases hs : p.status = .tombstone
      · exact tombstone_lands hmuted (hc.remote item rfl) hs
      · exact present_lands hmuted (hc.loc p rfl) (hf p rfl) hs

end ReplicaSync
end IoReplica

import IoReplica.Sync.Protocol
import IoReplica.Mutate
import IoReplica.Sync.StagedEdit

/-! The rights a run is granted: no change is derived without its kind's, and a delete is applied
only once the remote took it. -/
namespace IoReplica

/-- Do the rights cover a change? -/
def ReplicaPushRights.grants (rights : ReplicaPushRights) : ReplicaChangeKind → Bool
  | .add .. => rights.add
  | .remove .. => rights.remove
  | .setFlags .. => rights.flags
  | .update .. => rights.content

namespace ReplicaSyncOptions

/-- May this run push a change? -/
def may (opts : ReplicaSyncOptions) (kind : ReplicaChangeKind) : Prop :=
  opts.push = true ∧ opts.rights.grants kind = true

variable {opts : ReplicaSyncOptions}

theorem may_add (h : opts.mayAdd = true) {g : ReplicaHandle} {link : Option ReplicaLinkId}
    {flags : ReplicaFlags} {origin : Option ReplicaOrigin} {object : Option ReplicaHash} :
    opts.may (.add g link flags origin object) := (Bool.and_eq_true _ _).mp h

theorem may_remove (h : opts.mayRemove = true) {g : ReplicaHandle}
    {dest : Option ReplicaCollectionId} {link : Option ReplicaLinkId} {ifMatch : Option String} :
    opts.may (.remove g dest link ifMatch) := (Bool.and_eq_true _ _).mp h

theorem may_setFlags (h : opts.mayFlags = true) {g : ReplicaHandle} {flags : ReplicaFlags} :
    opts.may (.setFlags g flags) := (Bool.and_eq_true _ _).mp h

theorem may_update (h : opts.mayContent = true) {g : ReplicaHandle} {object : ReplicaHash}
    {ifMatch : Option String} : opts.may (.update g object ifMatch) :=
  (Bool.and_eq_true _ _).mp h

end ReplicaSyncOptions

namespace ReplicaSync

variable {self a b c : ReplicaSync} {p : ReplicaPlacement} {item : ReplicaRemoteItem}
  {kind : ReplicaChangeKind}

theorem reconcileFlags_granted {allow : PushFlags}
    (h : (self.reconcileFlags p item allow).2 = some kind) : self.opts.may kind := by
  cases hb : p.base with
  | none => simp [reconcileFlags, ReplicaPlacement.baseFlags, hb] at h
  | some base =>
    obtain ⟨-, -, hchange⟩ := self.reconcileFlags_spec hb item allow
    rw [hchange] at h
    split at h
    · rename_i hpush
      cases h
      simp only [pushesFlags, Bool.and_eq_true] at hpush
      exact ReplicaSyncOptions.may_setFlags hpush.2
    · cases h

theorem pushContent_granted (hmay : self.opts.mayContent = true) {ifMatch : Option String}
    (h : (self.pushContent p ifMatch).2 = .push kind) : self.opts.may kind := by
  cases ho : p.object with
  | none => simp [pushContent, ho] at h
  | some object =>
    simp only [pushContent, ho, ContentOutcome.push.injEq] at h
    rw [← h]
    exact ReplicaSyncOptions.may_update hmay

theorem resolveConflict_granted (h : (self.resolveConflict p item).2 = .push kind) :
    self.opts.may kind := by
  cases hc : self.opts.conflict with
  | manual | preferRemote | keepBoth => simp [resolveConflict, hc, markConflict] at h
  | preferLocal =>
    cases hmay : self.opts.mayContent with
    | false => simp [resolveConflict, hc, hmay, markConflict] at h
    | true =>
      simp only [resolveConflict, hc, hmay] at h
      exact pushContent_granted hmay h

theorem reconcileContent_granted (h : (self.reconcileContent p item).2 = .push kind) :
    self.opts.may kind := by
  cases hb : p.base with
  | none =>
    simp only [reconcileContent, hb] at h
    split at h <;> cases h
  | some base =>
    simp only [reconcileContent, hb] at h
    split at h
    · split at h <;> cases h
    · cases hl : localChanged p base <;> cases hm : movedFrom item base.revision <;>
        simp only [hl, hm] at h
      · cases h
      · cases h
      · cases hmay : self.opts.mayContent with
        | false => simp [hmay] at h
        | true =>
          simp only [hmay] at h
          exact pushContent_granted hmay h
      · exact resolveConflict_granted h

theorem mergePresent_granted (h : (self.mergePresent p item).2 = some kind) :
    self.opts.may kind := by
  have hopts := ((Local.refl p.handle p.object self).reconcileContent item rfl).1.opts
  simp only [mergePresent] at h
  cases hc : self.reconcileContent p item with
  | mk d outcome =>
    rw [hc] at h hopts
    dsimp only at hopts
    cases outcome with
    | untouched =>
      rw [← hopts]
      exact reconcileFlags_granted h
    | rewritten q =>
      rw [← hopts]
      exact reconcileFlags_granted h
    | push change =>
      cases h
      exact reconcileContent_granted (by rw [hc])

theorem mergeTombstone_granted {g : ReplicaHandle}
    (h : (self.mergeTombstone g p item).2 = some kind) : self.opts.may kind := by
  simp only [mergeTombstone] at h
  split at h
  · cases h
  · split at h
    · cases hmay : self.opts.mayContent with
      | false => simp [hmay, refuseDelete_silent] at h
      | true =>
        cases ho : p.object with
        | none => simp [hmay, ho] at h
        | some object =>
          simp only [hmay, ho] at h
          cases h
          exact ReplicaSyncOptions.may_update hmay
    · cases hmay : self.opts.mayRemove with
      | false => simp [hmay, refuseDelete_silent] at h
      | true =>
        simp only [hmay] at h
        cases h
        exact ReplicaSyncOptions.may_remove hmay

/-- No merge derives a change its run has no right to push. -/
theorem merge_granted (self : ReplicaSync) (c : Candidate) (h : (self.merge c).2 = some kind) :
    self.opts.may kind := by
  obtain ⟨g, loc, remote⟩ := c
  cases loc with
  | none => cases remote <;> cases h
  | some p =>
    by_cases hs : p.status = .tombstone
    · rw [merge_tombstone _ _ hs] at h
      cases remote with
      | none => cases h
      | some item =>
        dsimp only at h
        split at h
        · exact mergeTombstone_granted h
        · cases h
    · rw [merge_live _ _ hs] at h
      cases remote with
      | some item => exact mergePresent_granted h
      | none =>
        dsimp only at h
        split at h
        · simp only [mergeVanished] at h
          split at h
          · cases hmay : self.opts.mayAdd with
            | false => simp [upsert, write, hmay] at h
            | true =>
              simp only [upsert, write, hmay] at h
              cases h
              exact ReplicaSyncOptions.may_add hmay
          · cases h
        · simp only [mergeCreate] at h
          split at h
          · rename_i hmay
            cases h
            exact ReplicaSyncOptions.may_add ((Bool.and_eq_true _ _).mp hmay).1
          · cases h

/-- Every write queued in between stores a row: of the handle, unless the run keeps both sides. -/
def Stores (h : ReplicaHandle) (a b : ReplicaSync) : Prop :=
  ∀ op ∈ b.writes, op ∈ a.writes ∨
    ∃ p, op = .upsertPlacement p ∧ (p.handle = h ∨ a.opts.conflict = .keepBoth)

variable {h : ReplicaHandle}

theorem Stores.refl (h : ReplicaHandle) (a : ReplicaSync) : Stores h a a :=
  fun _ hop => Or.inl hop

theorem Stores.upsert (hab : Stores h a b) {q : ReplicaPlacement}
    (hq : q.handle = h ∨ a.opts.conflict = .keepBoth) : Stores h a (b.upsert q) := by
  intro op hop
  rcases List.mem_append.mp hop with hop | hop
  · exact hab op hop
  · exact Or.inr ⟨q, List.mem_singleton.mp hop, hq⟩

theorem Stores.congr (hab : Stores h a b) (hw : c.writes = b.writes) : Stores h a c := by
  intro op hop
  exact hab op (hw ▸ hop)

theorem stores_resolveConflict (self : ReplicaSync) (p : ReplicaPlacement)
    (item : ReplicaRemoteItem) : Stores p.handle self (self.resolveConflict p item).1 := by
  have hrefl := Stores.refl p.handle self
  have hmark : Stores p.handle self (self.upsert (conflictedPlacement p item)) :=
    hrefl.upsert (Or.inl rfl)
  cases hc : self.opts.conflict with
  | manual =>
    simp only [resolveConflict, hc]
    exact hmark.congr rfl
  | preferRemote =>
    simp only [resolveConflict, hc]
    exact (hrefl.upsert (q := refreshedPlacement p item) (Or.inl rfl)).congr rfl
  | preferLocal =>
    simp only [resolveConflict, hc]
    split
    · exact hmark.congr rfl
    · cases ho : p.object <;> simp only [pushContent, ho] <;> exact hrefl.congr rfl
  | keepBoth =>
    simp only [resolveConflict, hc]
    have hdup : Stores p.handle self (self.stageConflictDup p) := by
      cases ho : p.object with
      | none =>
        simp only [stageConflictDup, ho]
        exact hrefl.congr rfl
      | some o =>
        simp only [stageConflictDup, ho]
        exact hrefl.upsert (Or.inr hc)
    exact (hdup.upsert (q := refreshedPlacement p item) (Or.inl rfl)).congr rfl

theorem stores_reconcileContent (self : ReplicaSync) (p : ReplicaPlacement)
    (item : ReplicaRemoteItem) : Stores p.handle self (self.reconcileContent p item).1 := by
  have hrefl := Stores.refl p.handle self
  cases hb : p.base with
  | none =>
    simp only [reconcileContent, hb]
    split
    · exact (hrefl.upsert (q := conflictedPlacement p item) (Or.inl rfl)).congr rfl
    · exact hrefl
  | some base =>
    simp only [reconcileContent, hb]
    split
    · split
      · exact hrefl.upsert (Or.inl rfl)
      · exact hrefl
    · cases localChanged p base <;> cases movedFrom item base.revision
      · exact hrefl
      · exact (hrefl.upsert (q := refreshedPlacement p item) (Or.inl rfl)).congr rfl
      · dsimp only
        split
        · exact hrefl
        · cases ho : p.object <;> simp only [pushContent, ho] <;> exact hrefl.congr rfl
      · exact self.stores_resolveConflict p item

theorem Stores.reconcileFlags (hab : Stores h a b) (hp : p.handle = h) (item : ReplicaRemoteItem)
    (allow : PushFlags) : Stores h a (b.reconcileFlags p item allow).1 := by
  cases hb : p.base with
  | none =>
    simp only [ReplicaSync.reconcileFlags, ReplicaPlacement.baseFlags, hb]
    exact (hab.upsert (q := { p with
      flags := item.flags, status := settledStatus p, base := flagBase p item.flags })
        (Or.inl hp)).congr rfl
  | some base =>
    obtain ⟨hwrites, -, -⟩ := b.reconcileFlags_spec hb item allow
    cases hrow : flagRow base p item with
    | none =>
      rw [hrow] at hwrites
      exact hab.congr (hwrites.trans (List.append_nil _))
    | some q =>
      rw [hrow] at hwrites
      exact (hab.upsert (Or.inl ((flagRow_handle hrow).trans hp))).congr hwrites

theorem stores_mergePresent (self : ReplicaSync) (p : ReplicaPlacement) (item : ReplicaRemoteItem) :
    Stores p.handle self (self.mergePresent p item).1 := by
  have hcontent := self.stores_reconcileContent p item
  have hnames := ((Local.refl p.handle p.object self).reconcileContent item rfl).2
  simp only [mergePresent]
  cases hc : self.reconcileContent p item with
  | mk d outcome =>
    rw [hc] at hcontent hnames
    cases outcome with
    | untouched => exact hcontent.reconcileFlags rfl item .derive
    | rewritten q => exact hcontent.reconcileFlags hnames item .derive
    | push change => exact hcontent.reconcileFlags rfl item .withhold

theorem stores_mergeTombstone (self : ReplicaSync) (hp : p.handle = h) (hi : item.handle = h) :
    Stores h self (self.mergeTombstone h p item).1 := by
  have hrefl := Stores.refl h self
  have hrefuse : Stores h self (self.refuseDelete p).1 := by
    cases hd : self.opts.delete with
    | revert =>
      simp only [refuseDelete, hd]
      exact hrefl.upsert (Or.inl hp)
    | keep =>
      simp only [refuseDelete, hd]
      exact hrefl
  simp only [mergeTombstone]
  split
  · exact (hrefl.upsert (q := pulledPlacement self.collection item) (Or.inl hi)).congr rfl
  · split
    · split
      · exact hrefuse
      · cases p.object <;> exact hrefl.congr rfl
    · split
      · exact hrefuse
      · exact hrefl.congr rfl

/-- A merge drops the row of its own candidate, and only where the remote does not show it. What
it stores is that row, unless the run keeps both sides. -/
theorem merge_writes (self : ReplicaSync) {c : Candidate} (hc : c.Paired) {op : ReplicaWriteOp}
    (hop : op ∈ (self.merge c).1.writes) : op ∈ self.writes ∨
      (∃ p, op = .upsertPlacement p ∧ (p.handle = c.handle ∨ self.opts.conflict = .keepBoth)) ∨
      c.remote = none ∧ op = .dropPlacement self.collection c.handle .deleted := by
  obtain ⟨g, loc, remote⟩ := c
  obtain ⟨hloc, hremote⟩ := hc
  have hrefl := Stores.refl g self
  cases remote with
  | some item =>
    have hi : item.handle = g := hremote item rfl
    have hpull : Stores g self (self.mergeAdded g item).1 :=
      (hrefl.upsert (q := pulledPlacement self.collection item) (Or.inl hi)).congr rfl
    have hstores : Stores g self (self.merge ⟨g, loc, some item⟩).1 := by
      cases loc with
      | none => exact hpull
      | some p =>
        have hp : p.handle = g := hloc p rfl
        by_cases hs : p.status = .tombstone
        · rw [merge_tombstone _ _ hs]
          dsimp only
          split
          · exact self.stores_mergeTombstone hp hi
          · exact hpull
        · rw [merge_live _ _ hs, ← hp]
          exact self.stores_mergePresent p item
    rcases hstores op hop with hop | hop
    · exact Or.inl hop
    · exact Or.inr (Or.inl hop)
  | none =>
    have hdropped : op ∈ self.writes ++ [ReplicaWriteOp.dropPlacement self.collection g .deleted] →
        op ∈ self.writes ∨
          (∃ p, op = .upsertPlacement p ∧ (p.handle = g ∨ self.opts.conflict = .keepBoth)) ∨
          (none : Option ReplicaRemoteItem) = none ∧
            op = .dropPlacement self.collection g .deleted := by
      intro hop
      rcases List.mem_append.mp hop with hop | hop
      · exact Or.inl hop
      · exact Or.inr (Or.inr ⟨rfl, List.mem_singleton.mp hop⟩)
    cases loc with
    | none => exact Or.inl hop
    | some p =>
      have hp : p.handle = g := hloc p rfl
      by_cases hs : p.status = .tombstone
      · rw [merge_tombstone _ _ hs] at hop
        exact hdropped hop
      · rw [merge_live _ _ hs] at hop
        dsimp only at hop
        split at hop
        · simp only [mergeVanished] at hop
          split at hop
          · have hup : Stores g self (self.upsert (resurrectedPlacement p)) :=
              hrefl.upsert (Or.inl hp)
            have hop' : op ∈ (self.upsert (resurrectedPlacement p)).writes := by
              split at hop
              · exact hop
              · exact hop
            rcases hup op hop' with hop | hop
            · exact Or.inl hop
            · exact Or.inr (Or.inl hop)
          · exact hdropped hop
        · simp only [mergeCreate] at hop
          split at hop
          · exact Or.inl hop
          · exact Or.inl hop

/-- What awaits the drop of a tombstone is the Remove derived for it. -/
theorem mergeTombstone_dropped (collection : ReplicaCollectionId) (opts : ReplicaSyncOptions)
    (h : ReplicaHandle) (p : ReplicaPlacement) (item : ReplicaRemoteItem)
    (hd : (((new collection opts).mergeTombstone h p item).1.pendingAt h).dropped = true) :
    ∃ dest link ifMatch, ((new collection opts).mergeTombstone h p item).2 =
      some (.remove h dest link ifMatch) := by
  have hnone : ((new collection opts).pendingAt h).dropped = false := by rw [new_pendingAt]; rfl
  have hrefuse : (((new collection opts).refuseDelete p).1.pendingAt h).dropped = false := by
    cases hd : (new collection opts).opts.delete <;> simp only [refuseDelete, hd] <;> exact hnone
  simp only [mergeTombstone] at hd ⊢
  split at hd
  · exact absurd (hd.symm.trans hnone) (by decide)
  · rename_i hmoved
    rw [if_neg hmoved]
    split at hd
    · split at hd
      · exact absurd (hd.symm.trans hrefuse) (by decide)
      · cases ho : p.object with
        | none =>
          rw [ho] at hd
          exact absurd (hd.symm.trans hnone) (by decide)
        | some object =>
          rw [ho] at hd
          exact absurd (hd.symm.trans hnone) (by decide)
    · rename_i hstaged
      rw [if_neg hstaged]
      split at hd
      · exact absurd (hd.symm.trans hrefuse) (by decide)
      · rename_i hmay
        rw [if_neg hmay]
        exact ⟨_, _, _, rfl⟩

/-- The writes of a run's pushes: what was queued before them, what ends them, or the record of a
result reported by then. -/
structure Vouched (a : ReplicaSync) (t : Transcript) : Prop where
  written : ∀ pre ops answer post, t = pre ++ (.wantsWrite ops, answer) :: post → ∀ op ∈ ops,
    op ∈ a.writes ++ a.closing ∨ ∃ e ∈ Transcript.pushes pre, ∃ r ∈ e.2, r.outcome = .accepted ∧
      op ∈ (a.pendingAt r.handle).record a.collection r
  silent : a.pushes = [] → ∀ e ∈ t, ∀ collection changes, e.1 ≠ .wantsPush collection changes

/-- What is left awaiting after a chunk was awaited before it. -/
theorem recorded_pending (self : ReplicaSync) (results : List ReplicaPushResult)
    (h : ReplicaHandle) : (self.recorded results).pendingAt h = self.pendingAt h ∨
      (self.recorded results).pendingAt h = .none := by
  obtain ⟨-, -, -, -, hpend⟩ := self.recorded_spec results
  rw [hpend, Outbox.forget]
  split
  · exact Or.inr rfl
  · exact (Outbox.settleAll_mem self.collection self.pendingAt results).1 h

/-- The batch after a chunk holds what was queued and what its own results record. -/
theorem recorded_writes (self : ReplicaSync) (results : List ReplicaPushResult) :
    ∀ op ∈ (self.recorded results).writes ++ self.closing,
      op ∈ self.writes ++ self.closing ∨ ∃ r ∈ results, r.outcome = .accepted ∧
        op ∈ (self.pendingAt r.handle).record self.collection r := by
  intro op hop
  obtain ⟨-, -, -, hwrites, -⟩ := self.recorded_spec results
  rw [hwrites, List.append_assoc] at hop
  rcases List.mem_append.mp hop with hop | hop
  · exact Or.inl (List.mem_append_left _ hop)
  · rcases List.mem_append.mp hop with hop | hop
    · exact Or.inr ((Outbox.settleAll_mem _ _ results).2 op hop)
    · exact Or.inl (List.mem_append_right _ hop)

/-- No write of the push phase runs ahead of the result it records. -/
theorem Drains.vouched {report : ReplicaSyncReport} {self : ReplicaSync} {t : Transcript}
    (h : Drains report self t) : Vouched self t := by
  induction h with
  | idle =>
    refine ⟨?_, ?_⟩
    · intro pre ops answer post heq op hop
      rcases List.cons_eq_append_iff.mp heq with ⟨rfl, hb⟩ | ⟨pre', rfl, hnil⟩
      · obtain ⟨heq', -⟩ := Prod.mk.inj (List.cons.inj hb).1
        cases heq'
        exact Or.inl hop
      · exact absurd hnil (by simp)
    · intro _ e he collection changes
      rw [List.mem_singleton.mp he]
      simp
  | @last a results pushes drained reported =>
    refine ⟨?_, fun hnil => absurd hnil pushes⟩
    intro pre ops answer post heq op hop
    rcases List.cons_eq_append_iff.mp heq with ⟨rfl, hb⟩ | ⟨pre, rfl, hu⟩
    · exact absurd (List.cons.inj hb).1 (by simp)
    rcases List.cons_eq_append_iff.mp hu with ⟨rfl, hb⟩ | ⟨pre', rfl, hnil⟩
    · obtain ⟨heq', -⟩ := Prod.mk.inj (List.cons.inj hb).1
      cases heq'
      rcases a.recorded_writes results op hop with hop | ⟨r, hr, hrec⟩
      · exact Or.inl hop
      · exact Or.inr ⟨_, List.mem_cons_self, r, hr, hrec⟩
    · exact absurd hnil (by simp)
  | @chunk a t results more rest ih =>
    refine ⟨?_, fun hnil => absurd (by rw [hnil]; rfl) more⟩
    intro pre ops answer post heq op hop
    rcases List.cons_eq_append_iff.mp heq with ⟨rfl, hb⟩ | ⟨pre, rfl, hu⟩
    · exact absurd (List.cons.inj hb).1 (by simp)
    rcases List.cons_eq_append_iff.mp hu with ⟨rfl, hb⟩ | ⟨pre', rfl, hv⟩
    · obtain ⟨heq', -⟩ := Prod.mk.inj (List.cons.inj hb).1
      cases heq'
      rcases a.recorded_writes results op (List.mem_append_left _ hop) with hop | ⟨r, hr, hrec⟩
      · exact Or.inl hop
      · exact Or.inr ⟨_, List.mem_cons_self, r, hr, hrec⟩
    · let later : ReplicaSync := { a.recorded results with writes := [] }
      have hrest : Vouched later t := ih
      have hcoll : later.collection = a.collection := (a.recorded_spec results).1
      have hclosing : later.closing = a.closing := a.recorded_closing results
      have hempty : later.writes = [] := rfl
      have hlater := hrest.written pre' ops answer post hv op hop
      rw [hempty, hclosing, hcoll, List.nil_append] at hlater
      rcases hlater with hop | ⟨e, he, r, hr, hacc, hop⟩
      · exact Or.inl (List.mem_append_right _ hop)
      · refine Or.inr ⟨e, List.mem_cons_of_mem _ he, r, hr, hacc, ?_⟩
        have hpend : later.pendingAt r.handle = (a.recorded results).pendingAt r.handle := rfl
        rw [hpend] at hop
        rcases a.recorded_pending results r.handle with hk | hk
        · rwa [hk] at hop
        · rw [hk, Pending.record_none] at hop
          cases hop

end ReplicaSync

/-- A result records a row dropped with its member where its handle awaited that. -/
theorem Pending.record_dropped {awaits : Pending} {r : ReplicaPushResult}
    {collection c : ReplicaCollectionId} {g : ReplicaHandle} :
    .dropPlacement c g .deleted ∈ awaits.record collection r ↔
      c = collection ∧ r.handle = g ∧ awaits.dropped = true := by
  constructor
  · intro h
    simp only [record, List.mem_append, Option.mem_toList, Option.map_eq_some_iff] at h
    rcases h with ((⟨q, -, hq⟩ | ⟨q, -, hq⟩) | h) | h
    · cases hq
    · cases hq
    · split at h
      · rename_i hdropped
        obtain ⟨hc, hg, -⟩ := ReplicaWriteOp.dropPlacement.inj (List.mem_singleton.mp h)
        exact ⟨hc, hg.symm, hdropped⟩
      · cases h
    · cases hc : awaits.created with
      | none => simp [hc] at h
      | some q => simp [hc, recordCreate] at h
  · rintro ⟨rfl, rfl, hdropped⟩
    simp [record, hdropped]

/-- Every write of a run is a candidate's, the checkpoint, or the record of a result reported by
then. Nothing derived, nothing is asked of the remote. -/
structure VouchedRun (collection : ReplicaCollectionId) (opts : ReplicaSyncOptions)
    (loaded : ReplicaLoaded) (snapshot : ReplicaRemoteSnapshot) (t : Transcript)
    (box : Outbox) : Prop where
  awaits : ∀ c ∈ mergedCandidates loaded snapshot,
    box c.handle = (effect collection opts c).1.pendingAt c.handle
  idle : ∀ h, (∀ c ∈ mergedCandidates loaded snapshot, c.handle ≠ h) → box h = .none
  written : ∀ pre ops answer post, t = pre ++ (.wantsWrite ops, answer) :: post → ∀ op ∈ ops,
    (∃ c ∈ mergedCandidates loaded snapshot, op ∈ (effect collection opts c).1.writes) ∨
      op = .setCheckpoint collection snapshot.checkpoint ∨
      ∃ e ∈ Transcript.pushes pre, ∃ r ∈ e.2, r.outcome = .accepted ∧
        op ∈ (box r.handle).record collection r
  silent : (∀ c ∈ mergedCandidates loaded snapshot, (effect collection opts c).2 = none) →
    ∀ e ∈ t, ∀ collection changes, e.1 ≠ .wantsPush collection changes

open ReplicaSync in
theorem Syncs.vouched {collection : ReplicaCollectionId} {opts : ReplicaSyncOptions}
    {loaded : ReplicaLoaded} {snapshot : ReplicaRemoteSnapshot} {t : Transcript}
    (h : Syncs collection opts loaded snapshot t) :
    ∃ box, VouchedRun collection opts loaded snapshot t box := by
  obtain ⟨rest, report, rfl, hruns⟩ := h
  obtain ⟨hasc, hpaired, -⟩ :=
    Merge.candidates_spec (CollectionRows.ofLoad loaded.placements) snapshot
  let cs := mergedCandidates loaded snapshot
  obtain ⟨groups, last, out, u, hcut, -, ht, hm, hu⟩ := runs_merged hruns
  have hall := mergedAll collection opts cs hpaired hasc
  have hpushes : out.pushes = derivedChanges collection opts cs := hm.pushes.trans hall.pushes
  have hvouched := hu.vouched
  let batches := groups.map (fun g => written (derived collection opts g))
  have hbatches : rest = batches ++ u := ht
  have hsplit : cs = groups.flatten ++ last := hcut
  have hgroup : ∀ x ∈ batches, ∃ g ∈ groups, x = written (derived collection opts g) := by
    intro x hx
    obtain ⟨g, hg, rfl⟩ := List.mem_map.mp hx
    exact ⟨g, hg, rfl⟩
  have hderived : ∀ gs : List Candidate, (∀ c ∈ gs, c ∈ cs) →
      ∀ op ∈ derived collection opts gs, ∃ c ∈ cs, op ∈ (effect collection opts c).1.writes := by
    intro gs hgs op hop
    obtain ⟨c, hc, hop⟩ := List.mem_flatMap.mp hop
    exact ⟨c, hgs c hc, hop⟩
  refine ⟨out.pendingAt, ?_, ?_, ?_, ?_⟩
  · intro c hc
    rw [hm.pending]
    exact hall.pending c hc
  · intro g hg
    rw [hm.pending]
    exact hall.idle g hg
  · intro pre ops answer post heq op hop
    rcases List.cons_eq_append_iff.mp heq with ⟨rfl, hb⟩ | ⟨pre₁, rfl, heq₁⟩
    · exact absurd (List.cons.inj hb).1 (by simp)
    rcases List.cons_eq_append_iff.mp heq₁ with ⟨rfl, hb⟩ | ⟨pre₂, rfl, heq₂⟩
    · exact absurd (List.cons.inj hb).1 (by simp)
    rw [hbatches] at heq₂
    -- a write after the last full batch: the last candidates', the checkpoint or a record
    have hpushed : ∀ pre₃ post', u = pre₃ ++ (.wantsWrite ops, answer) :: post' →
        (∃ c ∈ cs, op ∈ (effect collection opts c).1.writes) ∨
          op = .setCheckpoint collection snapshot.checkpoint ∨
          ∃ e ∈ Transcript.pushes pre₃, ∃ r ∈ e.2, r.outcome = .accepted ∧
            op ∈ (out.pendingAt r.handle).record collection r := by
      intro pre₃ post' hpost
      rcases hvouched.written pre₃ ops answer post' hpost op hop with hop | ⟨e, he, r, hr, hrec⟩
      · rcases List.mem_append.mp hop with hop | hop
        · rw [hm.writes] at hop
          exact Or.inl (hderived last (fun c hc => hsplit ▸ List.mem_append_right _ hc) op hop)
        · rw [closing, hm.nextCheckpoint, hm.collection] at hop
          exact Or.inr (Or.inl (List.mem_singleton.mp hop))
      · rw [hm.collection] at hrec
        exact Or.inr (Or.inr ⟨e, he, r, hr, hrec⟩)
    rcases List.append_eq_append_iff.mp heq₂ with ⟨pre₃, rfl, hpost⟩ | ⟨tail, hpre, hpost⟩
    · rcases hpushed pre₃ post hpost with hmerged | hclosing | ⟨e, he, hrec⟩
      · exact Or.inl hmerged
      · exact Or.inr (Or.inl hclosing)
      · have he' : e ∈ Transcript.pushes (batches ++ pre₃) := by
          rw [Transcript.pushes, List.filterMap_append]
          exact List.mem_append_right _ he
        exact Or.inr (Or.inr ⟨e, he', hrec⟩)
    · cases tail with
      | nil =>
        rw [List.nil_append] at hpost
        rcases hpushed [] post hpost.symm with hmerged | hclosing | ⟨e, he, -⟩
        · exact Or.inl hmerged
        · exact Or.inr (Or.inl hclosing)
        · cases he
      | cons x tail =>
        obtain ⟨rfl, -⟩ := List.cons.inj hpost
        obtain ⟨g, hg, heq'⟩ := hgroup (.wantsWrite ops, answer) (by rw [hpre]; simp)
        obtain ⟨hops, -⟩ := Prod.mk.inj heq'
        cases hops
        exact Or.inl (hderived g (fun c hc => hsplit ▸
          List.mem_append_left _ (List.mem_flatten_of_mem hg hc)) op hop)
  · intro hnone e he
    have hempty : out.pushes = [] := by
      rw [hpushes, derivedChanges, List.filterMap_eq_nil_iff]
      intro c hc
      rw [hnone c hc]
      rfl
    rw [hbatches] at he
    intro c ks
    rcases List.mem_cons.mp he with rfl | he
    · simp
    rcases List.mem_cons.mp he with rfl | he
    · simp
    rcases List.mem_append.mp he with he | he
    · obtain ⟨g, -, rfl⟩ := hgroup e he
      simp [written]
    · exact hvouched.silent hempty e he c ks

/-- A read-only run asks its remote for nothing. -/
theorem Syncs.unpushed {collection : ReplicaCollectionId} {opts : ReplicaSyncOptions}
    {loaded : ReplicaLoaded} {snapshot : ReplicaRemoteSnapshot} {t : Transcript}
    (h : Syncs collection opts loaded snapshot t) (hpush : opts.push = false) :
    ∀ e ∈ t, ∀ c changes, e.1 ≠ .wantsPush c changes := by
  obtain ⟨box, hvouched⟩ := h.vouched
  refine hvouched.silent (fun c _ => ?_)
  cases hk : (effect collection opts c).2 with
  | none => rfl
  | some kind =>
    have hmay := ((ReplicaSync.new collection opts).merge_granted c hk).1
    exact absurd (hmay.symm.trans hpush) (by decide)

open ReplicaSync in
/-- No change runs ahead of its right, a read-only run asks for no push at all, and a deleted row
the remote still shows is dropped only after its Remove was accepted. -/
theorem pushes_granted {collection : ReplicaCollectionId} {opts : ReplicaSyncOptions}
    {loaded : ReplicaLoaded} {snapshot : ReplicaRemoteSnapshot} {t : Transcript}
    (h : Syncs collection opts loaded snapshot t) :
    (opts.push = false → ∀ e ∈ t, ∀ c changes, e.1 ≠ .wantsPush c changes) ∧
    (∀ k ∈ t.changes, opts.push = true ∧ opts.rights.grants k.kind = true) ∧
    ∀ (g : ReplicaHandle) (p : ReplicaPlacement),
      (collectPlacements loaded.placements)[g]? = some p → p.status = .tombstone →
      (Merge.seen (collectPlacements loaded.placements) snapshot g).isSome →
      ∀ pre ops answer post, t = pre ++ (.wantsWrite ops, answer) :: post →
        ∀ c, .dropPlacement c g .deleted ∈ ops →
          (∃ k ∈ t.changes, ∃ dest link ifMatch, k.kind = .remove g dest link ifMatch) ∧
          ∃ e ∈ Transcript.pushes pre, ∃ r ∈ e.2, r.handle = g ∧ r.outcome = .accepted := by
  obtain ⟨box, hvouched⟩ := h.vouched
  obtain ⟨box', hwhole⟩ := h.whole
  refine ⟨?_, ?_, ?_⟩
  · exact fun hpush => h.unpushed hpush
  · intro k hk
    obtain ⟨c, -, -, hmap⟩ := hwhole.mem_changes.mp hk
    obtain ⟨kind, hkind, rfl⟩ := Option.map_eq_some_iff.mp hmap
    have hmay : opts.may kind := (new collection opts).merge_granted c hkind
    exact hmay
  · intro g p hp hs hseen pre ops answer post ht c hop
    obtain ⟨item, hitem⟩ := Option.isSome_iff_exists.mp hseen
    have hat := Merge.candidateAt_seen snapshot hp (by rw [hs]; decide)
    rw [hitem] at hat
    let d : Candidate := ⟨g, some p, some item⟩
    have hd : d ∈ mergedCandidates loaded snapshot := (mem_mergedCandidates d).mpr hat
    rcases hvouched.written pre ops answer post ht _ hop with
      ⟨x, hx, hop⟩ | hck | ⟨e, he, r, hr, hacc, hrec⟩
    · -- no merge drops a row the remote shows
      rcases (new collection opts).merge_writes (mergedCandidates_paired hx) hop with
        hop | ⟨q, hq, -⟩ | ⟨hnone, heq⟩
      · cases hop
      · cases hq
      · have hxg : g = x.handle := (ReplicaWriteOp.dropPlacement.inj heq).2.1
        rw [mergedCandidates_unique hx hd hxg.symm] at hnone
        cases hnone
    · cases hck
    · -- only a pending drop is recorded as one, of the handle the result names
      obtain ⟨-, hrg, hdropped⟩ := Pending.record_dropped.mp hrec
      rw [hrg, show g = d.handle from rfl, hvouched.awaits d hd, effect,
        merge_tombstone _ _ hs] at hdropped
      dsimp only at hdropped
      split at hdropped
      · rename_i hbased
        obtain ⟨dest, link, ifMatch, hkind⟩ := mergeTombstone_dropped collection opts g p item
          hdropped
        have heffect : (effect collection opts d).2 = some (.remove g dest link ifMatch) := by
          rw [effect, merge_tombstone _ _ hs]
          dsimp only
          rw [if_pos hbased, hkind]
        refine ⟨⟨ReplicaChange.new collection (.remove g dest link ifMatch), ?_, dest, link, ifMatch,
          rfl⟩, e, he, r, hr, hrg, hacc⟩
        exact hwhole.mem_changes.mpr ⟨d, hd, rfl, by rw [heffect]; rfl⟩
      · have hnone : ((new collection opts).pendingAt g).dropped = false := by
          rw [new_pendingAt]
          rfl
        exact absurd (hdropped.symm.trans hnone) (by decide)

section Runs

/-- A card removed locally, its remote still listing it and taking its Remove. -/
def removedSeam : Seam :=
  Seam.single (ReplicaMutate.removed StagedEdit.card) ⟨[StagedEdit.starred], [], true, ⟨[]⟩⟩
    [[⟨⟨"a"⟩, .accepted, none, none⟩]]

/-- The card's row is dropped by the record of its accepted Remove, no sooner. -/
theorem pushes_granted_card : ∃ (t pre : Transcript) (e : ReplicaYield × ReplicaArg),
    Syncs ⟨"contacts"⟩ .default ⟨removedSeam.rows.placements, none⟩ removedSeam.snapshot t ∧
    t = pre ++ [e] ∧
    .dropPlacement ⟨"contacts"⟩ ⟨"a"⟩ .deleted ∈ Transcript.writes [e] ∧
    (∃ k ∈ t.changes, ∃ dest link ifMatch, k.kind = .remove ⟨"a"⟩ dest link ifMatch) ∧
    ∃ x ∈ Transcript.pushes pre, ∃ r ∈ x.2, r.handle = ⟨"a"⟩ ∧ r.outcome = .accepted := by
  have hrun : (removedSeam.sync 9 ⟨"contacts"⟩ .default).map (fun o =>
      o.2.getLast?.map (fun e => Transcript.batches [e])) =
        some (some [[.dropPlacement ⟨"contacts"⟩ ⟨"a"⟩ .deleted,
          .setCheckpoint ⟨"contacts"⟩ ⟨[]⟩]]) := by decide
  obtain ⟨⟨s, t⟩, hd, heq⟩ := Option.map_eq_some_iff.mp hrun
  obtain ⟨hsync, -⟩ := Seam.sync_syncs hd
  obtain ⟨⟨y, answer⟩, hlast, hbatch⟩ := Option.map_eq_some_iff.mp heq
  have ht : t = t.dropLast ++ [(y, answer)] := (List.dropLast_append_getLast? _ hlast).symm
  cases y with
  | wantsWrite ops =>
    have hops : ops = [.dropPlacement ⟨"contacts"⟩ ⟨"a"⟩ .deleted,
        .setCheckpoint ⟨"contacts"⟩ ⟨[]⟩] := (List.cons.inj hbatch).1
    have hdrop : .dropPlacement ⟨"contacts"⟩ ⟨"a"⟩ .deleted ∈ ops := by rw [hops]; simp
    obtain ⟨hremove, hresult⟩ := (pushes_granted hsync).2.2 ⟨"a"⟩
      (ReplicaMutate.removed StagedEdit.card) (OrderedMap.get_insert_self _ _ _) rfl
      (by decide +kernel) t.dropLast ops answer [] ht ⟨"contacts"⟩ hdrop
    refine ⟨t, t.dropLast, _, hsync, ht, ?_, hremove, hresult⟩
    exact List.mem_flatMap.mpr ⟨_, List.mem_singleton_self _, hdrop⟩
  | wantsEnumerate | wantsFetch | wantsPush | wantsLoad | wantsLookupObject => cases hbatch

end Runs
end IoReplica

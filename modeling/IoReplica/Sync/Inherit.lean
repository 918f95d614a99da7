import IoReplica.Sync.Whole

/-! What every row of a sync run inherits: a property the merge's own row updates keep. -/
namespace IoReplica

open ReplicaSync in
/-- A property of rows that each update a merge or a push result makes of one keeps. -/
structure Inherits (collection : ReplicaCollectionId) (P : ReplicaPlacement → Prop) : Prop where
  pulled : ∀ item, P (pulledPlacement collection item)
  refreshed : ∀ p item, P p → P (refreshedPlacement p item)
  conflicted : ∀ p item, P p → P (conflictedPlacement p item)
  reopened : ∀ p revision, P p → P { p with conflictRevision := revision, conflictObject := none }
  forked : ∀ p base o, P p → p.base = some base → localChanged p base = true → p.object = some o →
    P (forkedPlacement collection p o)
  flagged : ∀ p flags, P p → P { p with flags := flags }
  rebased : ∀ p flags, P p → P { p with status := settledStatus p, base := flagBase p flags }
  resurrected : ∀ p, P p → editedAgainstDelete p = true → P (resurrectedPlacement p)
  contentRebased : ∀ p revision, P p → P (contentRebased p revision)
  rekeyed : ∀ p handle revision, P p → p.status = .created → P (rekeyedPlacement p handle revision)

/-- An op of the collection, any row it stores having the property. -/
def ReplicaWriteOp.Obeys (collection : ReplicaCollectionId) (P : ReplicaPlacement → Prop) :
    ReplicaWriteOp → Prop
  | .upsertPlacement p => P p
  | .dropPlacement c .. => c = collection
  | .storeObject .. => False
  | .setCheckpoint c _ => c = collection

/-- Everything awaited has the property, and the creates are still pending ones. -/
structure Pending.Obeys (P : ReplicaPlacement → Prop) (pending : Pending) : Prop where
  flags : ∀ q, pending.flags = some q → P q
  content : ∀ q, pending.content = some q → P q
  created : ∀ q, pending.created = some q → P q ∧ q.status = .created

theorem Pending.Obeys.none (P : ReplicaPlacement → Prop) : Pending.none.Obeys P := by
  constructor <;> intro q hq <;> cases hq

namespace ReplicaSync

/-- A run of the collection whose writes and awaited rows all have the property. -/
structure Obeys (c : ReplicaCollectionId) (P : ReplicaPlacement → Prop) (a : ReplicaSync) : Prop where
  collection : a.collection = c
  writes : ∀ op ∈ a.writes, op.Obeys c P
  pending : ∀ h, (a.pendingAt h).Obeys P

variable {c : ReplicaCollectionId} {P : ReplicaPlacement → Prop} {a : ReplicaSync}
  {p : ReplicaPlacement}

theorem Obeys.new (c : ReplicaCollectionId) (opts : ReplicaSyncOptions)
    (P : ReplicaPlacement → Prop) : Obeys c P (new c opts) := by
  refine ⟨rfl, fun op hop => (by cases hop), fun h => ?_⟩
  rw [new_pendingAt]
  exact .none P

theorem Obeys.write (ha : Obeys c P a) {op : ReplicaWriteOp} (hop : op.Obeys c P) :
    Obeys c P (a.write op) := by
  refine ⟨ha.collection, ?_, ha.pending⟩
  intro x hx
  rcases List.mem_append.mp hx with hx | hx
  · exact ha.writes x hx
  · rw [List.mem_singleton.mp hx]
    exact hop

theorem Obeys.upsert (ha : Obeys c P a) (hp : P p) : Obeys c P (a.upsert p) := ha.write hp

theorem Obeys.drop (ha : Obeys c P a) (h : ReplicaHandle) (reason : ReplicaDropReason) :
    Obeys c P (a.drop h reason) := ha.write ha.collection

theorem Obeys.emit (ha : Obeys c P a) (e : ReplicaEvent) : Obeys c P (a.emit e) :=
  ⟨ha.collection, ha.writes, ha.pending⟩

theorem Obeys.countPulled (ha : Obeys c P a) : Obeys c P a.countPulled :=
  ⟨ha.collection, ha.writes, ha.pending⟩

theorem Obeys.countConflict (ha : Obeys c P a) : Obeys c P a.countConflict :=
  ⟨ha.collection, ha.writes, ha.pending⟩

theorem Obeys.countRefreshed (ha : Obeys c P a) : Obeys c P a.countRefreshed :=
  ⟨ha.collection, ha.writes, ha.pending⟩

theorem Obeys.panic (ha : Obeys c P a) : Obeys c P a.panic :=
  ⟨ha.collection, ha.writes, ha.pending⟩

/-- One stashed row more is awaited, and nothing else moves. -/
theorem get_insert_obeys {P : ReplicaPlacement → Prop} {m : HandleMap ReplicaPlacement}
    {g : ReplicaHandle} (hp : P p) (h : ReplicaHandle) (hm : ∀ q, m[h]? = some q → P q) :
    ∀ q, (m.insert g p)[h]? = some q → P q := by
  intro q hq
  rw [OrderedMap.get_insert] at hq
  split at hq
  · cases hq
    exact hp
  · exact hm q hq

theorem Obeys.stashFlags (ha : Obeys c P a) (h : ReplicaHandle) (hp : P p) :
    Obeys c P (a.stashFlags h p) :=
  ⟨ha.collection, ha.writes, fun g =>
    ⟨get_insert_obeys hp g (ha.pending g).flags, (ha.pending g).content, (ha.pending g).created⟩⟩

theorem Obeys.stashContent (ha : Obeys c P a) (h : ReplicaHandle) (hp : P p) :
    Obeys c P (a.stashContent h p) :=
  ⟨ha.collection, ha.writes, fun g =>
    ⟨(ha.pending g).flags, get_insert_obeys hp g (ha.pending g).content, (ha.pending g).created⟩⟩

theorem Obeys.stashDrop (ha : Obeys c P a) (h : ReplicaHandle) : Obeys c P (a.stashDrop h) :=
  ⟨ha.collection, ha.writes, fun g =>
    ⟨(ha.pending g).flags, (ha.pending g).content, (ha.pending g).created⟩⟩

theorem Obeys.stashCreate (ha : Obeys c P a) (h : ReplicaHandle) (hp : P p)
    (hs : p.status = .created) : Obeys c P (a.stashCreate h p) :=
  ⟨ha.collection, ha.writes, fun g =>
    ⟨(ha.pending g).flags, (ha.pending g).content,
      get_insert_obeys ⟨hp, hs⟩ g (ha.pending g).created⟩⟩

variable (hP : Inherits c P) (item : ReplicaRemoteItem)
include hP

theorem Obeys.pullAdd (ha : Obeys c P a) : Obeys c P (a.pullAdd item) := by
  refine ha.upsert (p := pulledPlacement a.collection item) ?_
  rw [ha.collection]
  exact hP.pulled item

theorem Obeys.pullContent (ha : Obeys c P a) (hp : P p) : Obeys c P (a.pullContent p item).1 :=
  ((ha.upsert (hP.refreshed p item hp)).countRefreshed).emit _

theorem Obeys.pullFlags (ha : Obeys c P a) (hp : P p) (flags : ReplicaFlags) :
    Obeys c P (a.pullFlags p flags) :=
  ha.upsert (hP.rebased { p with flags := flags } flags (hP.flagged p flags hp))

theorem Obeys.rebase (ha : Obeys c P a) (hp : P p) (flags : ReplicaFlags) :
    Obeys c P (a.rebase p flags) := ha.upsert (hP.rebased p flags hp)

theorem Obeys.markConflict (ha : Obeys c P a) (hp : P p) : Obeys c P (a.markConflict p item).1 :=
  ((ha.upsert (hP.conflicted p item hp)).countConflict).emit _

theorem Obeys.stageConflictDup (ha : Obeys c P a) (hp : P p) {base : ReplicaBase}
    (hb : p.base = some base) (hl : localChanged p base = true) :
    Obeys c P (a.stageConflictDup p) := by
  cases ho : p.object with
  | none =>
    simp only [ReplicaSync.stageConflictDup, ho]
    exact ha.panic
  | some o =>
    simp only [ReplicaSync.stageConflictDup, ho]
    refine ha.upsert (p := forkedPlacement a.collection p o) ?_
    rw [ha.collection]
    exact hP.forked p base o hp hb hl ho

omit hP in
theorem Obeys.pushContent (ha : Obeys c P a) (hp : P p) (ifMatch : Option String) :
    Obeys c P (a.pushContent p ifMatch).1 := by
  have hs := ha.stashContent p.handle hp
  cases ho : p.object with
  | none =>
    simp only [ReplicaSync.pushContent, ho]
    exact hs.panic
  | some o =>
    simp only [ReplicaSync.pushContent, ho]
    exact hs

/-- The row the content axis hands on, if any, has the property. -/
def ContentOutcome.Obeys (P : ReplicaPlacement → Prop) (outcome : ContentOutcome) : Prop :=
  ∀ q, outcome = .rewritten q → P q

omit hP in
theorem ContentOutcome.Obeys.rewritten (hp : P p) : (ContentOutcome.rewritten p).Obeys P := by
  intro q hq
  cases hq
  exact hp

omit hP in
theorem pushContent_obeys (ifMatch : Option String) : (a.pushContent p ifMatch).2.Obeys P := by
  intro q hq
  cases ho : p.object <;> simp [ReplicaSync.pushContent, ho] at hq

theorem Obeys.resolveConflict (ha : Obeys c P a) (hp : P p) {base : ReplicaBase}
    (hb : p.base = some base) (hl : localChanged p base = true) :
    Obeys c P (a.resolveConflict p item).1 ∧ (a.resolveConflict p item).2.Obeys P := by
  have hmark := ContentOutcome.Obeys.rewritten (hP.conflicted p item hp)
  have hpull := ContentOutcome.Obeys.rewritten (hP.refreshed p item hp)
  cases hc : a.opts.conflict with
  | manual =>
    simp only [ReplicaSync.resolveConflict, hc]
    exact ⟨ha.markConflict hP item hp, hmark⟩
  | preferRemote =>
    simp only [ReplicaSync.resolveConflict, hc]
    exact ⟨ha.pullContent hP item hp, hpull⟩
  | preferLocal =>
    simp only [ReplicaSync.resolveConflict, hc]
    split
    · exact ⟨ha.markConflict hP item hp, hmark⟩
    · exact ⟨ha.pushContent hp _, pushContent_obeys _⟩
  | keepBoth =>
    simp only [ReplicaSync.resolveConflict, hc]
    exact ⟨(ha.stageConflictDup hP hp hb hl).pullContent hP item hp, hpull⟩

theorem Obeys.reconcileContent (ha : Obeys c P a) (hp : P p) :
    Obeys c P (a.reconcileContent p item).1 ∧ (a.reconcileContent p item).2.Obeys P := by
  have hstill : ContentOutcome.untouched.Obeys P := fun q hq => (by cases hq)
  cases hb : p.base with
  | none =>
    simp only [ReplicaSync.reconcileContent, hb]
    split
    · exact ⟨ha.markConflict hP item hp, .rewritten (hP.conflicted p item hp)⟩
    · exact ⟨ha, hstill⟩
  | some base =>
    have hreopened := hP.reopened p item.revision hp
    rw [hb] at hreopened
    simp only [ReplicaSync.reconcileContent, hb]
    split
    · split
      · exact ⟨ha.upsert hreopened, .rewritten hreopened⟩
      · exact ⟨ha, hstill⟩
    · cases hl : localChanged p base <;> cases movedFrom item base.revision
      · exact ⟨ha, hstill⟩
      · exact ⟨ha.pullContent hP item hp, .rewritten (hP.refreshed p item hp)⟩
      · dsimp only
        split
        · exact ⟨ha, hstill⟩
        · exact ⟨ha.pushContent hp _, pushContent_obeys _⟩
      · exact ha.resolveConflict hP item hp hb hl

theorem Obeys.reconcileFlags (ha : Obeys c P a) (hp : P p) (allow : PushFlags) :
    Obeys c P (a.reconcileFlags p item allow).1 := by
  cases hb : p.baseFlags with
  | none =>
    simp only [ReplicaSync.reconcileFlags, hb]
    exact ((ha.pullFlags hP hp _).countPulled).emit _
  | some flags =>
    have hup : ∀ f, Obeys c P
        (((a.upsert { p with flags := f }).countPulled).emit (.flagsChanged p.handle)) :=
      fun f => ((ha.upsert (hP.flagged p f hp)).countPulled).emit _
    have hst : ∀ d f, Obeys c P d → Obeys c P (d.stashFlags p.handle { p with flags := f }) :=
      fun d f hd => hd.stashFlags p.handle (hP.flagged p f hp)
    simp only [ReplicaSync.reconcileFlags, hb]
    cases decide (ReplicaFlags.merge flags p.flags item.flags ≠ p.flags) <;>
      cases decide (ReplicaFlags.merge flags p.flags item.flags ≠ item.flags)
    · dsimp only
      split
      · exact ha.rebase hP hp _
      · exact ha
    · dsimp only
      simp only [Bool.false_eq_true, if_false]
      split
      · exact ha
      · exact hst _ _ ha
    · exact ((ha.pullFlags hP hp _).countPulled).emit _
    · dsimp only
      simp only [if_true]
      split
      · exact hup _
      · exact hst _ _ (hup _)

theorem Obeys.mergePresent (ha : Obeys c P a) (hp : P p) : Obeys c P (a.mergePresent p item).1 := by
  have hcontent := ha.reconcileContent hP item hp
  simp only [ReplicaSync.mergePresent]
  cases ho : a.reconcileContent p item with
  | mk d outcome =>
    rw [ho] at hcontent
    cases outcome with
    | untouched => exact hcontent.1.reconcileFlags hP item hp _
    | rewritten q => exact hcontent.1.reconcileFlags hP item (hcontent.2 q rfl) _
    | push change => exact hcontent.1.reconcileFlags hP item hp _

theorem Obeys.mergeVanished (ha : Obeys c P a) (h : ReplicaHandle) (hp : P p) :
    Obeys c P (a.mergeVanished h p).1 := by
  simp only [ReplicaSync.mergeVanished]
  split
  · rename_i hedited
    have hres := hP.resurrected p hp hedited
    split
    · exact ha.upsert hres
    · exact (ha.upsert hres).stashCreate h hres rfl
  · exact ((ha.drop h _).countPulled).emit _

omit hP in
theorem Obeys.mergeCreate (ha : Obeys c P a) (h : ReplicaHandle) (hp : P p) :
    Obeys c P (a.mergeCreate h p).1 := by
  simp only [ReplicaSync.mergeCreate]
  split
  · rename_i hpending
    exact ha.stashCreate h hp (of_decide_eq_true (Bool.and_eq_true_iff.mp hpending).2)
  · exact ha

omit hP in
theorem Obeys.refuseDelete (ha : Obeys c P a) (hrev : P { p with status := .clean }) :
    Obeys c P (a.refuseDelete p).1 := by
  simp only [ReplicaSync.refuseDelete]
  split
  · exact ha.upsert hrev
  · exact ha

theorem Obeys.mergeTombstone (ha : Obeys c P a) (h : ReplicaHandle) (hp : P p)
    (hrev : P { p with status := .clean }) : Obeys c P (a.mergeTombstone h p item).1 := by
  simp only [ReplicaSync.mergeTombstone]
  split
  · exact ((ha.pullAdd hP item).countPulled).emit _
  · split
    · split
      · exact ha.refuseDelete hrev
      · cases p.object with
        | none => exact (ha.stashContent h hp).panic
        | some o => exact ha.stashContent h hp
    · split
      · exact ha.refuseDelete hrev
      · exact ha.stashDrop h

/-- A merge hands the property on from the candidate's row. -/
theorem Obeys.merge (ha : Obeys c P a) {d : Candidate} (hd : ∀ p, d.loc = some p → P p)
    (hrev : ∀ p, d.loc = some p → p.status = .tombstone → P { p with status := .clean }) :
    Obeys c P (a.merge d).1 := by
  obtain ⟨h, loc, remote⟩ := d
  cases loc with
  | none =>
    cases remote with
    | none => exact ha
    | some item => exact ((ha.pullAdd hP item).countPulled).emit _
  | some p =>
    have hp := hd p rfl
    by_cases hs : p.status = .tombstone
    · rw [merge_tombstone _ _ hs]
      cases remote with
      | none => exact ha.drop h _
      | some item =>
        dsimp only
        split
        · exact ha.mergeTombstone hP item h hp (hrev p rfl hs)
        · exact ((ha.pullAdd hP item).countPulled).emit _
    · rw [merge_live _ _ hs]
      cases remote with
      | some item => exact ha.mergePresent hP item hp
      | none =>
        dsimp only
        split
        · exact ha.mergeVanished hP h hp
        · exact ha.mergeCreate h hp

end ReplicaSync

/-- Recording a result writes rows of what was awaited. -/
theorem Pending.record_obeys {collection : ReplicaCollectionId} {P : ReplicaPlacement → Prop}
    (hP : Inherits collection P) {pending : Pending} (hp : pending.Obeys P) (r : ReplicaPushResult) :
    ∀ op ∈ pending.record collection r, op.Obeys collection P := by
  intro op hop
  simp only [Pending.record, List.mem_append, Option.mem_toList, Option.map_eq_some_iff] at hop
  rcases hop with ((⟨q, hq, rfl⟩ | ⟨q, hq, rfl⟩) | hop) | hop
  · exact hP.rebased q q.flags (hp.flags q hq)
  · exact hP.contentRebased q r.revision (hp.content q hq)
  · split at hop
    · rw [List.mem_singleton.mp hop]
      rfl
    · cases hop
  · cases hc : pending.created with
    | none => simp [hc] at hop
    | some q =>
      simp only [hc, Option.map_some, Option.getD_some, Pending.recordCreate, List.mem_cons,
        Option.mem_toList, Option.map_eq_some_iff] at hop
      rcases hop with rfl | ⟨g, -, rfl⟩
      · rfl
      · exact hP.rekeyed q g r.revision (hp.created q hc).1 (hp.created q hc).2

/-- A row a batch leaves was stored before it, or is one the batch wrote. -/
theorem rowAfter_mem {h : ReplicaHandle} {init : Option ReplicaPlacement} {q : ReplicaPlacement}
    {ops : List ReplicaWriteOp} (hq : rowAfter h init ops = some q) :
    init = some q ∨ .upsertPlacement q ∈ ops := by
  induction ops generalizing init with
  | nil => exact Or.inl hq
  | cons op ops ih =>
    have hrest : rowAfter h (rowAfter h init [op]) ops = some q := by
      rw [← rowAfter_append]
      exact hq
    rcases ih hrest with hinit | hmem
    · cases op with
      | upsertPlacement p =>
        rw [rowAfter_upsert, rowAfter_nil] at hinit
        split at hinit
        · cases hinit
          exact Or.inr List.mem_cons_self
        · exact Or.inl hinit
      | dropPlacement c g reason =>
        rw [rowAfter_drop, rowAfter_nil] at hinit
        split at hinit
        · cases hinit
        · exact Or.inl hinit
      | storeObject => exact Or.inl hinit
      | setCheckpoint => exact Or.inl hinit
    · exact Or.inr (List.mem_cons_of_mem _ hmem)

/-- The rows a run reads all have the property, and so does what a reverted delete leaves. -/
structure CollectionRows.Obey (P : ReplicaPlacement → Prop) (s : CollectionRows) : Prop where
  rows : ∀ (g : ReplicaHandle) (p : ReplicaPlacement), s.rows[g]? = some p → P p
  reverted : ∀ (g : ReplicaHandle) (p : ReplicaPlacement), s.rows[g]? = some p →
    p.status = .tombstone → P { p with status := .clean }

section
variable {collection : ReplicaCollectionId} {opts : ReplicaSyncOptions} {loaded : ReplicaLoaded}
  {snapshot : ReplicaRemoteSnapshot} {t : Transcript} {s : CollectionRows}
  {P : ReplicaPlacement → Prop}

/-- A run over rows with the property writes rows with it, and only in its collection. -/
theorem Syncs.obeys (h : Syncs collection opts loaded snapshot t)
    (hl : loaded.placements = s.placements) (hP : Inherits collection P) (hs : s.Obey P) :
    ∀ op ∈ t.writes, op.Obeys collection P := by
  obtain ⟨box, hwhole⟩ := h.whole
  have heffect : ∀ c ∈ mergedCandidates loaded snapshot,
      ReplicaSync.Obeys collection P (effect collection opts c).1 := by
    intro c hc
    rw [mem_mergedCandidates, hl, CollectionRows.collect_placements] at hc
    have hloc := (Merge.candidateAt_spec hc).2
    refine (ReplicaSync.Obeys.new collection opts P).merge hP ?_ ?_
    · intro p hp
      exact hs.rows c.handle p (hloc.symm.trans hp)
    · intro p hp
      exact hs.reverted c.handle p (hloc.symm.trans hp)
  have hbox : ∀ g, (box g).Obeys P := by
    intro g
    by_cases hg : ∃ c ∈ mergedCandidates loaded snapshot, c.handle = g
    · obtain ⟨c, hc, rfl⟩ := hg
      rw [hwhole.awaits c hc]
      exact (heffect c hc).pending c.handle
    · simp only [not_exists, not_and] at hg
      rw [hwhole.idle g hg]
      exact .none P
  intro op hop
  rw [hwhole.writes] at hop
  simp only [List.mem_append, List.mem_flatMap, List.mem_singleton] at hop
  rcases hop with ⟨c, hc, hop⟩ | hop | rfl
  · exact (heffect c hc).writes op hop
  · obtain ⟨r, -, -, hop⟩ := Outbox.recordAll_mem t.pushes hop
    exact Pending.record_obeys hP (hbox r.handle) r op hop
  · rfl

/-- A run over rows with the property leaves rows with it. -/
theorem Syncs.obeys_rows (h : Syncs collection opts loaded snapshot t)
    (hl : loaded.placements = s.placements) (hP : Inherits collection P) (hs : s.Obey P)
    {g : ReplicaHandle} {q : ReplicaPlacement} (hq : (s.apply t.writes).rows[g]? = some q) :
    P q := by
  rw [CollectionRows.get_apply] at hq
  rcases rowAfter_mem hq with hstood | hwritten
  · exact hs.rows g q hstood
  · exact h.obeys hl hP hs _ hwritten

end

end IoReplica

import IoReplica.Mutated
import IoReplica.Sync.Owned
import IoReplica.Sync.RefusedDelete
import IoReplica.Sync.Storage
import IoReplica.Upgrade.Tombstone

/-! The destination of a move: the rows that carry one, and how long they keep it. -/
namespace IoReplica
namespace Destination

open ReplicaSync

/-- A row that carries an origin only as a pending create, or as a tombstone. -/
def Lawful (p : ReplicaPlacement) : Prop :=
  p.origin.isSome → p.status = .tombstone ∨ (p.status = .created ∧ p.base = none)

/-- A row that stays where it is. -/
def InPlace (p : ReplicaPlacement) : Prop :=
  p.status = .clean ∨ p.status = .dirty ∨ p.status = .conflict

theorem Lawful.inPlace {p : ReplicaPlacement} (h : Lawful p) (hp : InPlace p) : p.origin = none := by
  by_contra ho
  rcases h (Option.isSome_iff_ne_none.mpr ho) with hs | ⟨hs, -⟩ <;>
    simp [InPlace, hs] at hp

/-- A mutation that leaves a destination on a row without the move it belonged to. -/
inductive Strands : ReplicaMutation → ReplicaPlacement → Prop
  | edited {h : ReplicaHandle} {object : ReplicaObject} {body : List UInt8}
      {metadata : Option ReplicaMeta} {sortKey : Option ReplicaSortKey} {p : ReplicaPlacement}
      (moved : p.status = .tombstone) (carries : p.origin.isSome)
      (staged : ∀ base, p.base = some base → base.object ≠ some object.hash) :
      Strands (.edit h object body metadata sortKey) p
  | removed {h : ReplicaHandle} {p : ReplicaPlacement} (based : p.base.isSome)
      (carries : p.origin.isSome) : Strands (.remove h) p

/-- A merge that leaves an origin on the row it settles: a refused move reverted, or a pending copy
whose placeholder the remote lists. -/
inductive Settles (opts : ReplicaSyncOptions) : Option ReplicaRemoteItem → ReplicaPlacement → Prop
  | reverted {item : ReplicaRemoteItem} {p : ReplicaPlacement} (moved : p.status = .tombstone)
      (carries : p.origin.isSome) (based : p.base.isSome)
      (unmoved : movedFrom item p.baseRevision = false)
      (refused : if p.stagedEdit.isSome then opts.mayContent = false else opts.mayRemove = false)
      (reverts : opts.delete = .revert) : Settles opts (some item) p
  | collided {item : ReplicaRemoteItem} {p : ReplicaPlacement} (created : p.status = .created)
      (carries : p.origin.isSome) : Settles opts (some item) p

theorem Settles.carries {opts : ReplicaSyncOptions} {remote : Option ReplicaRemoteItem}
    {p : ReplicaPlacement} (h : Settles opts remote p) : p.origin.isSome := by
  cases h with
  | reverted moved carries => exact carries
  | collided created carries => exact carries

/-- What a run may write of a row: no origin, or the one its moved tombstone carries. -/
def Held (s : CollectionRows) (q : ReplicaPlacement) : Prop :=
  q.origin = none ∨ ∃ p, s.rows[q.handle]? = some p ∧ p.status = .tombstone ∧ p.base.isSome ∧
    q.status = .tombstone ∧ q.origin = p.origin

/-- What is awaited: a create may carry an origin, as it is given up with the push. -/
structure Awaited (s : CollectionRows) (pending : Pending) : Prop where
  flags : ∀ q, pending.flags = some q → q.origin = none
  content : ∀ q, pending.content = some q → Held s q

theorem Awaited.none (s : CollectionRows) : Awaited s .none := by
  constructor <;> intro q hq <;> cases hq

theorem inherits_settled (c : ReplicaCollectionId) : Inherits c (fun p => p.origin = none) where
  pulled _ := rfl
  refreshed _ _ hp := hp
  conflicted _ _ hp := hp
  reopened _ _ hp := hp
  forked _ _ _ _ _ _ _ := rfl
  flagged _ _ hp := hp
  rebased _ _ hp := hp
  resurrected _ _ _ := rfl
  contentRebased _ _ hp := hp
  rekeyed _ _ _ _ _ := rfl

section Candidates

variable {collection : ReplicaCollectionId} {opts : ReplicaSyncOptions} {s : CollectionRows}
  {h : ReplicaHandle} {p : ReplicaPlacement} {remote : Option ReplicaRemoteItem}

/-- What merging a candidate leaves carries no origin but a moved tombstone's own. -/
structure EffectHeld (s : CollectionRows) (h : ReplicaHandle) (d : ReplicaSync) : Prop where
  writes : ∀ q, .upsertPlacement q ∈ d.writes → Held s q
  awaits : Awaited s (d.pendingAt h)

/-- A row without an origin is settled without one. -/
theorem effect_settled (collection : ReplicaCollectionId) (opts : ReplicaSyncOptions)
    (s : CollectionRows) {c : Candidate} (hc : ∀ p, c.loc = some p → p.origin = none) :
    EffectHeld s c.handle (effect collection opts c).1 := by
  have hobeys := (ReplicaSync.Obeys.new collection opts _).merge (inherits_settled collection)
    (d := c) hc (fun p hp _ => hc p hp)
  refine ⟨fun q hq => Or.inl (hobeys.writes _ hq), fun q hq => ?_, fun q hq => Or.inl ?_⟩
  · exact (hobeys.pending c.handle).flags q hq
  · exact (hobeys.pending c.handle).content q hq

/-- Nothing written, nothing awaited but what a fresh run has. -/
theorem effectHeld_new (collection : ReplicaCollectionId) (opts : ReplicaSyncOptions)
    (s : CollectionRows) (h : ReplicaHandle) : EffectHeld s h (new collection opts) := by
  refine ⟨fun q hq => (by cases hq), ?_⟩
  rw [new_pendingAt]
  exact .none s

/-- Pulling the listed member in a tombstone's place. -/
theorem EffectHeld.pulled (collection : ReplicaCollectionId) (opts : ReplicaSyncOptions)
    (s : CollectionRows) (h : ReplicaHandle) (item : ReplicaRemoteItem) :
    EffectHeld s h ((new collection opts).mergeAdded h item).1 := by
  refine ⟨?_, ?_⟩
  · intro q hq
    have hwrites : ((new collection opts).mergeAdded h item).1.writes =
        [.upsertPlacement (pulledPlacement collection item)] := rfl
    rw [hwrites, List.mem_singleton] at hq
    cases hq
    exact Or.inl rfl
  · have hpend : ((new collection opts).mergeAdded h item).1.pendingAt h =
        (new collection opts).pendingAt h := rfl
    rw [hpend, new_pendingAt]
    exact .none s

/-- A moved tombstone that is not reverted keeps its destination, or makes way. -/
theorem effect_moved (hp : s.rows[h]? = some p) (hs : p.status = .tombstone)
    (ho : p.origin.isSome) (hkeeps : ∀ item, remote = some item → ¬ Settles opts (some item) p) :
    EffectHeld s h (effect collection opts ⟨h, some p, remote⟩).1 := by
  have hopts : (new collection opts).opts = opts := rfl
  rw [effect, merge_tombstone _ _ hs]
  cases remote with
  | none =>
    refine ⟨fun q hq => ?_, ?_⟩
    · have hwrites : ((new collection opts).drop h .deleted).writes =
          [.dropPlacement collection h .deleted] := rfl
      rw [hwrites, List.mem_singleton] at hq
      cases hq
    · exact (effectHeld_new collection opts s h).awaits
  | some item =>
    dsimp only
    split
    · rename_i hb
      have hrefused : (if p.stagedEdit.isSome then opts.mayContent = false
          else opts.mayRemove = false) → movedFrom item p.baseRevision = false →
          EffectHeld s h ((new collection opts).refuseDelete p).1 := by
        intro hrefused hunmoved
        have hkeep : opts.delete = .keep := by
          cases hd : opts.delete with
          | keep => rfl
          | revert => exact absurd (.reverted hs ho hb hunmoved hrefused hd) (hkeeps item rfl)
        have hsame : (new collection opts).refuseDelete p = (new collection opts, none) := by
          simp only [refuseDelete, new, hkeep]
        rw [hsame]
        exact effectHeld_new collection opts s h
      simp only [mergeTombstone]
      split
      · exact .pulled collection opts s h item
      · rename_i hunmoved
        rw [Bool.not_eq_true] at hunmoved
        cases hedit : p.stagedEdit.isSome with
        | false =>
          simp only [Bool.false_and, Bool.false_eq_true, if_false]
          split
          · rename_i hmay
            refine hrefused ?_ hunmoved
            simpa [hedit, hopts] using hmay
          · exact ⟨(effectHeld_new collection opts s h).writes,
              (effectHeld_new collection opts s h).awaits.flags,
              (effectHeld_new collection opts s h).awaits.content⟩
        | true =>
          simp only [ho, Bool.true_and, if_true]
          split
          · rename_i hmay
            refine hrefused ?_ hunmoved
            simpa [hedit, hopts] using hmay
          · have hh : p.handle = h := s.keyed h p hp
            have hstash : EffectHeld s h ((new collection opts).stashContent h p) := by
              refine ⟨(effectHeld_new collection opts s h).writes,
                (effectHeld_new collection opts s h).awaits.flags, ?_⟩
              intro q hq
              simp only [pendingAt, stashContent, OrderedMap.get_insert_self,
                Option.some.injEq] at hq
              subst hq
              exact Or.inr ⟨p, by rw [hh]; exact hp, hs, hb, hs, rfl⟩
            cases p.object with
            | none => exact ⟨hstash.writes, hstash.awaits.flags, hstash.awaits.content⟩
            | some o => exact hstash
    · exact .pulled collection opts s h item

/-- A pending create the remote does not list is only awaited. -/
theorem effect_created (hs : p.status = .created) (hb : p.base = none) :
    EffectHeld s h (effect collection opts ⟨h, some p, none⟩).1 := by
  have hnew := effectHeld_new collection opts s h
  rw [effect, merge_live _ _ (by rw [hs]; decide)]
  simp only [hb, Option.isSome_none, Bool.false_eq_true, if_false, mergeCreate]
  split
  · exact ⟨hnew.writes, hnew.awaits.flags, hnew.awaits.content⟩
  · exact hnew

end Candidates

/-- Recording a result writes no origin but a moved tombstone's own: an accepted create's is spent. -/
theorem record_held {s : CollectionRows} {pending : Pending} (hp : Awaited s pending)
    {collection : ReplicaCollectionId} {r : ReplicaPushResult} {q : ReplicaPlacement}
    (hq : .upsertPlacement q ∈ pending.record collection r) : Held s q := by
  simp only [Pending.record, List.mem_append, Option.mem_toList, Option.map_eq_some_iff] at hq
  rcases hq with ((⟨p, hf, hop⟩ | ⟨p, hc, hop⟩) | hop) | hop
  · cases hop
    exact Or.inl (hp.flags p hf)
  · cases hop
    rcases hp.content p hc with hnone | ⟨p', hp', hs, hb, hstatus, horigin⟩
    · exact Or.inl hnone
    · refine Or.inr ⟨p', hp', hs, hb, ?_, horigin⟩
      simp [contentRebased, hstatus]
  · split at hop
    · cases List.mem_singleton.mp hop
    · cases hop
  · cases hc : pending.created with
    | none => simp [hc] at hop
    | some p =>
      simp only [hc, Option.map_some, Option.getD_some, Pending.recordCreate, List.mem_cons,
        Option.mem_toList, Option.map_eq_some_iff, reduceCtorEq, false_or] at hop
      obtain ⟨g, -, hop⟩ := hop
      cases hop
      exact Or.inl rfl

section Runs

variable {collection : ReplicaCollectionId} {opts : ReplicaSyncOptions} {loaded : ReplicaLoaded}
  {snapshot : ReplicaRemoteSnapshot} {t : Transcript} {s : CollectionRows}

/-- The merge settles no row that carries an origin. -/
def Spares (opts : ReplicaSyncOptions) (snapshot : ReplicaRemoteSnapshot) (s : CollectionRows) :
    Prop :=
  ∀ (h : ReplicaHandle) (p : ReplicaPlacement), s.rows[h]? = some p →
    ¬ Settles opts (Merge.seen s.rows snapshot h) p

/-- A candidate carries no origin but as lawful rows do, and keeps it only on a moved tombstone. -/
theorem effect_held (hs : ∀ (h : ReplicaHandle) (p : ReplicaPlacement), s.rows[h]? = some p →
      Lawful p) (hspares : Spares opts snapshot s) {c : Candidate}
    (hc : Merge.candidateAt s.rows snapshot c.handle = some c) :
    EffectHeld s c.handle (effect collection opts c).1 := by
  have hloc := (Merge.candidateAt_spec hc).2
  have hseen : Merge.seen s.rows snapshot c.handle = c.remote := by
    simp [Merge.seen, hc]
  obtain ⟨h, loc, remote⟩ := c
  dsimp only at hloc hseen hc ⊢
  by_cases hnone : ∀ p, loc = some p → p.origin = none
  · exact effect_settled collection opts s (c := ⟨h, loc, remote⟩) hnone
  · simp only [not_forall] at hnone
    obtain ⟨p, hp, horigin⟩ := hnone
    subst hp
    have hspare := hspares h p hloc.symm
    rw [hseen] at hspare
    have hcarries : p.origin.isSome := Option.isSome_iff_ne_none.mpr horigin
    rcases hs h p hloc.symm hcarries with hmoved | ⟨hcreated, hb⟩
    · refine effect_moved hloc.symm hmoved hcarries ?_
      rintro item rfl
      exact hspare
    · cases remote with
      | none => exact effect_created hcreated hb
      | some item => exact absurd (.collided hcreated hcarries) hspare

/-- A run that settles no origin writes none but what a moved tombstone already carries. -/
theorem writes_held (h : Syncs collection opts loaded snapshot t)
    (hl : loaded.placements = s.placements)
    (hs : ∀ (h : ReplicaHandle) (p : ReplicaPlacement), s.rows[h]? = some p → Lawful p)
    (hspares : Spares opts snapshot s) {q : ReplicaPlacement}
    (hq : .upsertPlacement q ∈ t.writes) : Held s q := by
  obtain ⟨box, hwhole⟩ := h.whole
  have heffect : ∀ c ∈ mergedCandidates loaded snapshot,
      EffectHeld s c.handle (effect collection opts c).1 := by
    intro c hc
    rw [mem_mergedCandidates, hl, CollectionRows.collect_placements] at hc
    exact effect_held hs hspares hc
  have hbox : ∀ g, Awaited s (box g) := by
    intro g
    by_cases hg : ∃ c ∈ mergedCandidates loaded snapshot, c.handle = g
    · obtain ⟨c, hc, rfl⟩ := hg
      rw [hwhole.awaits c hc]
      exact (heffect c hc).awaits
    · simp only [not_exists, not_and] at hg
      rw [hwhole.idle g hg]
      exact .none s
  rw [hwhole.writes] at hq
  simp only [List.mem_append, List.mem_flatMap, List.mem_singleton] at hq
  rcases hq with ⟨c, hc, hq⟩ | hq | hq
  · exact (heffect c hc).writes q hq
  · obtain ⟨r, -, -, hq⟩ := Outbox.recordAll_mem t.pushes hq
    exact record_held (hbox r.handle) hq
  · cases hq

/-- A Remove is derived of a based tombstone, and names the destination it carries. -/
theorem removes_of (h : Syncs collection opts loaded snapshot t)
    (hl : loaded.placements = s.placements) {k : ReplicaChange} (hk : k ∈ t.changes)
    {g : ReplicaHandle} {dest : Option ReplicaCollectionId} {link : Option ReplicaLinkId}
    {ifMatch : Option String} (hkind : k.kind = .remove g dest link ifMatch) :
    ∃ p, s.rows[g]? = some p ∧ p.base.isSome ∧ dest = p.origin.map (·.collection) := by
  obtain ⟨box, hwhole⟩ := h.whole
  obtain ⟨c, hc, hh, hchange⟩ := hwhole.mem_changes.mp hk
  obtain ⟨kind, hderived, rfl⟩ := Option.map_eq_some_iff.mp hchange
  rw [ReplicaChange.new_kind] at hkind
  subst hkind
  have hcg : c.handle = g := by
    rw [hh, ReplicaChange.new_handle]
    rfl
  rw [mem_mergedCandidates, hl, CollectionRows.collect_placements] at hc
  have hloc := (Merge.candidateAt_spec hc).2
  rw [hcg] at hloc
  by_cases hlive : ∀ p, c.loc = some p → p.status ≠ .tombstone
  · exact absurd ⟨dest, link, ifMatch, rfl⟩ (merge_unremoved _ hlive (h := g) hderived)
  · simp only [not_forall, not_not] at hlive
    obtain ⟨p, hp, hs⟩ := hlive
    refine ⟨p, hloc.symm.trans hp, ?_⟩
    obtain ⟨f, loc, remote⟩ := c
    dsimp only at hp hcg
    subst hp hcg
    rw [effect, merge_tombstone _ _ hs] at hderived
    cases remote with
    | none => cases hderived
    | some item =>
      dsimp only at hderived
      split at hderived
      · rename_i hb
        refine ⟨hb, ?_⟩
        rcases mergeTombstone_change _ f p item hderived with hin | hremove
        · cases hin
        · cases hremove
          rfl
      · cases hderived

end Runs

/-- A turn taken over the storage. -/
inductive Turn
  | mutate (collection : ReplicaCollectionId) (mutation : ReplicaMutation) (loaded : ReplicaLoaded)
      (transcript : Transcript)
  | sync (collection : ReplicaCollectionId) (step : SyncStep)

namespace Turn

def transcript : Turn → Transcript
  | .mutate _ _ _ transcript => transcript
  | .sync _ step => step.transcript

/-- The row is removed. -/
def Removes (c : ReplicaCollectionId) (h : ReplicaHandle) (turn : Turn) : Prop :=
  ∃ loaded t, turn = .mutate c (.remove h) loaded t

/-- The row is moved away. -/
def Moves (c : ReplicaCollectionId) (h : ReplicaHandle) (turn : Turn) : Prop :=
  ∃ target placeholder loaded t, turn = .mutate c (.move h target placeholder) loaded t

/-- The turn leaves every destination with its move. -/
def Meets (s : Storage) : Turn → Prop
  | .mutate c mutation _ _ => ∀ (h : ReplicaHandle) (p : ReplicaPlacement),
      mutation.handle = some h → (s.rows c).rows[h]? = some p → ¬ Strands mutation p
  | .sync c step => Spares step.opts step.snapshot (s.rows c)

end Turn

/-- Mutations and syncs of any collections in any order, each over the rows the last one left. -/
structure Run (n : ℕ) (storage : ℕ → Storage) (turns : ℕ → Turn) : Prop where
  mutates : ∀ i < n, ∀ c mutation loaded t, turns i = .mutate c mutation loaded t →
    Mutates c mutation loaded t ∧ Serves ((storage i).rows c) t
  syncs : ∀ i < n, ∀ c step, turns i = .sync c step →
    Syncs c step.opts step.loaded step.snapshot step.transcript ∧
      step.loaded.placements = ((storage i).rows c).placements
  next : ∀ i < n, storage (i + 1) = (storage i).apply (turns i).transcript.writes

/-- Is a Remove the last membership mutation of the row, of the first `i` turns? -/
def LastRemoved (turns : ℕ → Turn) (c : ReplicaCollectionId) (h : ReplicaHandle) : ℕ → Prop
  | 0 => False
  | i + 1 => (turns i).Removes c h ∨ (LastRemoved turns c h i ∧ ¬ (turns i).Moves c h)

/-- No destination outlives its move: a row in place carries none, and a row last removed is removed
to none. -/
structure EndsWithMove (n : ℕ) (storage : ℕ → Storage) (turns : ℕ → Turn) : Prop where
  inPlace : ∀ i ≤ n, ∀ (c : ReplicaCollectionId) (h : ReplicaHandle) (p : ReplicaPlacement),
    ((storage i).rows c).rows[h]? = some p → InPlace p → p.origin = none
  removed : ∀ i < n, ∀ c step, turns i = .sync c step → ∀ k ∈ step.transcript.changes,
    ∀ h dest link ifMatch, k.kind = .remove h dest link ifMatch → LastRemoved turns c h i →
      dest = none

/-- What holds after every turn: rows carry origins as lawful rows do, and a based row that carries
one was last moved. -/
structure Inv (turns : ℕ → Turn) (i : ℕ) (s : Storage) : Prop where
  lawful : ∀ (c : ReplicaCollectionId) (h : ReplicaHandle) (p : ReplicaPlacement),
    (s.rows c).rows[h]? = some p → Lawful p
  moved : ∀ (c : ReplicaCollectionId) (h : ReplicaHandle) (p : ReplicaPlacement),
    (s.rows c).rows[h]? = some p → p.origin.isSome → p.base.isSome → ¬ LastRemoved turns c h i

section Turns

variable {n : ℕ} {storage : ℕ → Storage} {turns : ℕ → Turn} {i : ℕ} {s : Storage}

/-- What a turn writes keeps the invariant, given what it leaves of the ghost. -/
theorem Inv.apply (hinv : Inv turns i s) {ops : List ReplicaWriteOp}
    (hstood : ∀ (c : ReplicaCollectionId) (h : ReplicaHandle) (p : ReplicaPlacement),
      (s.rows c).rows[h]? = some p → p.origin.isSome → p.base.isSome →
        ¬ LastRemoved turns c h (i + 1))
    (hwritten : ∀ q, .upsertPlacement q ∈ ops → Lawful q ∧ (q.origin.isSome → q.base.isSome →
      ¬ LastRemoved turns q.collection q.handle (i + 1))) : Inv turns (i + 1) (s.apply ops) := by
  constructor
  · intro c h q hq
    rcases s.apply_mem hq with hold | hnew
    · exact hinv.lawful c h q hold
    · exact (hwritten q hnew).1
  · intro c h q hq ho hb
    rcases s.apply_mem hq with hold | hnew
    · exact hstood c h q hold ho hb
    · have hlast := (hwritten q hnew).2 ho hb
      rw [(s.apply ops).placed c h q hq, ((s.apply ops).rows c).keyed h q hq] at hlast
      exact hlast

theorem Turn.not_removes_sync {c d : ReplicaCollectionId} {h : ReplicaHandle} {step : SyncStep} :
    ¬ (Turn.sync d step).Removes c h := by
  rintro ⟨loaded, t, heq⟩
  cases heq

/-- A sync that settles no origin keeps the invariant. -/
theorem Inv.sync (hinv : Inv turns i s) {c : ReplicaCollectionId} {step : SyncStep}
    (hturn : turns i = .sync c step)
    (h : Syncs c step.opts step.loaded step.snapshot step.transcript)
    (hl : step.loaded.placements = (s.rows c).placements)
    (hspares : Spares step.opts step.snapshot (s.rows c)) :
    Inv turns (i + 1) (s.apply step.transcript.writes) := by
  have hlast : ∀ d g, LastRemoved turns d g (i + 1) → LastRemoved turns d g i := by
    rintro d g (hremoves | ⟨hlast, -⟩)
    · rw [hturn] at hremoves
      exact absurd hremoves Turn.not_removes_sync
    · exact hlast
  refine hinv.apply ?_ ?_
  · intro d g p hp ho hb hl'
    exact hinv.moved d g p hp ho hb (hlast d g hl')
  · intro q hq
    have hheld := writes_held h hl (hinv.lawful c) hspares hq
    have hcollection : q.collection = c := by
      have hwithin := h.within hl (s.placed c) _ hq
      exact Option.some.inj hwithin
    rcases hheld with hnone | ⟨p, hp, hs, hb, hstatus, horigin⟩
    · refine ⟨?_, ?_⟩
      · intro ho
        simp [hnone] at ho
      · intro ho
        simp [hnone] at ho
    · refine ⟨fun _ => Or.inl hstatus, fun ho _ hl' => ?_⟩
      rw [hcollection] at hl'
      rw [horigin] at ho
      exact hinv.moved c q.handle p hp ho hb (hlast c q.handle hl')

/-- The row an edit leaves, where it does not strand a destination. -/
theorem edited_lawful {p : ReplicaPlacement} (hp : Lawful p) (object : ReplicaHash)
    (metadata : Option ReplicaMeta) (sortKey : Option ReplicaSortKey)
    (hkept : p.status = .tombstone → p.origin.isSome →
      ∃ base, p.base = some base ∧ base.object = some object) :
    Lawful (ReplicaMutate.edited p object metadata sortKey) ∧
      ((ReplicaMutate.edited p object metadata sortKey).origin = p.origin) ∧
      (p.origin.isSome → (ReplicaMutate.edited p object metadata sortKey).base = p.base) := by
  have horigin : (ReplicaMutate.edited p object metadata sortKey).origin = p.origin := by
    simp only [ReplicaMutate.edited]
    split <;> split <;> rfl
  refine ⟨?_, horigin, ?_⟩
  · intro ho
    rw [horigin] at ho
    rcases hp ho with hs | ⟨hs, hb⟩
    · obtain ⟨base, hb, hobject⟩ := hkept hs ho
      left
      simp [ReplicaMutate.edited, hs, hb, hobject]
    · right
      simp [ReplicaMutate.edited, hs, hb]
  · intro ho
    have hs : p.status ≠ .conflict := by
      rcases hp ho with hs | ⟨hs, -⟩ <;> simp [hs]
    simp only [ReplicaMutate.edited, hs, decide_false, Bool.false_eq_true, if_false]
    split <;> rfl

/-- What a mutation leaves of the ghost at a row it neither removes nor moves. -/
theorem not_lastRemoved_succ {c : ReplicaCollectionId} {h : ReplicaHandle}
    (hlast : ¬ LastRemoved turns c h i) (hremoves : ¬ (turns i).Removes c h) :
    ¬ LastRemoved turns c h (i + 1) := by
  rintro (hr | ⟨hl, -⟩)
  · exact hremoves hr
  · exact hlast hl

/-- A row written in the place of another that carries as much keeps the invariant. -/
theorem Inv.kept (hinv : Inv turns i s) {c : ReplicaCollectionId} {h : ReplicaHandle}
    {p q : ReplicaPlacement} (hp : (s.rows c).rows[h]? = some p) (horigin : q.origin = p.origin)
    (hbase : p.origin.isSome → q.base = p.base) (hcollection : q.collection = p.collection)
    (hhandle : q.handle = p.handle) (hremoves : ¬ (turns i).Removes c h) :
    q.origin.isSome → q.base.isSome → ¬ LastRemoved turns q.collection q.handle (i + 1) := by
  intro ho hb
  rw [horigin] at ho
  rw [hbase ho] at hb
  rw [hcollection, hhandle, s.placed c h p hp, (s.rows c).keyed h p hp]
  exact not_lastRemoved_succ (hinv.moved c h p hp ho hb) hremoves

/-- A mutation that strands no destination keeps the invariant. -/
theorem Inv.mutate (hinv : Inv turns i s) {c : ReplicaCollectionId} {mutation : ReplicaMutation}
    {loaded : ReplicaLoaded} {t : Transcript} (hturn : turns i = .mutate c mutation loaded t)
    (h : Mutates c mutation loaded t) (hserves : Serves (s.rows c) t)
    (hmeets : (turns i).Meets s) : Inv turns (i + 1) (s.apply t.writes) := by
  obtain ⟨hstages, hloaded⟩ := h.stages
  rw [hturn] at hmeets
  have hremoves : ∀ d g, (turns i).Removes d g → d = c ∧ mutation = .remove g := by
    rintro d g ⟨loaded', t', heq⟩
    cases hturn.symm.trans heq
    exact ⟨rfl, rfl⟩
  generalize t.writes = ops at hstages ⊢
  refine hinv.apply ?_ ?_
  · intro d g p hp ho hb
    refine not_lastRemoved_succ (hinv.moved d g p hp ho hb) (fun hr => ?_)
    obtain ⟨rfl, rfl⟩ := hremoves d g hr
    exact hmeets g p rfl hp (.removed hb ho)
  · intro q hq
    cases hstages with
    | add handle linkId flags object body metadata sortKey apart =>
      simp only [List.mem_cons, reduceCtorEq, false_or, List.not_mem_nil, or_false] at hq
      cases hq
      exact ⟨fun ho => (by cases ho), fun ho => (by cases ho)⟩
    | @source _ g p hnames hfound =>
      have hpg : p.handle = g := by simpa using List.find?_some hfound
      have hp : (s.rows c).rows[g]? = some p := by
        have hmem := hserves p (hloaded ▸ List.mem_of_find?_eq_some hfound)
        rwa [hpg] at hmem
      have hlawful := hinv.lawful c g p hp
      have hcollection : p.collection = c := s.placed c g p hp
      have hstaged : ∀ target placeholder, Lawful (ReplicaMutate.stagedCopy p target placeholder) :=
        fun target placeholder _ => Or.inr ⟨rfl, rfl⟩
      cases mutation with
      | add => cases hnames
      | setFlags g' flags =>
        cases hnames
        simp only [ReplicaMutate.writes, ReplicaMutate.new, List.mem_singleton] at hq
        cases hq
        refine ⟨fun ho => ?_, hinv.kept hp rfl (fun _ => rfl) rfl rfl ?_⟩
        · rcases hlawful ho with hs | ⟨hs, hb⟩
          · exact Or.inl (by simp [ReplicaMutate.flagged, hs])
          · exact Or.inr ⟨by simp [ReplicaMutate.flagged, hs], hb⟩
        · intro hr
          cases (hremoves c g hr).2
      | remove g' =>
        cases hnames
        simp only [ReplicaMutate.writes, ReplicaMutate.new, List.mem_singleton] at hq
        cases hq
        refine ⟨fun _ => Or.inl rfl, fun ho hb => ?_⟩
        exact absurd (.removed hb ho) (hmeets g p rfl hp)
      | edit g' object body metadata sortKey =>
        cases hnames
        simp only [ReplicaMutate.writes, ReplicaMutate.new, List.mem_cons, reduceCtorEq, false_or,
          List.not_mem_nil, or_false] at hq
        cases hq
        obtain ⟨hrow, horigin, hbase⟩ := edited_lawful hlawful object.hash metadata sortKey (by
          intro hs ho
          by_contra hno
          refine hmeets g p rfl hp (.edited hs ho (fun base hb hobject => hno ⟨base, hb, hobject⟩)))
        refine ⟨hrow, hinv.kept hp horigin hbase ?_ ?_ ?_⟩
        · simp only [ReplicaMutate.edited]
          split <;> split <;> rfl
        · simp only [ReplicaMutate.edited]
          split <;> split <;> rfl
        · intro hr
          cases (hremoves c g hr).2
      | copy g' target placeholder =>
        simp only [ReplicaMutate.writes, ReplicaMutate.new, List.mem_singleton] at hq
        cases hq
        exact ⟨hstaged target placeholder, fun _ hb => (by cases hb)⟩
      | move g' target placeholder =>
        cases hnames
        simp only [ReplicaMutate.writes, ReplicaMutate.new, List.mem_append,
          List.mem_singleton] at hq
        rcases hq with hq | hq
        · split at hq
          · cases List.mem_singleton.mp hq
            exact ⟨hstaged target placeholder, fun _ hb => (by cases hb)⟩
          · cases hq
        · cases hq
          refine ⟨fun _ => Or.inl rfl, fun _ _ hlast => ?_⟩
          have hat : LastRemoved turns c g (i + 1) := by
            rw [← hcollection, ← hpg]
            exact hlast
          rcases hat with hr | ⟨-, hmoves⟩
          · cases (hremoves c g hr).2
          · exact hmoves ⟨target, placeholder, loaded, t, hturn⟩

/-- In every run that strands no destination, every destination ends with its move. -/
theorem ends_with_move (hrun : Run n storage turns)
    (hstart : ∀ (c : ReplicaCollectionId) (h : ReplicaHandle) (p : ReplicaPlacement),
      ((storage 0).rows c).rows[h]? = some p → Lawful p)
    (hmeets : ∀ i < n, (turns i).Meets (storage i)) : EndsWithMove n storage turns := by
  have hinv : ∀ i ≤ n, Inv turns i (storage i) := by
    intro i
    induction i with
    | zero => exact fun _ => ⟨hstart, fun _ _ _ _ _ _ hlast => hlast⟩
    | succ i ih =>
      intro hi
      have hprev := ih (Nat.le_of_succ_le hi)
      have hmeet := hmeets i hi
      rw [hrun.next i hi]
      cases hturn : turns i with
      | mutate c mutation loaded t =>
        obtain ⟨hmutates, hserves⟩ := hrun.mutates i hi c mutation loaded t hturn
        exact hprev.mutate hturn hmutates hserves hmeet
      | sync c step =>
        obtain ⟨hsync, hl⟩ := hrun.syncs i hi c step hturn
        rw [hturn] at hmeet
        exact hprev.sync hturn hsync hl hmeet
  constructor
  · intro i hi c h p hp hplace
    exact ((hinv i hi).lawful c h p hp).inPlace hplace
  · intro i hi c step hturn k hk h dest link ifMatch hkind hlast
    obtain ⟨hsync, hl⟩ := hrun.syncs i hi c step hturn
    obtain ⟨p, hp, hb, rfl⟩ := removes_of hsync hl hk hkind
    cases ho : p.origin with
    | none => rfl
    | some origin =>
      exact absurd hlast ((hinv i hi.le).moved c h p hp (by rw [ho]; rfl) hb)

end Turns

section Runs

/-- The storages turns lead to, each over the rows the last one left. -/
def states (s : Storage) (turns : ℕ → Turn) : ℕ → Storage
  | 0 => s
  | i + 1 => (states s turns i).apply (turns i).transcript.writes

/-- What staging a mutation of a stored row exchanges. -/
def staging (c : ReplicaCollectionId) (mutation : ReplicaMutation) (p : ReplicaPlacement) :
    Transcript :=
  [(.wantsLoad c mutation.scope, .load ⟨[p], none⟩),
    (.wantsWrite ((ReplicaMutate.new c mutation).writes p), .write)]

theorem staging_mutates (c : ReplicaCollectionId) {mutation : ReplicaMutation} {p : ReplicaPlacement}
    (h : mutation.handle = some p.handle) : Mutates c mutation ⟨[p], none⟩ (staging c mutation p) := by
  have hwritten : Coroutine.Runs ReplicaMutate.resume ⟨c, mutation, .pendingWrite⟩ (some .write) []
      (.ok ()) := .done rfl
  refine ⟨_, rfl, .ask rfl (.ask ?_ hwritten)⟩
  simp only [ReplicaMutate.resume, ReplicaMutate.new, h, List.find?_cons, decide_true]
  rfl

/-- The contacts hold one card, in sync with its remote. -/
def cards : Storage := Storage.empty.write (.upsertPlacement DeletedRow.syncedCard)

/-- A mutation of the card as it stands after the turns before. -/
def carded (mutation : ReplicaMutation) (p : ReplicaPlacement) : Turn :=
  .mutate ⟨"contacts"⟩ mutation ⟨[p], none⟩ (staging ⟨"contacts"⟩ mutation p)

theorem carded_mutates {s : Storage} {mutation m : ReplicaMutation} {p : ReplicaPlacement}
    (h : mutation.handle = some p.handle) (hp : (s.rows ⟨"contacts"⟩).rows[p.handle]? = some p)
    {c : ReplicaCollectionId} {loaded : ReplicaLoaded} {t : Transcript}
    (hturn : carded mutation p = .mutate c m loaded t) :
    Mutates c m loaded t ∧ Serves (s.rows c) t := by
  cases hturn
  refine ⟨staging_mutates _ h, ?_⟩
  intro q hq
  have hone : q = p := by simpa [staging, Transcript.loaded] using hq
  rw [hone]
  exact hp

/-- The card, moved to the archive. -/
def movedCard : ReplicaPlacement :=
  ReplicaMutate.movedAway DeletedRow.syncedCard ⟨"archive"⟩

def moveCard : Turn := carded (.move ⟨"a"⟩ ⟨"archive"⟩ ⟨"n"⟩) DeletedRow.syncedCard

theorem cards_row : (cards.rows ⟨"contacts"⟩).rows[DeletedRow.syncedCard.handle]? =
    some DeletedRow.syncedCard := by decide +kernel

theorem moved_row : ((cards.apply moveCard.transcript.writes).rows
    ⟨"contacts"⟩).rows[movedCard.handle]? = some movedCard := by decide +kernel

theorem cards_lawful (c : ReplicaCollectionId) (h : ReplicaHandle) (p : ReplicaPlacement)
    (hp : (cards.rows c).rows[h]? = some p) : Lawful p := by
  have hcards : cards = Storage.empty.apply [.upsertPlacement DeletedRow.syncedCard] := rfl
  rw [hcards] at hp
  rcases Storage.empty.apply_mem hp with hold | hnew
  · simp [Storage.empty, CollectionRows.empty] at hold
  · cases List.mem_singleton.mp hnew
    intro ho
    cases ho

/-- The remote still lists the card as it was synced. -/
def cardSnapshot : ReplicaRemoteSnapshot := ⟨[⟨⟨"a"⟩, .empty, some "1"⟩], [], true, ⟨[]⟩⟩

/-- The card removed, then synced to a remote that takes the remove. -/
def removal (s : Storage) : Seam where
  rows := s.rows ⟨"contacts"⟩
  checkpoint := none
  snapshot := cardSnapshot
  replies := [[⟨⟨"a"⟩, .accepted, none, none⟩]]

/-- A sync of the contacts over what the seam holds. -/
def contactSync (seam : Seam) (t : Transcript) : Turn :=
  .sync ⟨"contacts"⟩ ⟨.default, ⟨seam.rows.placements, none⟩, seam.snapshot, t⟩

/-- A card moved and then edited again carries its destination on; one moved and then removed is
removed to it. -/
theorem moved_card_keeps_destination :
    (∃ storage turns, Run 2 storage turns ∧
      (∀ (c : ReplicaCollectionId) (h : ReplicaHandle) (p : ReplicaPlacement),
        ((storage 0).rows c).rows[h]? = some p → Lawful p) ∧
      ∃ i ≤ 2, ∃ (c : ReplicaCollectionId) (h : ReplicaHandle) (p : ReplicaPlacement),
        ((storage i).rows c).rows[h]? = some p ∧ InPlace p ∧ p.origin ≠ none) ∧
    ∃ storage turns, Run 3 storage turns ∧
      (∀ (c : ReplicaCollectionId) (h : ReplicaHandle) (p : ReplicaPlacement),
        ((storage 0).rows c).rows[h]? = some p → Lawful p) ∧ ¬ EndsWithMove 3 storage turns := by
  constructor
  · let turns : ℕ → Turn := fun i => match i with
      | 0 => moveCard
      | _ => carded (.edit ⟨"a"⟩ ⟨⟨"new"⟩, 3⟩ [] none none) movedCard
    refine ⟨states cards turns, turns, ⟨?_, ?_, fun _ _ => rfl⟩, cards_lawful, 2, le_refl 2,
      ⟨"contacts"⟩, ⟨"a"⟩, ReplicaMutate.edited movedCard ⟨"new"⟩ none none, by decide +kernel,
      Or.inr (Or.inl (by decide)), by decide⟩
    · intro i hi c m loaded t hturn
      interval_cases i
      · exact carded_mutates rfl cards_row hturn
      · exact carded_mutates rfl moved_row hturn
    · intro i hi c step hturn
      interval_cases i <;> cases hturn
  · let removed : ℕ → Turn := fun i => match i with
      | 0 => moveCard
      | _ => carded (.remove ⟨"a"⟩) movedCard
    have hrun : ((removal (states cards removed 2)).sync 9 ⟨"contacts"⟩ .default).map
        (fun o => o.2.changes.map (·.kind)) =
          some [.remove ⟨"a"⟩ (some ⟨"archive"⟩) none (some "1")] := by decide +kernel
    obtain ⟨⟨s', t⟩, hd, hchanges⟩ := Option.map_eq_some_iff.mp hrun
    obtain ⟨hsync, -⟩ := Seam.sync_syncs hd
    let turns : ℕ → Turn := fun i => match i with
      | 0 => moveCard
      | 1 => carded (.remove ⟨"a"⟩) movedCard
      | _ => contactSync (removal (states cards removed 2)) t
    refine ⟨states cards turns, turns, ⟨?_, ?_, fun _ _ => rfl⟩, cards_lawful, ?_⟩
    · intro i hi c m loaded u hturn
      interval_cases i
      · exact carded_mutates rfl cards_row hturn
      · exact carded_mutates rfl moved_row hturn
      · cases hturn
    · intro i hi c step hturn
      interval_cases i
      · cases hturn
      · cases hturn
      · cases hturn
        exact ⟨hsync, rfl⟩
    · intro hends
      obtain ⟨k, hk, hkind⟩ := List.mem_map.mp
        (hchanges ▸ List.mem_singleton_self (ReplicaChangeKind.remove _ _ _ _))
      have hdest := hends.removed 2 (by decide) _ _ rfl k hk _ _ _ _ hkind
        (Or.inl ⟨_, _, rfl⟩)
      cases hdest

/-- With every right a sync leaves no origin behind, but on a pending copy the remote lists. -/
theorem spares_default {s : CollectionRows} (hs : ∀ p ∈ s.placements, p.status ≠ .created)
    (snapshot : ReplicaRemoteSnapshot) : Spares .default snapshot s := by
  intro h p hp hsettles
  have hmem : p ∈ s.placements := (s.mem_placements p).mpr ((s.keyed h p hp).symm ▸ hp)
  generalize Merge.seen s.rows snapshot h = remote at hsettles
  cases hsettles with
  | reverted moved carries based unmoved refused => split at refused <;> cases refused
  | collided created => exact hs p hmem created

/-- A sync of the contacts leaves the rows the seam was left with. -/
theorem contact_rows {s : Storage} {seam seam' : Seam} {t : Transcript}
    (hrows : seam.rows = s.rows ⟨"contacts"⟩)
    (h : seam.sync 9 ⟨"contacts"⟩ .default = some (seam', t)) :
    (s.apply t.writes).rows ⟨"contacts"⟩ = seam'.rows := by
  obtain ⟨hsync, hleft⟩ := Seam.sync_syncs h
  have hloaded : seam.rows.placements = (s.rows ⟨"contacts"⟩).placements := congrArg _ hrows
  rw [s.apply_rows (hsync.within hloaded (s.placed _)), Function.update_self, hleft, hrows]

/-- The card edited at the remote meanwhile, and the row it is pulled as. -/
def editedItem : ReplicaRemoteItem := ⟨⟨"a"⟩, .empty, some "2"⟩

def pulledCard : ReplicaPlacement := ReplicaSync.pulledPlacement ⟨"contacts"⟩ editedItem

def movedSeam : Seam where
  rows := (cards.apply moveCard.transcript.writes).rows ⟨"contacts"⟩
  checkpoint := none
  snapshot := ⟨[editedItem], [], true, ⟨[]⟩⟩
  replies := []

/-- The card pulled back, removed, then synced to a remote that takes the remove. -/
def removedSeam (rows : CollectionRows) : Seam where
  rows := rows.apply (carded (.remove ⟨"a"⟩) pulledCard).transcript.writes
  checkpoint := none
  snapshot := ⟨[editedItem], [], true, ⟨[]⟩⟩
  replies := [[⟨⟨"a"⟩, .accepted, none, none⟩]]

/-- A card moved, brought back by an edit at the remote, and then removed: it is removed to nowhere,
and no row in place carries a destination along the way. -/
theorem removed_card_ends : ∃ storage turns, Run 4 storage turns ∧ turns 0 = moveCard ∧
    ((storage 2).rows ⟨"contacts"⟩).rows[(⟨"a"⟩ : ReplicaHandle)]? = some pulledCard ∧
    (∃ step, turns 3 = .sync ⟨"contacts"⟩ step ∧ step.transcript.changes.map (·.kind) =
      [.remove ⟨"a"⟩ none none (some "2")]) ∧ EndsWithMove 4 storage turns := by
  have hrun : (movedSeam.sync 9 ⟨"contacts"⟩ .default).bind (fun o =>
      ((removedSeam o.1.rows).sync 9 ⟨"contacts"⟩ .default).map (fun o' =>
        (o.1.rows.placements, (removedSeam o.1.rows).rows.placements.map (·.status),
          o'.2.changes.map (·.kind)))) =
      some ([pulledCard], [.tombstone], [.remove ⟨"a"⟩ none none (some "2")]) := by
    decide +kernel
  obtain ⟨⟨s₁, t₁⟩, hd₁, hrest⟩ := Option.bind_eq_some_iff.mp hrun
  obtain ⟨⟨s₂, t₂⟩, hd₂, heq⟩ := Option.map_eq_some_iff.mp hrest
  simp only [Prod.mk.injEq] at heq
  obtain ⟨hpulled, hgone, hchanges⟩ := heq
  let turns : ℕ → Turn := fun i => match i with
    | 0 => moveCard
    | 1 => contactSync movedSeam t₁
    | 2 => carded (.remove ⟨"a"⟩) pulledCard
    | _ => contactSync (removedSeam s₁.rows) t₂
  have hrows₂ : (states cards turns 2).rows ⟨"contacts"⟩ = s₁.rows := contact_rows rfl hd₁
  have hrow₂ : s₁.rows.rows[(⟨"a"⟩ : ReplicaHandle)]? = some pulledCard :=
    (s₁.rows.mem_placements pulledCard).mp (hpulled ▸ List.mem_singleton_self _)
  have hrows₃ : (states cards turns 3).rows ⟨"contacts"⟩ = (removedSeam s₁.rows).rows := by
    have hown : ∀ op ∈ (carded (.remove ⟨"a"⟩) pulledCard).transcript.writes,
        op.collection = some ⟨"contacts"⟩ := by decide +kernel
    have hnext : (states cards turns 3).rows = Function.update (states cards turns 2).rows
        ⟨"contacts"⟩ (((states cards turns 2).rows ⟨"contacts"⟩).apply
          (carded (.remove ⟨"a"⟩) pulledCard).transcript.writes) :=
      (states cards turns 2).apply_rows hown
    rw [hnext, Function.update_self, hrows₂]
    rfl
  have hruns : Run 4 (states cards turns) turns := by
    refine ⟨?_, ?_, fun _ _ => rfl⟩
    · intro i hi c m loaded u hturn
      interval_cases i
      · exact carded_mutates rfl cards_row hturn
      · cases hturn
      · exact carded_mutates rfl ((congrArg (fun r => r.rows[pulledCard.handle]?) hrows₂).trans hrow₂)
          hturn
      · cases hturn
    · intro i hi c step hturn
      interval_cases i
      · cases hturn
      · cases hturn
        exact ⟨(Seam.sync_syncs hd₁).1, rfl⟩
      · cases hturn
      · cases hturn
        exact ⟨(Seam.sync_syncs hd₂).1, congrArg CollectionRows.placements hrows₃.symm⟩
  have hrow : ((states cards turns 2).rows ⟨"contacts"⟩).rows[(⟨"a"⟩ : ReplicaHandle)]? =
      some pulledCard := by
    rw [hrows₂]
    exact hrow₂
  refine ⟨states cards turns, turns, hruns, rfl, hrow, ⟨_, rfl, hchanges⟩,
    ends_with_move hruns cards_lawful ?_⟩
  intro i hi
  interval_cases i
  · intro h p hh hp hstrands
    cases hstrands
  · have hmoved : ∀ p ∈ movedSeam.rows.placements, p.status ≠ .created := by decide +kernel
    exact spares_default hmoved _
  · intro h p hh hp hstrands
    cases hh
    cases hp.symm.trans hrow
    cases hstrands with
    | removed based carries => cases carries
  · refine spares_default (fun p hp => ?_) _
    rw [hrows₃] at hp
    have hstatus := List.mem_map_of_mem (f := ReplicaPlacement.status) hp
    rw [hgone, List.mem_singleton] at hstatus
    rw [hstatus]
    decide

end Runs

end Destination
end IoReplica

import IoReplica.Completed
import IoReplica.Sync.Walk

/-! What the five verbs expect to be there is there, whatever they are resumed with. -/
namespace IoReplica

namespace ReplicaSync

section Merging
variable (a : ReplicaSync) (p : ReplicaPlacement) (item : ReplicaRemoteItem)

theorem pushContent_panicked {p : ReplicaPlacement} (ho : p.object.isSome)
    (ifMatch : Option String) : (a.pushContent p ifMatch).1.panicked = a.panicked := by
  obtain ⟨object, ho⟩ := Option.isSome_iff_exists.mp ho
  simp only [pushContent, ho]
  rfl

theorem stageConflictDup_panicked {p : ReplicaPlacement} (ho : p.object.isSome) :
    (a.stageConflictDup p).panicked = a.panicked := by
  obtain ⟨object, ho⟩ := Option.isSome_iff_exists.mp ho
  simp only [stageConflictDup, ho]
  rfl

/-- An edit both sides made is resolved over its body. -/
theorem resolveConflict_panicked {p : ReplicaPlacement} (ho : p.object.isSome) :
    (a.resolveConflict p item).1.panicked = a.panicked := by
  cases hpolicy : a.opts.conflict with
  | manual | preferRemote =>
    simp only [resolveConflict, hpolicy]
    rfl
  | preferLocal =>
    simp only [resolveConflict, hpolicy]
    split
    · rfl
    · exact a.pushContent_panicked ho item.revision
  | keepBoth =>
    simp only [resolveConflict, hpolicy]
    exact a.stageConflictDup_panicked ho

/-- A row changed locally has a body to push. -/
theorem object_of_localChanged {p : ReplicaPlacement} {base : ReplicaBase}
    (h : localChanged p base = true) : p.object.isSome := by
  simp only [localChanged, Bool.and_eq_true] at h
  exact h.1.2

theorem reconcileContent_panicked : (a.reconcileContent p item).1.panicked = a.panicked := by
  cases hb : p.base with
  | none =>
    simp only [reconcileContent, hb]
    split <;> rfl
  | some base =>
    simp only [reconcileContent, hb]
    split
    · split <;> rfl
    · cases hl : localChanged p base <;> cases movedFrom item base.revision
      · rfl
      · rfl
      · dsimp only
        split
        · rfl
        · exact a.pushContent_panicked (object_of_localChanged hl) base.revision
      · exact a.resolveConflict_panicked item (object_of_localChanged hl)

theorem reconcileFlags_panicked (allow : PushFlags) :
    (a.reconcileFlags p item allow).1.panicked = a.panicked := by
  cases hb : p.baseFlags with
  | none =>
    simp only [reconcileFlags, hb]
    rfl
  | some flags =>
    simp only [reconcileFlags, hb]
    cases decide (ReplicaFlags.merge flags p.flags item.flags ≠ p.flags) <;>
      cases decide (ReplicaFlags.merge flags p.flags item.flags ≠ item.flags)
    · dsimp only
      split <;> rfl
    · dsimp only
      simp only [Bool.false_eq_true, if_false]
      split <;> rfl
    · rfl
    · dsimp only
      simp only [if_true]
      split <;> rfl

theorem mergePresent_panicked : (a.mergePresent p item).1.panicked = a.panicked := by
  have hcontent := a.reconcileContent_panicked p item
  simp only [mergePresent]
  cases hc : a.reconcileContent p item with
  | mk b outcome =>
    rw [hc] at hcontent
    cases outcome <;> exact (b.reconcileFlags_panicked _ item _).trans hcontent

theorem refuseDelete_panicked : (a.refuseDelete p).1.panicked = a.panicked := by
  cases hpolicy : a.opts.delete with
  | keep => simp only [refuseDelete, hpolicy]
  | revert =>
    simp only [refuseDelete, hpolicy]
    rfl

/-- A staged edit that rides ahead of a move has its body. -/
theorem mergeTombstone_panicked (h : ReplicaHandle) :
    (a.mergeTombstone h p item).1.panicked = a.panicked := by
  simp only [mergeTombstone]
  split
  · rfl
  split
  · rename_i hstaged
    split
    · exact a.refuseDelete_panicked p
    · cases ho : p.object with
      | none => simp [ReplicaPlacement.stagedEdit, ho] at hstaged
      | some object => rfl
  · split
    · exact a.refuseDelete_panicked p
    · rfl

/-- Merging finds both sides where its guards say they are, whatever it is given. -/
theorem merge_panicked (c : Candidate) : (a.merge c).1.panicked = a.panicked := by
  obtain ⟨h, loc, remote⟩ := c
  cases loc with
  | none => cases remote <;> rfl
  | some p =>
    by_cases hs : p.status = .tombstone
    · rw [merge_tombstone _ _ hs]
      cases remote with
      | none => rfl
      | some item =>
        dsimp only
        split
        · exact a.mergeTombstone_panicked p item h
        · rfl
    · rw [merge_live _ _ hs]
      cases remote with
      | some item => exact a.mergePresent_panicked p item
      | none =>
        dsimp only
        split
        · simp only [mergeVanished]
          split
          · split <;> rfl
          · rfl
        · simp only [mergeCreate]
          split <;> rfl

theorem mergeCandidate_panicked (c : Candidate) : (a.mergeCandidate c).panicked = a.panicked := by
  have hmerge := a.merge_panicked c
  simp only [mergeCandidate]
  split <;> simp_all

theorem walk_panicked (cs : List Candidate) : (walk cs a).1.panicked = a.panicked := by
  induction cs generalizing a with
  | nil => rfl
  | cons c cs ih =>
    simp only [walk]
    split
    · exact a.mergeCandidate_panicked c
    · exact (ih _).trans (a.mergeCandidate_panicked c)

end Merging

section Settling
variable (a : ReplicaSync)

theorem settle_panicked (r : ReplicaPushResult) : (a.settle r).panicked = a.panicked := by
  have hflags : ∀ b : ReplicaSync, (b.settleFlags r.handle).1.panicked = b.panicked := by
    intro b
    simp only [settleFlags]
    split <;> rfl
  have hcontent : ∀ b : ReplicaSync, (b.settleContent r).1.panicked = b.panicked := by
    intro b
    simp only [settleContent]
    split <;> rfl
  have hdrop : ∀ b : ReplicaSync, (b.settleDrop r.handle).1.panicked = b.panicked := by
    intro b
    simp only [settleDrop]
    split <;> rfl
  have hcreate : ∀ b : ReplicaSync, (b.settleCreate r).1.panicked = b.panicked := by
    intro b
    simp only [settleCreate]
    split
    · cases r.assigned <;> rfl
    · rfl
  cases ho : r.outcome with
  | rejected =>
    simp only [settle, ho]
    rfl
  | accepted =>
    simp only [settle, ho]
    exact (hcreate _).trans ((hdrop _).trans ((hcontent _).trans (hflags a)))

theorem settleChunk_panicked (results : List ReplicaPushResult) :
    (a.settleChunk results).panicked = a.panicked := by
  have hforget : ∀ (hs : List ReplicaHandle) (b : ReplicaSync),
      (hs.foldl forget b).panicked = b.panicked := by
    intro hs
    induction hs with
    | nil => exact fun b => rfl
    | cons h hs ih => exact fun b => ih (b.forget h)
  have hsettle : ∀ (rs : List ReplicaPushResult) (b : ReplicaSync),
      (rs.foldl settle b).panicked = b.panicked := by
    intro rs
    induction rs with
    | nil => exact fun b => rfl
    | cons r rs ih => exact fun b => (ih (b.settle r)).trans (b.settle_panicked r)
  exact (hforget _ _).trans (hsettle results a)

theorem batch_panicked : a.batch.1.panicked = a.panicked := by
  by_cases hp : a.pushes = []
  · rw [batch_last _ hp]
  · rw [batch_pending _ hp]

end Settling

/-- Nothing expected was found missing, and a run that is merging has its merge. -/
structure Sound (a : ReplicaSync) : Prop where
  unpanicked : a.panicked = false
  merging : a.state = .merging → a.merging.isSome

variable {a : ReplicaSync}

theorem Sound.step (h : a.panicked = false) : Sound a.step.1 := by
  by_cases hp : a.pushes = []
  · rw [step_last _ hp]
    exact ⟨h, by simp⟩
  · rw [step_chunk hp]
    exact ⟨h, by simp [sent]⟩

/-- A merge in progress goes on to its next batch, or closes. -/
theorem Sound.mergeStep (h : a.panicked = false) {m : Merge} (hm : a.merging = some m) :
    Sound a.mergeStep.1 := by
  have ha : a = a.mergingAt m := by
    rw [mergingAt, ← hm]
  have hwalk := a.mergeStep_walk m
  have hpanicked := a.walk_panicked m.candidates
  rw [← ha] at hwalk
  cases hout : walk m.candidates a with
  | mk out rest =>
    rw [hout] at hwalk hpanicked
    cases rest with
    | none =>
      dsimp only at hwalk hpanicked
      rw [hwalk]
      exact .step (hpanicked.trans h)
    | some rest =>
      obtain ⟨m', -, -, hflush⟩ := hwalk
      dsimp only at hpanicked
      rw [hflush, mergingAt_flush]
      exact ⟨(batch_panicked _).trans (hpanicked.trans h), fun _ => rfl⟩

/-- Every resume keeps a run sound: one in kind, one out of turn, and one with nothing. -/
theorem Sound.resume (h : Sound a) (x : Option ReplicaArg) : Sound (a.resume x).1 := by
  cases x with
  | none =>
    cases hs : a.state <;> simp only [ReplicaSync.resume, hs]
    · exact ⟨h.unpanicked, by simp⟩
    all_goals exact ⟨h.unpanicked, h.merging⟩
  | some x =>
    cases hs : a.state with
    | start | done =>
      simp only [ReplicaSync.resume, hs]
      exact h
    | pendingLoad =>
      cases x <;> simp only [ReplicaSync.resume, hs]
      case load loaded => exact ⟨h.unpanicked, by simp⟩
      all_goals exact h
    | pendingEnumerate =>
      cases x <;> simp only [ReplicaSync.resume, hs]
      case enumerate snapshot => exact Sound.mergeStep h.unpanicked rfl
      all_goals exact h
    | merging =>
      cases x <;> simp only [ReplicaSync.resume, hs]
      case write =>
        obtain ⟨m, hm⟩ := Option.isSome_iff_exists.mp (h.merging hs)
        exact .mergeStep h.unpanicked hm
      all_goals exact h
    | pendingPush =>
      cases x <;> simp only [ReplicaSync.resume, hs]
      case push results =>
        refine ⟨?_, fun hmerging => ?_⟩
        · exact (batch_panicked _).trans ((a.settleChunk_panicked results).trans h.unpanicked)
        · rw [(batch_kept _).1] at hmerging
          cases hmerging
      all_goals exact h
    | pendingWrite =>
      cases x <;> simp only [ReplicaSync.resume, hs]
      case write =>
        split
        · exact ⟨h.unpanicked, by simp⟩
        · exact .step h.unpanicked
      all_goals exact h

/-- Resumed so, has the run found something it expects missing? -/
def Panics (self : ReplicaSync) (arg : Option ReplicaArg) : Prop :=
  (self.resume arg).1.panicked = true

end ReplicaSync

namespace ReplicaRekey

/-- Nothing expected was found missing, and a run that fetches has its checkpoint. -/
structure Sound (a : ReplicaRekey) : Prop where
  unpanicked : a.panicked = false
  enumerated : a.state = .pendingFetch → a.checkpoint.isSome

variable {a : ReplicaRekey}

theorem rebuild_unpanicked (h : a.panicked = false) (hc : a.checkpoint.isSome)
    (links : HandleMap Resolved) :
    (a.rebuild links).1.panicked = false ∧ (a.rebuild links).1.state = a.state := by
  obtain ⟨checkpoint, hc⟩ := Option.isSome_iff_exists.mp hc
  simp only [rebuild, hc]
  exact ⟨h, trivial⟩

theorem Sound.resume (h : Sound a) (x : Option ReplicaArg) : Sound (a.resume x).1 := by
  have hrebuilt : ∀ (b : ReplicaRekey) (links : HandleMap Resolved), b.panicked = false →
      b.checkpoint.isSome → b.state = .pendingWrite → Sound (b.rebuild links).1 := by
    intro b links hb hc hs
    obtain ⟨hpanicked, hstate⟩ := rebuild_unpanicked hb hc links
    refine ⟨hpanicked, fun hfetch => ?_⟩
    rw [hstate, hs] at hfetch
    cases hfetch
  cases x with
  | none =>
    cases hs : a.state <;> simp only [ReplicaRekey.resume, hs]
    · exact ⟨h.unpanicked, by simp⟩
    all_goals exact ⟨h.unpanicked, h.enumerated⟩
  | some x =>
    cases hs : a.state with
    | start | done =>
      simp only [ReplicaRekey.resume, hs]
      exact h
    | pendingLoad =>
      cases x <;> simp only [ReplicaRekey.resume, hs]
      case load loaded => exact ⟨h.unpanicked, by simp⟩
      all_goals exact h
    | pendingEnumerate =>
      cases x <;> simp only [ReplicaRekey.resume, hs]
      case enumerate snapshot =>
        split
        · exact ⟨h.unpanicked, fun _ => rfl⟩
        · exact hrebuilt _ _ h.unpanicked rfl rfl
      all_goals exact h
    | pendingFetch =>
      cases x <;> simp only [ReplicaRekey.resume, hs]
      case fetch fetched => exact hrebuilt _ _ h.unpanicked (h.enumerated hs) rfl
      all_goals exact h
    | pendingWrite =>
      cases x <;> simp only [ReplicaRekey.resume, hs]
      case write => exact ⟨h.unpanicked, by simp⟩
      all_goals exact h

/-- Resumed so, has the run found something it expects missing? -/
def Panics (self : ReplicaRekey) (arg : Option ReplicaArg) : Prop :=
  (self.resume arg).1.panicked = true

end ReplicaRekey

namespace ReplicaMutate

/-- Resumed so, does the run look for the handle of a mutation that has none? -/
def Panics (self : ReplicaMutate) (arg : Option ReplicaArg) : Prop :=
  match self.state, arg, self.mutation with
  | .pendingLoad, some (.load _), .add .. => False
  | .pendingLoad, some (.load _), mutation => mutation.handle = none
  | _, _, _ => False

theorem not_panics (self : ReplicaMutate) (arg : Option ReplicaArg) : ¬ self.Panics arg := by
  obtain ⟨collection, mutation, state⟩ := self
  simp only [Panics]
  split
  · exact not_false
  · rename_i hmutation
    cases mutation with
    | add => exact absurd rfl (hmutation _ _ _ _ _ _ _)
    | setFlags | remove | edit | copy | move => exact Option.some_ne_none _
  · exact not_false

end ReplicaMutate

namespace ReplicaUpgrade

/-- An upgrade expects nothing: a row or a body it does not find, it leaves out. -/
def Panics (_ : ReplicaUpgrade) (_ : Option ReplicaArg) : Prop := False

end ReplicaUpgrade

namespace ReplicaOpen

/-- An open expects nothing: it hands back what it was given. -/
def Panics (_ : ReplicaOpen) (_ : Option ReplicaArg) : Prop := False

end ReplicaOpen

/-- Resumed with anything in any order, in kind or out of turn, no verb reaches what it expects and
finds it missing: a sync its rows, items, staged bodies and merge, a rekey its checkpoint, a mutation
its handle. -/
theorem nothing_expected_is_missing :
    (∀ collection opts args,
        ReplicaSync.contract.Never ReplicaSync.Panics (.new collection opts) args) ∧
      (∀ collection handles tier args,
        ReplicaUpgrade.contract.Never ReplicaUpgrade.Panics (.new collection handles tier) args) ∧
      (∀ collection mutation args,
        ReplicaMutate.contract.Never ReplicaMutate.Panics (.new collection mutation) args) ∧
      (∀ collection args,
        ReplicaRekey.contract.Never ReplicaRekey.Panics (.new collection) args) ∧
      ∀ collection args, ReplicaOpen.contract.Never ReplicaOpen.Panics (.new collection) args := by
  refine ⟨fun collection opts args => ?_, fun _ _ _ _ _ _ _ _ => not_false,
    fun collection mutation args ran a later _ => ReplicaMutate.not_panics _ a,
    fun collection args => ?_, fun _ _ _ _ _ _ => not_false⟩
  · refine Coroutine.Contract.never_of_invariant ReplicaSync.contract (I := ReplicaSync.Sound)
      (fun c a h => h.resume a) (fun c a h hp => ?_) ⟨rfl, by simp [ReplicaSync.new]⟩ args
    have hsound := (h.resume a).unpanicked
    rw [ReplicaSync.Panics, hsound] at hp
    cases hp
  · refine Coroutine.Contract.never_of_invariant ReplicaRekey.contract (I := ReplicaRekey.Sound)
      (fun c a h => h.resume a) (fun c a h hp => ?_) ⟨rfl, by simp [ReplicaRekey.new]⟩ args
    have hsound := (h.resume a).unpanicked
    rw [ReplicaRekey.Panics, hsound] at hp
    cases hp

end IoReplica

import IoReplica.Sync.Candidates
import IoReplica.Sync.Local
import IoReplica.Sync.Push

/-! A whole sync run, whatever its batches and its chunks: every candidate merged, then every push
recorded. -/
namespace IoReplica
namespace ReplicaSync

/-- Merges every candidate, in order. -/
def mergeAll (self : ReplicaSync) (candidates : List Candidate) : ReplicaSync :=
  candidates.foldl mergeCandidate self

theorem extend_mergeCandidate (self d : ReplicaSync) (c : Candidate) :
    (self.extend d).mergeCandidate c = self.extend (d.mergeCandidate c) := by
  simp only [mergeCandidate, extend_merge]
  cases hd : d.merge c with
  | mk d' change =>
    cases change with
    | none => rfl
    | some kind => simp [extend]

theorem extend_mergeAll (self d : ReplicaSync) (cs : List Candidate) :
    (self.extend d).mergeAll cs = self.extend (d.mergeAll cs) := by
  induction cs generalizing d with
  | nil => rfl
  | cons c cs ih =>
    have h := ih (d.mergeCandidate c)
    rw [← extend_mergeCandidate] at h
    exact h

/-- The run as it would stand had its last batches not been flushed. -/
def unflushed (self : ReplicaSync) (m : Option Merge) (s : SyncState)
    (ops : List ReplicaWriteOp) : ReplicaSync :=
  { self with merging := m, state := s, writes := ops ++ self.writes }

theorem unflushed_mergeAll (self : ReplicaSync) (m : Option Merge) (s : SyncState)
    (ops : List ReplicaWriteOp) (cs : List Candidate) :
    (self.unflushed m s ops).mergeAll cs = (self.mergeAll cs).unflushed m s ops := by
  have hext : ∀ d, (self.unflushed m s ops).extend d = (self.extend d).unflushed m s ops := by
    intro d
    simp [extend, unflushed]
  have hu := extend_mergeAll (self.unflushed m s ops) (new self.collection self.opts) cs
  have hs := extend_mergeAll self (new self.collection self.opts) cs
  have hnew : (self.unflushed m s ops).extend (new self.collection self.opts) =
      self.unflushed m s ops := extend_new (self.unflushed m s ops)
  rw [hnew, hext] at hu
  rw [extend_new] at hs
  rw [hu, hs]

theorem nextCheckpoint_mergeAll (self : ReplicaSync) (cs : List Candidate) :
    (self.mergeAll cs).nextCheckpoint = self.nextCheckpoint := by
  have h := extend_mergeAll self (new self.collection self.opts) cs
  rw [extend_new] at h
  rw [h]
  rfl

/-- The run with its merge closed on a checkpoint. -/
def closed (self : ReplicaSync) (checkpoint : ReplicaCheckpoint) : ReplicaSync :=
  { self with merging := none, nextCheckpoint := some checkpoint }

theorem closeMerge_ends {self : ReplicaSync} {m : Merge} {t : Transcript}
    {report : ReplicaSyncReport} (hm : self.merging = some m)
    (h : Ends self.closeMerge t (.ok report)) : PushSpec (self.closed m.checkpoint) t := by
  simp only [closeMerge, hm] at h
  exact (step_drains h).spec

theorem PushSpec.flush {a b : ReplicaSync} {t : Transcript} {ops : List ReplicaWriteOp}
    {answer : ReplicaArg} (h : PushSpec a t) (hc : b.collection = a.collection)
    (hp : b.pushes = a.pushes) (hk : b.nextCheckpoint = a.nextCheckpoint)
    (ha : b.pendingAt = a.pendingAt) (hw : b.writes = ops ++ a.writes) :
    PushSpec b ((.wantsWrite ops, answer) :: t) := by
  have hclosing : b.closing = a.closing := by
    rw [closing, closing, hk, hc]
  refine ⟨?_, ?_⟩
  · rw [hp]
    exact h.pushes
  · rw [hw, hc, ha, hclosing, List.append_assoc]
    exact congrArg (ops ++ ·) h.writes

theorem ends_merging {self : ReplicaSync} {b : ReplicaArg} {t : Transcript}
    {report : ReplicaSyncReport} (h : Coroutine.Runs resume self (some b) t (.ok report))
    (hs : self.state = .merging) : Ends self.mergeStep t (.ok report) := by
  have he := h.ends
  cases b with
  | write => simpa only [resume, hs] using he
  | enumerate | fetch | push | load | lookupObject =>
    simp only [resume, hs] at he
    exact absurd he.2 (by simp)

/-- The run with its accumulated writes handed to storage. -/
def flushed (self : ReplicaSync) : ReplicaSync := { self with state := .merging, writes := [] }

theorem flush_batch {self : ReplicaSync} (hk : self.nextCheckpoint = none) :
    ({ self with state := .merging } : ReplicaSync).batch = (self.flushed, self.writes) :=
  batch_unclosed hk

/-- However the merge is batched, a run goes on as if every candidate were merged at once. -/
theorem mergeLoop_ends (fuel : ℕ) (self : ReplicaSync) (m : Merge) (t : Transcript)
    (report : ReplicaSyncReport) (hm : self.merging = some m) (hf : m.join.size ≤ fuel)
    (hk : self.nextCheckpoint = none) (h : Ends (self.mergeLoop fuel) t (.ok report)) :
    PushSpec ((self.mergeAll m.candidates).closed m.checkpoint) t := by
  induction fuel using Nat.strong_induction_on generalizing self m t with
  | _ fuel ih =>
    cases fuel with
    | zero =>
      have hz : m.join.size = 0 := Nat.le_zero.mp hf
      have hnil : m.candidates = [] := by simp [Merge.candidates, hz, Join.drain]
      rw [hnil]
      exact closeMerge_ends hm h
    | succ fuel =>
      have hspec := m.nextCandidate_spec
      simp only [mergeLoop, hm, Option.bind_some] at h
      generalize m.nextCandidate = out at hspec h
      cases hspec with
      | none empty =>
        rw [empty]
        exact closeMerge_ends hm h
      | @some c j candidates size =>
        dsimp only at h
        rw [candidates]
        let next : Merge := { m with join := j }
        let merged := ({ self with merging := some next } : ReplicaSync).mergeCandidate c
        have hall : ∀ cs, merged.mergeAll cs =
            (self.mergeAll (c :: cs)).unflushed (some next) self.state [] :=
          fun cs => unflushed_mergeAll self (some next) self.state [] (c :: cs)
        have hmerged : merged = (self.mergeAll [c]).unflushed (some next) self.state [] := hall []
        have hk' : merged.nextCheckpoint = none := by
          rw [hmerged]
          exact (nextCheckpoint_mergeAll self [c]).trans hk
        split at h
        · rw [flush_batch hk'] at h
          obtain ⟨b, u, rfl, hruns⟩ := h
          have hm' : merged.merging = some next := by rw [hmerged]; rfl
          have hends := ends_merging hruns rfl
          have hstep : merged.flushed.mergeStep = merged.flushed.mergeLoop j.size := by
            have hf' : merged.flushed.merging = some next := hm'
            rw [mergeStep, hf']
            rfl
          rw [hstep] at hends
          have hrest := ih j.size (by omega) merged.flushed next u hm' le_rfl hk' hends
          have hflush := hall next.candidates
          have hsplit : merged = merged.flushed.unflushed (some next) merged.state
              merged.writes := by
            rw [← hm']
            simp [unflushed, flushed]
          rw [hsplit, unflushed_mergeAll] at hflush
          exact hrest.flush (congrArg collection hflush).symm (congrArg pushes hflush).symm rfl
            (congrArg pendingAt hflush).symm (congrArg writes hflush).symm
        · have hrest := ih fuel (by omega) merged next t (by rw [hmerged]; rfl)
            (by dsimp only [next]; omega) hk' h
          rw [hall] at hrest
          exact ⟨hrest.pushes, hrest.writes⟩

end ReplicaSync
end IoReplica

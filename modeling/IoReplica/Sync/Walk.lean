import IoReplica.Sync.Run

/-! The merge loop as a walk over its candidates, cut where a batch is full. -/
namespace IoReplica
namespace ReplicaSync

/-- Merges candidates until a batch is full: what is queued then, and the candidates left, if it
is. -/
def walk : List Candidate → ReplicaSync → ReplicaSync × Option (List Candidate)
  | [], self => (self, none)
  | c :: cs, self =>
    let self := self.mergeCandidate c
    if WRITE_CHUNK ≤ self.writes.length then (self, some cs) else walk cs self

/-- A full batch handed to storage, the merge to go on after. -/
def flush (self : ReplicaSync) : ReplicaSync × Step :=
  let (self, ops) := { self with state := .merging }.batch
  (self, .yielded (.wantsWrite ops))

/-- The run with its merge at another point. -/
def mergingAt (self : ReplicaSync) (m : Merge) : ReplicaSync := { self with merging := some m }

theorem mergingAt_mergeCandidate (self : ReplicaSync) (m : Merge) (c : Candidate) :
    (self.mergingAt m).mergeCandidate c = (self.mergeCandidate c).mergingAt m := by
  have h := unflushed_mergeAll self (some m) self.state [] [c]
  have hstate : (self.mergeCandidate c).state = self.state := by
    have hext := extend_mergeCandidate self (new self.collection self.opts) c
    rw [extend_new] at hext
    rw [hext]
    rfl
  have hout : (self.mergeCandidate c).unflushed (some m) self.state [] =
      (self.mergeCandidate c).mergingAt m := by
    rw [← hstate]
    rfl
  exact h.trans hout

theorem mergingAt_walk (self : ReplicaSync) (m : Merge) (cs : List Candidate) :
    walk cs (self.mergingAt m) = ((walk cs self).1.mergingAt m, (walk cs self).2) := by
  induction cs generalizing self with
  | nil => rfl
  | cons c cs ih =>
    have hwrites : ((self.mergeCandidate c).mergingAt m).writes = (self.mergeCandidate c).writes :=
      rfl
    simp only [walk, mergingAt_mergeCandidate, hwrites]
    split
    · rfl
    · exact ih _

/-- The merge loop walks its candidates, then flushes the full batch or closes the merge. -/
theorem mergeLoop_walk (fuel : ℕ) (self : ReplicaSync) (m : Merge) (hm : self.merging = some m)
    (hf : m.join.size ≤ fuel) :
    match walk m.candidates self with
    | (out, none) => self.mergeLoop fuel = (out.closed m.checkpoint).step
    | (out, some rest) => ∃ m' : Merge, m'.checkpoint = m.checkpoint ∧ m'.candidates = rest ∧
        self.mergeLoop fuel = (out.mergingAt m').flush := by
  induction fuel generalizing self m with
  | zero =>
    have hz : m.join.size = 0 := Nat.le_zero.mp hf
    have hnil : m.candidates = [] := by simp [Merge.candidates, hz, Join.drain]
    rw [hnil]
    simp only [walk, mergeLoop, closeMerge, hm]
    rfl
  | succ fuel ih =>
    have hspec := m.nextCandidate_spec
    simp only [mergeLoop, hm, Option.bind_some]
    generalize m.nextCandidate = out at hspec
    cases hspec with
    | none empty =>
      rw [empty]
      simp only [walk, closeMerge, hm]
      rfl
    | @some c j candidates size =>
      let next : Merge := { m with join := j }
      have hmerged : ({ self with merging := some next } : ReplicaSync).mergeCandidate c =
          (self.mergeCandidate c).mergingAt next := mergingAt_mergeCandidate self next c
      have hwrites : ((self.mergeCandidate c).mergingAt next).writes =
          (self.mergeCandidate c).writes := rfl
      rw [candidates]
      dsimp only [walk]
      rw [hmerged, hwrites]
      by_cases hfull : WRITE_CHUNK ≤ (self.mergeCandidate c).writes.length
      · rw [if_pos hfull, if_pos hfull]
        exact ⟨next, rfl, rfl, rfl⟩
      · rw [if_neg hfull, if_neg hfull]
        have hrest := ih ((self.mergeCandidate c).mergingAt next) next rfl
          (by dsimp only [next]; omega)
        rw [mergingAt_walk] at hrest
        cases hw : walk next.candidates (self.mergeCandidate c) with
        | mk out rest =>
          rw [hw] at hrest
          cases rest with
          | none => exact hrest
          | some rest => exact hrest

theorem mergeStep_walk (self : ReplicaSync) (m : Merge) :
    match walk m.candidates self with
    | (out, none) => (self.mergingAt m).mergeStep = (out.closed m.checkpoint).step
    | (out, some rest) => ∃ m' : Merge, m'.checkpoint = m.checkpoint ∧ m'.candidates = rest ∧
        (self.mergingAt m).mergeStep = (out.mergingAt m').flush := by
  have hloop := mergeLoop_walk m.join.size (self.mergingAt m) m rfl le_rfl
  rw [mergingAt_walk] at hloop
  have hstep : (self.mergingAt m).mergeStep = (self.mergingAt m).mergeLoop m.join.size := rfl
  rw [hstep]
  cases hw : walk m.candidates self with
  | mk out rest =>
    rw [hw] at hloop
    cases rest with
    | none => exact hloop
    | some rest => exact hloop

/-- A flush touches the batch, never where the merge is. -/
theorem mergingAt_flush (self : ReplicaSync) (m : Merge) :
    (self.mergingAt m).flush = (self.flush.1.mergingAt m, self.flush.2) := by
  by_cases hp : self.pushes = []
  · simp only [flush, batch_last { self with state := .merging } hp,
      batch_last { self.mergingAt m with state := .merging } hp]
    rfl
  · simp only [flush, batch_pending { self with state := .merging } hp,
      batch_pending { self.mergingAt m with state := .merging } hp]
    rfl

theorem flush_kept (self : ReplicaSync) :
    self.flush.1.collection = self.collection ∧ self.flush.1.opts = self.opts ∧
      self.flush.1.state = .merging ∧ self.flush.1.writes = [] := by
  by_cases hp : self.pushes = []
  · simp only [flush, batch_last { self with state := .merging } hp, and_self]
  · simp only [flush, batch_pending { self with state := .merging } hp, and_self]

end ReplicaSync
end IoReplica

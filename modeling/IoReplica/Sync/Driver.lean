import IoReplica.Sync.Run
import Mathlib.Data.Prod.Lex

/-! A driver answering every request in kind completes a sync run. -/
namespace IoReplica

/-- The answer is of the request's kind. -/
def ReplicaArg.Answers : ReplicaArg → ReplicaYield → Prop
  | .load _, .wantsLoad .. => True
  | .enumerate _, .wantsEnumerate .. => True
  | .fetch _, .wantsFetch .. => True
  | .push _, .wantsPush .. => True
  | .lookupObject _, .wantsLookupObject _ => True
  | .write, .wantsWrite _ => True
  | _, _ => False

namespace ReplicaSync

/-- The state waits for what it is resumed with. -/
def Awaits (self : ReplicaSync) (arg : Option ReplicaArg) : Prop :=
  match self.state, arg with
  | .start, none => True
  | .pendingLoad, some (.load _) => True
  | .pendingEnumerate, some (.enumerate _) => True
  | .merging, some .write => True
  | .pendingPush, some (.push _) => True
  | .pendingWrite, some .write => True
  | _, _ => False

/-- The phase a run is in, then what the phase still has to walk. -/
def rank (self : ReplicaSync) : ℕ ×ₗ ℕ :=
  match self.state with
  | .start => toLex (4, 0)
  | .pendingLoad => toLex (3, 0)
  | .pendingEnumerate => toLex (2, 0)
  | .merging => toLex (1, self.merging.elim 0 (·.join.size))
  | .pendingPush => toLex (0, 2 * self.pushes.length + 1)
  | .pendingWrite => toLex (0, 2 * self.pushes.length)
  | .done => toLex (0, 0)

/-- A request a run waits on, with its rank below a bound. -/
def Waits (out : ReplicaSync × Step) (bound : ℕ ×ₗ ℕ) : Prop :=
  match out with
  | (self, .yielded y) =>
    (∀ b : ReplicaArg, b.Answers y → self.Awaits (some b)) ∧ self.rank < bound
  | (_, .complete _) => False

theorem Waits.mono {out : ReplicaSync × Step} {a b : ℕ ×ₗ ℕ} (h : Waits out a) (hab : a ≤ b) :
    Waits out b := by
  obtain ⟨self, step⟩ := out
  cases step with
  | yielded y => exact ⟨h.1, h.2.trans_le hab⟩
  | complete r => exact h

theorem awaits_write {self : ReplicaSync} {ops : List ReplicaWriteOp}
    (hs : self.state = .pendingWrite ∨ self.state = .merging) (b : ReplicaArg)
    (hb : b.Answers (.wantsWrite ops)) : self.Awaits (some b) := by
  cases b with
  | write => rcases hs with hs | hs <;> simp [Awaits, hs]
  | enumerate | fetch | push | load | lookupObject => exact absurd hb id

theorem batch_kept (self : ReplicaSync) :
    self.batch.1.state = self.state ∧ self.batch.1.merging = self.merging ∧
      self.batch.1.pushes = self.pushes := by
  by_cases hp : self.pushes = []
  · rw [batch_last _ hp]
    exact ⟨rfl, rfl, rfl⟩
  · rw [batch_pending _ hp]
    exact ⟨rfl, rfl, rfl⟩

theorem step_waits (self : ReplicaSync) (k : ℕ) : Waits self.step (toLex (1, k)) := by
  by_cases hp : self.pushes = []
  · rw [step_last _ hp]
    refine ⟨fun b hb => awaits_write (Or.inl rfl) b hb, ?_⟩
    exact Prod.Lex.toLex_lt_toLex.mpr (Or.inl Nat.zero_lt_one)
  · rw [step_chunk hp]
    refine ⟨?_, Prod.Lex.toLex_lt_toLex.mpr (Or.inl Nat.zero_lt_one)⟩
    intro b hb
    cases b with
    | push results => trivial
    | enumerate | fetch | write | load | lookupObject => exact absurd hb id

theorem step_waits_pushes {self : ReplicaSync} (hp : self.pushes ≠ []) :
    Waits self.step (toLex (0, 2 * self.pushes.length)) := by
  have hlen : 0 < self.pushes.length := List.length_pos_of_ne_nil hp
  have hwaits := self.step_waits 0
  rw [step_chunk hp] at hwaits ⊢
  refine ⟨hwaits.1, Prod.Lex.toLex_lt_toLex.mpr (Or.inr ⟨rfl, ?_⟩)⟩
  simp only [sent, List.length_drop, PUSH_CHUNK]
  omega

theorem closeMerge_waits (self : ReplicaSync) (k : ℕ) : Waits self.closeMerge (toLex (1, k)) := by
  simp only [closeMerge]
  split
  · exact step_waits _ k
  · exact step_waits _ k

theorem mergeLoop_waits (fuel : ℕ) (self : ReplicaSync) (k : ℕ)
    (hk : self.merging.elim 0 (·.join.size) ≤ k) :
    Waits (self.mergeLoop fuel) (toLex (1, k)) := by
  induction fuel generalizing self with
  | zero => exact closeMerge_waits self k
  | succ fuel ih =>
    cases hm : self.merging with
    | none =>
      simp only [mergeLoop, hm, Option.bind_none]
      exact closeMerge_waits self k
    | some m =>
      have hspec := m.nextCandidate_spec
      simp only [mergeLoop, hm, Option.bind_some]
      generalize m.nextCandidate = out at hspec
      cases hspec with
      | none empty => exact closeMerge_waits self k
      | @some c j candidates size =>
        rw [hm] at hk
        have hlt : j.size < k := size.trans_le hk
        dsimp only
        generalize hmerged : mergeCandidate _ c = merged
        have hmm : merged.merging = some { m with join := j } := by
          rw [← hmerged]
          exact congrArg merging (unflushed_mergeAll self (some { m with join := j }) self.state
            [] [c])
        split
        · obtain ⟨hs, hb, -⟩ := batch_kept { merged with state := .merging }
          refine ⟨fun b hb => awaits_write (Or.inr hs) b hb, ?_⟩
          rw [rank, hs, hb, hmm]
          exact Prod.Lex.toLex_lt_toLex.mpr (Or.inr ⟨rfl, hlt⟩)
        · refine ih merged ?_
          rw [hmm]
          exact hlt.le

/-- A resume the state waits for either asks on, closer to its end, or completes without an
error. -/
theorem resume_awaited {self : ReplicaSync} {a : Option ReplicaArg} (ha : self.Awaits a) :
    Waits (self.resume a) self.rank ∨ ∃ s report, self.resume a = (s, .complete (.ok report)) := by
  obtain _ | b := a
  · cases hs : self.state with
    | start =>
      have hr : self.resume none = ({ self with state := .pendingLoad },
          .yielded (.wantsLoad self.collection .all)) := by simp only [resume, hs]
      rw [hr, rank, hs]
      refine Or.inl ⟨?_, Prod.Lex.toLex_lt_toLex.mpr (Or.inl (by decide))⟩
      intro b hb
      cases b with
      | load => trivial
      | enumerate | fetch | push | write | lookupObject => exact absurd hb id
    | pendingLoad | pendingEnumerate | merging | pendingPush | pendingWrite | done =>
      exact absurd ha (by simp [Awaits, hs])
  · cases hs : self.state with
    | start | done => exact absurd ha (by simp [Awaits, hs])
    | pendingLoad =>
      cases b with
      | load loaded =>
        simp only [resume, hs, rank]
        refine Or.inl ⟨?_, Prod.Lex.toLex_lt_toLex.mpr (Or.inl (by decide))⟩
        intro b hb
        cases b with
        | enumerate => trivial
        | load | fetch | push | write | lookupObject => exact absurd hb id
      | enumerate | fetch | push | write | lookupObject =>
        exact absurd ha (by simp [Awaits, hs])
    | pendingEnumerate =>
      cases b with
      | enumerate snapshot =>
        simp only [resume, hs, rank]
        refine Or.inl ((mergeLoop_waits _ _ _ le_rfl).mono ?_)
        exact (Prod.Lex.toLex_lt_toLex.mpr (Or.inl Nat.one_lt_two)).le
      | load | fetch | push | write | lookupObject => exact absurd ha (by simp [Awaits, hs])
    | merging =>
      cases b with
      | write =>
        simp only [resume, hs, rank]
        exact Or.inl (mergeLoop_waits _ _ _ le_rfl)
      | load | fetch | push | enumerate | lookupObject => exact absurd ha (by simp [Awaits, hs])
    | pendingPush =>
      cases b with
      | push results =>
        obtain ⟨-, hp, -⟩ := self.settleChunk_spec results
        obtain ⟨hst, -, hpushes⟩ := batch_kept { self.settleChunk results with
          state := .pendingWrite }
        simp only [resume, hs]
        generalize batch { self.settleChunk results with state := .pendingWrite } = out at *
        obtain ⟨next, ops⟩ := out
        refine Or.inl ⟨fun b hb => awaits_write (Or.inl hst) b hb, ?_⟩
        dsimp only at hst hpushes
        rw [rank, rank, hst, hs, hpushes, hp]
        exact Prod.Lex.toLex_lt_toLex.mpr (Or.inr ⟨rfl, Nat.lt_succ_self _⟩)
      | load | fetch | write | enumerate | lookupObject => exact absurd ha (by simp [Awaits, hs])
    | pendingWrite =>
      cases b with
      | write =>
        simp only [resume, hs, rank]
        split
        · exact Or.inr ⟨_, _, rfl⟩
        · rename_i hp
          exact Or.inl (step_waits_pushes (by simpa using hp))
      | load | fetch | push | enumerate | lookupObject => exact absurd ha (by simp [Awaits, hs])

/-- From wherever a run waits, a driver that answers in kind takes it to its end without an
error. -/
theorem drive_awaits {σ : Type} (service : σ → ReplicaYield → σ × ReplicaArg)
    (hkind : ∀ s y, (service s y).2.Answers y) (self : ReplicaSync) {a : Option ReplicaArg}
    (ha : self.Awaits a) (s : σ) :
    ∃ fuel s' t report, Coroutine.drive resume service fuel self a s = some (s', t, .ok report) := by
  have hstep : ∀ c c' a y, Awaits c a → resume c a = (c', .yielded y) → ∀ s : σ,
      c'.Awaits (some (service s y).2) ∧ c'.rank < c.rank := by
    intro c c' a y ha hr s
    rcases resume_awaited ha with hw | ⟨s', report, hc⟩
    · rw [hr] at hw
      exact ⟨hw.1 _ (hkind s y), hw.2⟩
    · rw [hr] at hc
      cases hc
  have hdone : ∀ c c' a r, Awaits c a → resume c a = (c', .complete r) →
      ∃ report, r = .ok report := by
    intro c c' a r ha hr
    rcases resume_awaited ha with hw | ⟨s', report, hc⟩
    · rw [hr] at hw
      exact absurd hw id
    · rw [hr] at hc
      cases hc
      exact ⟨report, rfl⟩
  obtain ⟨fuel, s', t, r, hd, report, rfl⟩ :=
    Coroutine.drive_total Awaits (fun self _ => self.rank) (fun r => ∃ report, r = .ok report)
      hstep hdone self a s ha
  exact ⟨fuel, s', t, report, hd⟩

/-- Under a driver that answers in kind, every sync run completes without an error. -/
theorem completes {σ : Type} (service : σ → ReplicaYield → σ × ReplicaArg)
    (hkind : ∀ s y, (service s y).2.Answers y) (collection : ReplicaCollectionId)
    (opts : ReplicaSyncOptions) (s : σ) :
    ∃ fuel s' t report, Coroutine.drive resume service fuel (new collection opts) none s =
      some (s', t, .ok report) :=
  drive_awaits service hkind (new collection opts) (a := none) trivial s

end ReplicaSync
end IoReplica

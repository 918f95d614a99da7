import IoReplica.Completed
import IoReplica.Library.Attempt

/-! Every verb, answered in kind, comes to its end: the states it goes through, one after the
other. -/
namespace IoReplica

open Coroutine (Progress)

/-- Some answer is of any request's kind. -/
theorem answers_some (y : ReplicaYield) : ∃ b : ReplicaArg, b.Answers y := by
  cases y with
  | wantsEnumerate => exact ⟨.enumerate ⟨[], [], true, ⟨[]⟩⟩, trivial⟩
  | wantsFetch => exact ⟨.fetch [], trivial⟩
  | wantsPush => exact ⟨.push [], trivial⟩
  | wantsLoad => exact ⟨.load ⟨[], none⟩, trivial⟩
  | wantsLookupObject => exact ⟨.lookupObject ∅, trivial⟩
  | wantsWrite => exact ⟨.write, trivial⟩

namespace ReplicaArg
variable {b : ReplicaArg} {collection : ReplicaCollectionId}

theorem Answers.load {scope : ReplicaLoadScope} (h : b.Answers (.wantsLoad collection scope)) :
    ∃ loaded, b = .load loaded := by
  cases b with
  | load loaded => exact ⟨loaded, rfl⟩
  | enumerate | fetch | push | lookupObject | write => exact h.elim

theorem Answers.enumerate {cursor : Option ReplicaCheckpoint}
    (h : b.Answers (.wantsEnumerate collection cursor)) : ∃ snapshot, b = .enumerate snapshot := by
  cases b with
  | enumerate snapshot => exact ⟨snapshot, rfl⟩
  | load | fetch | push | lookupObject | write => exact h.elim

theorem Answers.fetch {handles : List ReplicaHandle} {tier : ReplicaTier}
    (h : b.Answers (.wantsFetch collection handles tier)) : ∃ items, b = .fetch items := by
  cases b with
  | fetch items => exact ⟨items, rfl⟩
  | load | enumerate | push | lookupObject | write => exact h.elim

theorem Answers.lookupObject {links : List ReplicaLinkId} (h : b.Answers (.wantsLookupObject links)) :
    ∃ known, b = .lookupObject known := by
  cases b with
  | lookupObject known => exact ⟨known, rfl⟩
  | load | enumerate | push | fetch | write => exact h.elim

theorem Answers.write {ops : List ReplicaWriteOp} (h : b.Answers (.wantsWrite ops)) : b = .write := by
  cases b with
  | write => rfl
  | load | enumerate | push | fetch | lookupObject => exact h.elim

end ReplicaArg

/-- A request the state waits on, with its stage below a bound. -/
def Waits {C R : Type} (Awaits : C → Option ReplicaArg → Prop) (stage : C → ℕ) (bound : ℕ) :
    C × ReplicaCoroutineState ReplicaYield R → Prop
  | (c, .yielded y) => (∀ b : ReplicaArg, b.Answers y → Awaits c (some b)) ∧ stage c < bound
  | (_, .complete _) => True

/-- A coroutine whose stage drops with every request it waits on makes progress. -/
def progressOf {C R : Type} {resume : C → Option ReplicaArg → C × ReplicaCoroutineState ReplicaYield R}
    (Awaits : C → Option ReplicaArg → Prop) (stage : C → ℕ) (Good : R → Prop)
    (hwaits : ∀ c a, Awaits c a → Waits Awaits stage (stage c) (resume c a))
    (hgood : ∀ c c' a r, Awaits c a → resume c a = (c', .complete r) → Good r) :
    Progress resume ReplicaArg.Answers Good where
  Awaits := Awaits
  Closer c' c := stage c' < stage c
  wf := InvImage.wf stage wellFounded_lt
  asks := by
    intro c c' a y ha hr
    have hw := hwaits c a ha
    rw [hr] at hw
    exact hw
  completes := fun ha hr => hgood _ _ _ _ ha hr

namespace ReplicaOpen

def stage (self : ReplicaOpen) : ℕ :=
  match self.state with
  | .start => 2
  | .pendingLoad => 1
  | .done => 0

def progress : Progress resume ReplicaArg.Answers (fun r => ∃ loaded, r = .ok loaded) :=
  progressOf Awaits stage _
    (by
      rintro ⟨c, state⟩ (- | a) ha
      · cases state with
        | start =>
          refine ⟨fun b hb => ?_, Nat.one_lt_two⟩
          obtain ⟨loaded, rfl⟩ := hb.load
          trivial
        | pendingLoad | done => exact ha.elim
      · cases state <;> cases a <;> first | exact ha.elim | trivial)
    (by
      rintro ⟨c, state⟩ c' (- | a) r ha hr
      · cases state <;> first | exact ha.elim | cases hr
      · cases state <;> cases a <;> first | exact ha.elim | (cases hr; exact ⟨_, rfl⟩))

end ReplicaOpen

namespace ReplicaMutate

def stage (self : ReplicaMutate) : ℕ :=
  match self.state with
  | .start => 3
  | .pendingLoad => 2
  | .pendingWrite => 1
  | .done => 0

/-- The failures a mutation has of its own: its source is unknown, or its link id held. -/
def Refused (r : Except ReplicaMutateError Unit) : Prop :=
  (∃ handle, r = .error (.unknownHandle handle)) ∨ ∃ linkId, r = .error (.linkExists linkId)

/-- What a mutation makes of its load: it asks to write, or refuses. -/
theorem resume_loaded (self : ReplicaMutate) (hs : self.state = .pendingLoad)
    (loaded : ReplicaLoaded) :
    (∃ ops, self.resume (some (.load loaded)) =
        ({ self with state := .pendingWrite }, .yielded (.wantsWrite ops))) ∨
      ∃ r, self.resume (some (.load loaded)) = (self, .complete r) ∧ Refused r := by
  obtain ⟨collection, mutation, state⟩ := self
  cases hs
  cases mutation with
  | add handle linkId =>
    simp only [resume, ReplicaMutation.handle]
    split
    · exact Or.inr ⟨_, rfl, Or.inr ⟨_, rfl⟩⟩
    · exact Or.inl ⟨_, rfl⟩
  | setFlags handle | remove handle | edit handle | copy handle | move handle =>
    simp only [resume, ReplicaMutation.handle]
    split
    · exact Or.inr ⟨_, rfl, Or.inl ⟨_, rfl⟩⟩
    · exact Or.inl ⟨_, rfl⟩

theorem resume_stages (c : ReplicaMutate) (a : Option ReplicaArg) (ha : c.Awaits a) :
    Waits Awaits stage c.stage (c.resume a) ∧
      ∀ c' r, c.resume a = (c', .complete r) → r = .ok () ∨ Refused r := by
  cases hs : c.state with
  | start =>
    cases a with
    | none =>
      simp only [resume, hs]
      refine ⟨⟨fun b hb => ?_, ?_⟩, fun c' r hr => (by cases hr)⟩
      · obtain ⟨loaded, rfl⟩ := hb.load
        trivial
      · simp [stage, hs]
    | some a => simp [Awaits, hs] at ha
  | pendingLoad =>
    cases a with
    | some a =>
      cases a with
      | load loaded =>
        rcases c.resume_loaded hs loaded with ⟨ops, hr⟩ | ⟨r, hr, hrefused⟩
        · rw [hr]
          refine ⟨⟨fun b hb => ?_, ?_⟩, fun c' r hr => (by cases hr)⟩
          · rw [hb.write]
            trivial
          · simp [stage, hs]
        · rw [hr]
          refine ⟨trivial, fun c' r' hr' => ?_⟩
          cases hr'
          exact Or.inr hrefused
      | enumerate | fetch | push | lookupObject | write => simp [Awaits, hs] at ha
    | none => simp [Awaits, hs] at ha
  | pendingWrite =>
    cases a with
    | some a =>
      cases a with
      | write =>
        simp only [resume, hs]
        refine ⟨trivial, fun c' r hr => ?_⟩
        cases hr
        exact Or.inl rfl
      | enumerate | fetch | push | lookupObject | load => simp [Awaits, hs] at ha
    | none => simp [Awaits, hs] at ha
  | done => simp [Awaits, hs] at ha

def progress : Progress resume ReplicaArg.Answers (fun r => r = .ok () ∨ Refused r) :=
  progressOf Awaits stage _ (fun c a ha => (c.resume_stages a ha).1)
    (fun c c' a r ha hr => (c.resume_stages a ha).2 c' r hr)

end ReplicaMutate

namespace ReplicaRekey

def stage (self : ReplicaRekey) : ℕ :=
  match self.state with
  | .start => 4
  | .pendingLoad => 3
  | .pendingEnumerate => 2
  | .pendingFetch => 1
  | .pendingWrite | .done => 0

/-- A rebuild leaves the run where it found it. -/
theorem rebuild_state (self : ReplicaRekey) (links : HandleMap Resolved) :
    (self.rebuild links).1.state = self.state := by
  simp only [rebuild]
  split <;> rfl

theorem resume_stages (c : ReplicaRekey) (a : Option ReplicaArg) (ha : c.Awaits a) :
    Waits Awaits stage c.stage (c.resume a) ∧
      ∀ c' r, c.resume a = (c', .complete r) → ∃ report, r = .ok report := by
  have hrebuilt : ∀ (self : ReplicaRekey) (links : HandleMap Resolved) (bound : ℕ), 0 < bound →
      self.state = .pendingWrite → Waits Awaits stage bound ((self.rebuild links).1,
        (.yielded (.wantsWrite (self.rebuild links).2) : Step)) := by
    intro self links bound hbound hs
    have hstate := (rebuild_state self links).trans hs
    refine ⟨fun b hb => ?_, ?_⟩
    · rw [hb.write]
      simp [Awaits, hstate]
    · simpa [stage, hstate] using hbound
  cases hs : c.state with
  | start =>
    cases a with
    | none =>
      simp only [resume, hs]
      refine ⟨⟨fun b hb => ?_, ?_⟩, fun c' r hr => (by cases hr)⟩
      · obtain ⟨loaded, rfl⟩ := hb.load
        trivial
      · simp [stage, hs]
    | some a => simp [Awaits, hs] at ha
  | pendingLoad =>
    cases a with
    | some a =>
      cases a with
      | load loaded =>
        simp only [resume, hs]
        refine ⟨⟨fun b hb => ?_, ?_⟩, fun c' r hr => (by cases hr)⟩
        · obtain ⟨snapshot, rfl⟩ := hb.enumerate
          trivial
        · simp [stage, hs]
      | enumerate | fetch | push | lookupObject | write => simp [Awaits, hs] at ha
    | none => simp [Awaits, hs] at ha
  | pendingEnumerate =>
    cases a with
    | some a =>
      cases a with
      | enumerate snapshot =>
        simp only [resume, hs]
        split
        · refine ⟨⟨fun b hb => ?_, ?_⟩, fun c' r hr => (by cases hr)⟩
          · obtain ⟨items, rfl⟩ := hb.fetch
            trivial
          · simp [stage, hs]
        · exact ⟨hrebuilt _ _ _ (by simp [stage, hs]) rfl, fun c' r hr => (by cases hr)⟩
      | load | fetch | push | lookupObject | write => simp [Awaits, hs] at ha
    | none => simp [Awaits, hs] at ha
  | pendingFetch =>
    cases a with
    | some a =>
      cases a with
      | fetch items =>
        simp only [resume, hs]
        exact ⟨hrebuilt _ _ _ (by simp [stage, hs]) rfl, fun c' r hr => (by cases hr)⟩
      | load | enumerate | push | lookupObject | write => simp [Awaits, hs] at ha
    | none => simp [Awaits, hs] at ha
  | pendingWrite =>
    cases a with
    | some a =>
      cases a with
      | write =>
        simp only [resume, hs]
        refine ⟨trivial, fun c' r hr => ?_⟩
        cases hr
        exact ⟨_, rfl⟩
      | enumerate | fetch | push | lookupObject | load => simp [Awaits, hs] at ha
    | none => simp [Awaits, hs] at ha
  | done => simp [Awaits, hs] at ha

def progress : Progress resume ReplicaArg.Answers (fun r => ∃ report, r = .ok report) :=
  progressOf Awaits stage _ (fun c a ha => (c.resume_stages a ha).1)
    (fun c c' a r ha hr => (c.resume_stages a ha).2 c' r hr)

end ReplicaRekey

namespace ReplicaUpgrade

def stage (self : ReplicaUpgrade) : ℕ :=
  match self.state with
  | .start => 5
  | .pendingLoad => 4
  | .pendingLookup => 3
  | .pendingFetch => 2
  | .pendingLinkCheck => 1
  | .pendingWrite | .done => 0

theorem yieldWrite_waits (self : ReplicaUpgrade) {bound : ℕ} (h : 0 < bound) :
    Waits Awaits stage bound self.yieldWrite := by
  refine ⟨fun b hb => ?_, h⟩
  rw [hb.write]
  trivial

theorem writeFetched_waits (self : ReplicaUpgrade) {bound : ℕ} (h : 0 < bound) :
    Waits Awaits stage bound self.writeFetched := yieldWrite_waits _ h

theorem yieldFetch_waits (self : ReplicaUpgrade) (handles : List ReplicaHandle) {bound : ℕ}
    (h : 2 < bound) : Waits Awaits stage bound (self.yieldFetch handles) := by
  refine ⟨fun b hb => ?_, h⟩
  obtain ⟨items, rfl⟩ := hb.fetch
  trivial

/-- What an upgrade makes of its load: nothing is pending and it is over, or it asks on. -/
theorem resume_loaded (self : ReplicaUpgrade) (hs : self.state = .pendingLoad)
    (loaded : ReplicaLoaded) :
    Waits Awaits stage 4 (self.resume (some (.load loaded))) ∧
      ∀ c r, self.resume (some (.load loaded)) = (c, .complete r) → ∃ report, r = .ok report := by
  simp only [resume, hs]
  split
  · refine ⟨trivial, fun c r hr => ?_⟩
    cases hr
    exact ⟨_, rfl⟩
  · split
    · exact ⟨yieldFetch_waits _ _ (by decide), fun c r hr => (by cases hr)⟩
    · split
      · exact ⟨yieldFetch_waits _ _ (by decide), fun c r hr => (by cases hr)⟩
      · refine ⟨⟨fun b hb => ?_, Nat.lt_succ_self 3⟩, fun c r hr => (by cases hr)⟩
        obtain ⟨known, rfl⟩ := hb.lookupObject
        trivial

theorem resume_stages (c : ReplicaUpgrade) (a : Option ReplicaArg) (ha : c.Awaits a) :
    Waits Awaits stage c.stage (c.resume a) ∧
      ∀ c' r, c.resume a = (c', .complete r) → ∃ report, r = .ok report := by
  cases hs : c.state with
  | start =>
    cases a with
    | none =>
      simp only [resume, hs]
      refine ⟨⟨fun b hb => ?_, ?_⟩, fun c' r hr => (by cases hr)⟩
      · obtain ⟨loaded, rfl⟩ := hb.load
        trivial
      · simp [stage, hs]
    | some a => simp [Awaits, hs] at ha
  | pendingLoad =>
    cases a with
    | some a =>
      cases a with
      | load loaded =>
        have hstage : c.stage = 4 := by simp [stage, hs]
        rw [hstage]
        exact c.resume_loaded hs loaded
      | enumerate | fetch | push | lookupObject | write => simp [Awaits, hs] at ha
    | none => simp [Awaits, hs] at ha
  | pendingLookup =>
    cases a with
    | some a =>
      cases a with
      | lookupObject known =>
        have hstage : c.stage = 3 := by simp [stage, hs]
        rw [hstage]
        simp only [resume, hs]
        split
        · exact ⟨yieldWrite_waits _ (by decide), fun c r hr => (by cases hr)⟩
        · exact ⟨yieldFetch_waits _ _ (by decide), fun c r hr => (by cases hr)⟩
      | load | enumerate | fetch | push | write => simp [Awaits, hs] at ha
    | none => simp [Awaits, hs] at ha
  | pendingFetch =>
    cases a with
    | some a =>
      cases a with
      | fetch items =>
        have hstage : c.stage = 2 := by simp [stage, hs]
        rw [hstage]
        simp only [resume, hs]
        split
        · exact ⟨writeFetched_waits _ (by decide), fun c r hr => (by cases hr)⟩
        · refine ⟨⟨fun b hb => ?_, Nat.lt_succ_self 1⟩, fun c r hr => (by cases hr)⟩
          obtain ⟨loaded, rfl⟩ := hb.load
          trivial
      | load | enumerate | lookupObject | push | write => simp [Awaits, hs] at ha
    | none => simp [Awaits, hs] at ha
  | pendingLinkCheck =>
    cases a with
    | some a =>
      cases a with
      | load loaded =>
        have hstage : c.stage = 1 := by simp [stage, hs]
        rw [hstage]
        simp only [resume, hs]
        exact ⟨writeFetched_waits _ Nat.zero_lt_one, fun c r hr => (by cases hr)⟩
      | fetch | enumerate | lookupObject | push | write => simp [Awaits, hs] at ha
    | none => simp [Awaits, hs] at ha
  | pendingWrite =>
    cases a with
    | some a =>
      cases a with
      | write =>
        simp only [resume, hs]
        refine ⟨trivial, fun c' r hr => ?_⟩
        cases hr
        exact ⟨_, rfl⟩
      | enumerate | fetch | push | lookupObject | load => simp [Awaits, hs] at ha
    | none => simp [Awaits, hs] at ha
  | done => simp [Awaits, hs] at ha

def progress : Progress resume ReplicaArg.Answers (fun r => ∃ report, r = .ok report) :=
  progressOf Awaits stage _ (fun c a ha => (c.resume_stages a ha).1)
    (fun c c' a r ha hr => (c.resume_stages a ha).2 c' r hr)

end ReplicaUpgrade

namespace ReplicaSync

def progress : Progress resume ReplicaArg.Answers (fun r => ∃ report, r = .ok report) where
  Awaits := Awaits
  Closer c' c := c'.rank < c.rank
  wf := InvImage.wf rank wellFounded_lt
  asks := by
    intro c c' a y ha hr
    rcases resume_awaited ha with hw | ⟨s, report, hc⟩
    · rw [hr] at hw
      exact hw
    · rw [hr] at hc
      cases hc
  completes := by
    intro c c' a r ha hr
    rcases resume_awaited ha with hw | ⟨s, report, hc⟩
    · rw [hr] at hw
      exact hw.elim
    · rw [hr] at hc
      cases hc
      exact ⟨report, rfl⟩

end ReplicaSync
end IoReplica

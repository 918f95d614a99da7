import IoReplica.Mutate
import IoReplica.Open
import IoReplica.Rekey.Machine
import IoReplica.Sync.Driver
import IoReplica.Upgrade.Machine

/-! The five verbs under one contract: what each state takes, and what a completed run answers a
resume with. -/
namespace IoReplica

open Coroutine (Contract)

namespace ReplicaOpen

/-- The state waits for what it is resumed with. -/
def Awaits (self : ReplicaOpen) (arg : Option ReplicaArg) : Prop :=
  match self.state, arg with
  | .start, none => True
  | .pendingLoad, some (.load _) => True
  | _, _ => False

def contract : Contract ReplicaOpen ReplicaYield ReplicaArg (Except ReplicaArgError ReplicaLoaded)
    where
  resume := resume
  takes := Awaits
  unexpected := .error .unexpectedArg
  missing := .error .missingArg
  distinct := by simp
  refuses c a h := by
    obtain ⟨collection, state⟩ := c
    cases state <;> cases a <;> first | rfl | exact absurd trivial h
  starves c h := by
    obtain ⟨collection, state⟩ := c
    cases state <;> first | rfl | exact absurd trivial h
  serves c a h := by
    obtain ⟨collection, state⟩ := c
    rcases a with - | a
    · cases state <;> first | exact h.elim | simp [resume]
    · cases state <;> cases a <;> first | exact h.elim | simp [resume]

end ReplicaOpen

namespace ReplicaMutate

/-- The state waits for what it is resumed with. -/
def Awaits (self : ReplicaMutate) (arg : Option ReplicaArg) : Prop :=
  match self.state, arg with
  | .start, none => True
  | .pendingLoad, some (.load _) => True
  | .pendingWrite, some .write => True
  | _, _ => False

/-- A loaded source is edited, or found missing, or found to collide: never unexpected. -/
theorem resume_load (self : ReplicaMutate) (hs : self.state = .pendingLoad)
    (loaded : ReplicaLoaded) :
    (self.resume (some (.load loaded))).2 ≠ .complete (.error (.arg .unexpectedArg)) := by
  obtain ⟨collection, mutation, state⟩ := self
  cases hs
  cases mutation with
  | add handle linkId =>
    by_cases hc : collides linkId loaded.placements <;>
      simp [resume, ReplicaMutation.handle, hc]
  | setFlags handle | remove handle | edit handle | copy handle | move handle =>
    cases hf : loaded.placements.find? (fun p => p.handle = handle) <;>
      simp [resume, ReplicaMutation.handle, hf]

def contract : Contract ReplicaMutate ReplicaYield ReplicaArg (Except ReplicaMutateError Unit) where
  resume := resume
  takes := Awaits
  unexpected := .error (.arg .unexpectedArg)
  missing := .error (.arg .missingArg)
  distinct := by simp
  refuses c a h := by
    obtain ⟨collection, mutation, state⟩ := c
    cases state <;> cases a <;> first | rfl | exact absurd trivial h
  starves c h := by
    obtain ⟨collection, mutation, state⟩ := c
    cases state <;> first | rfl | exact absurd trivial h
  serves c a h := by
    obtain ⟨collection, mutation, state⟩ := c
    rcases a with - | a
    · cases state <;> first | exact h.elim | simp [resume]
    · cases state <;> cases a <;>
        first | exact h.elim | exact resume_load _ rfl _ | simp [resume]

end ReplicaMutate

namespace ReplicaRekey

/-- The state waits for what it is resumed with. -/
def Awaits (self : ReplicaRekey) (arg : Option ReplicaArg) : Prop :=
  match self.state, arg with
  | .start, none => True
  | .pendingLoad, some (.load _) => True
  | .pendingEnumerate, some (.enumerate _) => True
  | .pendingFetch, some (.fetch _) => True
  | .pendingWrite, some .write => True
  | _, _ => False

/-- The new spine is fetched or rebuilt: either way the run asks on. -/
theorem resume_enumerate (self : ReplicaRekey) (hs : self.state = .pendingEnumerate)
    (snapshot : ReplicaRemoteSnapshot) :
    (self.resume (some (.enumerate snapshot))).2 ≠ .complete (.error .unexpectedArg) := by
  simp only [resume, hs]
  split <;> simp

def contract : Contract ReplicaRekey ReplicaYield ReplicaArg
    (Except ReplicaArgError ReplicaRekeyReport) where
  resume := resume
  takes := Awaits
  unexpected := .error .unexpectedArg
  missing := .error .missingArg
  distinct := by simp
  refuses c a h := by
    cases hs : c.state <;> cases a <;>
      first | (simp only [resume, hs]; done) | exact absurd (by simp [Awaits, hs]) h
  starves c h := by
    cases hs : c.state <;>
      first | (simp only [resume, hs]; done) | exact absurd (by simp [Awaits, hs]) h
  serves c a h := by
    rcases a with - | a
    · cases hs : c.state <;> simp [Awaits, resume, hs] at h ⊢
    · cases hs : c.state <;> cases a <;>
        first | exact resume_enumerate c hs _ | simp [Awaits, resume, hs] at h ⊢

end ReplicaRekey

namespace ReplicaSync

def contract : Contract ReplicaSync ReplicaYield ReplicaArg
    (Except ReplicaArgError ReplicaSyncReport) where
  resume := resume
  takes := Awaits
  unexpected := .error .unexpectedArg
  missing := .error .missingArg
  distinct := by simp
  refuses c a h := by
    cases hs : c.state <;> cases a <;>
      first | (simp only [resume, hs]; done) | exact absurd (by simp [Awaits, hs]) h
  starves c h := by
    cases hs : c.state <;>
      first | (simp only [resume, hs]; done) | exact absurd (by simp [Awaits, hs]) h
  serves c a h := by
    rcases resume_awaited h with hwaits | ⟨s, report, hdone⟩
    · intro hc
      generalize c.resume a = out at hwaits hc
      obtain ⟨s, step⟩ := out
      cases hc
      exact hwaits
    · simp [hdone]

end ReplicaSync

namespace ReplicaUpgrade

/-- The state waits for what it is resumed with. -/
def Awaits (self : ReplicaUpgrade) (arg : Option ReplicaArg) : Prop :=
  match self.state, arg with
  | .start, none => True
  | .pendingLoad, some (.load _) => True
  | .pendingLookup, some (.lookupObject _) => True
  | .pendingFetch, some (.fetch _) => True
  | .pendingLinkCheck, some (.load _) => True
  | .pendingWrite, some .write => True
  | _, _ => False

theorem writeFetched_expects (self : ReplicaUpgrade) :
    self.writeFetched.2 ≠ .complete (.error .unexpectedArg) := by
  simp [writeFetched, yieldWrite]

/-- What the state waits for either asks on or completes without an error. -/
theorem resume_awaited {self : ReplicaUpgrade} {a : Option ReplicaArg} (ha : self.Awaits a) :
    (self.resume a).2 ≠ .complete (.error .unexpectedArg) := by
  rcases a with - | a
  · cases hs : self.state <;> simp [Awaits, resume, hs] at ha ⊢
  · cases a with
    | load loaded =>
      cases hs : self.state with
      | pendingLoad =>
        simp only [resume, hs]
        split
        · simp
        · cases self.tier with
          | metadata => simp [yieldFetch]
          | full =>
            dsimp only
            split <;> simp [yieldFetch]
      | pendingLinkCheck =>
        simp only [resume, hs]
        exact writeFetched_expects _
      | start | pendingLookup | pendingFetch | pendingWrite | done =>
        simp [Awaits, hs] at ha
    | lookupObject known =>
      cases hs : self.state with
      | pendingLookup =>
        simp only [resume, hs]
        split <;> simp [yieldWrite, yieldFetch]
      | start | pendingLoad | pendingLinkCheck | pendingFetch | pendingWrite | done =>
        simp [Awaits, hs] at ha
    | fetch items =>
      cases hs : self.state with
      | pendingFetch =>
        simp only [resume, hs]
        split
        · exact writeFetched_expects _
        · simp
      | start | pendingLoad | pendingLinkCheck | pendingLookup | pendingWrite | done =>
        simp [Awaits, hs] at ha
    | write => cases hs : self.state <;> simp [Awaits, resume, hs] at ha ⊢
    | enumerate | push => cases hs : self.state <;> simp [Awaits, hs] at ha

def contract : Contract ReplicaUpgrade ReplicaYield ReplicaArg
    (Except ReplicaArgError ReplicaUpgradeReport) where
  resume := resume
  takes := Awaits
  unexpected := .error .unexpectedArg
  missing := .error .missingArg
  distinct := by simp
  refuses c a h := by
    cases hs : c.state <;> cases a <;>
      first | (simp only [resume, hs]; done) | exact absurd (by simp [Awaits, hs]) h
  starves c h := by
    cases hs : c.state <;>
      first | (simp only [resume, hs]; done) | exact absurd (by simp [Awaits, hs]) h
  serves c a h := resume_awaited h

end ReplicaUpgrade

/-- A completed coroutine never runs again exactly when its driver, once it completed, resumes it
with no answer its last state takes, and never with none: any answer after a success, any but the
one still waited for after an error. -/
theorem completed_final_iff (args : List (Option ReplicaArg)) :
    (∀ c : ReplicaSync, ReplicaSync.contract.Final c args ↔ ∀ ran a later,
        args = ran ++ a :: later →
          (∃ r, (ReplicaSync.resume (ReplicaSync.contract.after c ran) a).2 = .complete r) →
            ReplicaSync.contract.Unfit (ReplicaSync.contract.after c (ran ++ [a])) later) ∧
      (∀ c : ReplicaUpgrade, ReplicaUpgrade.contract.Final c args ↔ ∀ ran a later,
        args = ran ++ a :: later →
          (∃ r, (ReplicaUpgrade.resume (ReplicaUpgrade.contract.after c ran) a).2 = .complete r) →
            ReplicaUpgrade.contract.Unfit (ReplicaUpgrade.contract.after c (ran ++ [a])) later) ∧
      (∀ c : ReplicaMutate, ReplicaMutate.contract.Final c args ↔ ∀ ran a later,
        args = ran ++ a :: later →
          (∃ r, (ReplicaMutate.resume (ReplicaMutate.contract.after c ran) a).2 = .complete r) →
            ReplicaMutate.contract.Unfit (ReplicaMutate.contract.after c (ran ++ [a])) later) ∧
      (∀ c : ReplicaRekey, ReplicaRekey.contract.Final c args ↔ ∀ ran a later,
        args = ran ++ a :: later →
          (∃ r, (ReplicaRekey.resume (ReplicaRekey.contract.after c ran) a).2 = .complete r) →
            ReplicaRekey.contract.Unfit (ReplicaRekey.contract.after c (ran ++ [a])) later) ∧
      ∀ c : ReplicaOpen, ReplicaOpen.contract.Final c args ↔ ∀ ran a later,
        args = ran ++ a :: later →
          (∃ r, (ReplicaOpen.resume (ReplicaOpen.contract.after c ran) a).2 = .complete r) →
            ReplicaOpen.contract.Unfit (ReplicaOpen.contract.after c (ran ++ [a])) later :=
  ⟨fun c => ReplicaSync.contract.final_iff c args,
    fun c => ReplicaUpgrade.contract.final_iff c args,
    fun c => ReplicaMutate.contract.final_iff c args,
    fun c => ReplicaRekey.contract.final_iff c args,
    fun c => ReplicaOpen.contract.final_iff c args⟩

/-- The remove of a handle its first load did not know, handed the row by a second. -/
def strayLoads : List (Option ReplicaArg) :=
  [none, some (.load ⟨[], none⟩), some (.load ⟨[ReplicaMutate.created ⟨"contacts"⟩ ⟨"a"⟩ ⟨"l"⟩
    .empty ⟨⟨"o"⟩, 1⟩ none .unknown], none⟩)]

/-- A run that failed on an unknown handle yields a write to the next load, and one that succeeded
answers a resume without an answer by the missing one. -/
theorem completed_run_writes :
    ¬ ReplicaMutate.contract.Final (.new ⟨"contacts"⟩ (.remove ⟨"a"⟩)) strayLoads ∧
      ¬ ReplicaOpen.contract.Final (.new ⟨"contacts"⟩) [none, some (.load ⟨[], none⟩), none] := by
  constructor
  · intro h
    have hlater := h [none] (some (.load ⟨[], none⟩)) _ rfl ⟨.error (.unknownHandle "a"), rfl⟩
    cases hlater.1
  · intro h
    have hlater := h [none] (some (.load ⟨[], none⟩)) _ rfl ⟨.ok ⟨[], none⟩, rfl⟩
    cases hlater.1

end IoReplica

import IoReplica.Progress

/-! The blocking reference driver: a storage seam, a remote seam, and the verbs run over them. -/
namespace IoReplica

/-- The local index plus blob store seam. Only a write moves it. -/
class ReplicaStorage (S : Type) where
  Error : Type
  load : S → ReplicaCollectionId → ReplicaLoadScope → Except Error ReplicaLoaded
  lookupObjects : S → List ReplicaLinkId → Except Error (LinkMap ReplicaHash)
  write : S → List ReplicaWriteOp → S × Except Error Unit

/-- The remote protocol seam. -/
class ReplicaRemote (R : Type) where
  Error : Type
  enumerate : R → ReplicaCollectionId → Option ReplicaCheckpoint →
    R × Except Error ReplicaRemoteSnapshot
  fetch : R → ReplicaCollectionId → List ReplicaHandle → ReplicaTier →
    R × Except Error (List ReplicaFetchedItem)
  push : R → ReplicaCollectionId → List ReplicaChange → R × Except Error (List ReplicaPushResult)

/-- The request is for the remote seam. -/
def ReplicaYield.Remote : ReplicaYield → Prop
  | .wantsEnumerate .. | .wantsFetch .. | .wantsPush .. => True
  | .wantsLoad .. | .wantsLookupObject _ | .wantsWrite _ => False

/-- Errors returned by a client: a seam's own, or the coroutine's. -/
inductive ReplicaClientError (S R C : Type)
  | storage (error : S)
  | remote (error : R)
  | coroutine (error : C)

/-- A client over a storage and a remote. -/
structure ReplicaClient (S R : Type) where
  storage : S
  remote : R

namespace ReplicaClient

variable {S R : Type} [ReplicaStorage S] [ReplicaRemote R] {C T E : Type}

/-- What a client's verb fails with. -/
abbrev Error (S R E : Type) [ReplicaStorage S] [ReplicaRemote R] :=
  ReplicaClientError (ReplicaStorage.Error S) (ReplicaRemote.Error R) E

/-- Wraps a remote's reply, its error told apart from the storage's. -/
def ofRemote {α : Type} (client : ReplicaClient S R) (arg : α → ReplicaArg)
    (reply : R × Except (ReplicaRemote.Error R) α) :
    ReplicaClient S R × Except (Error S R E) ReplicaArg :=
  ({ client with remote := reply.1 }, (reply.2.map arg).mapError .remote)

/-- Services one request through the seam it is for. -/
def service (client : ReplicaClient S R) :
    ReplicaYield → ReplicaClient S R × Except (Error S R E) ReplicaArg
  | .wantsEnumerate collection cursor =>
    client.ofRemote .enumerate (ReplicaRemote.enumerate client.remote collection cursor)
  | .wantsFetch collection handles tier =>
    client.ofRemote .fetch (ReplicaRemote.fetch client.remote collection handles tier)
  | .wantsPush collection changes =>
    client.ofRemote .push (ReplicaRemote.push client.remote collection changes)
  | .wantsLoad collection scope =>
    (client, ((ReplicaStorage.load client.storage collection scope).map .load).mapError .storage)
  | .wantsLookupObject links =>
    (client,
      ((ReplicaStorage.lookupObjects client.storage links).map .lookupObject).mapError .storage)
  | .wantsWrite ops =>
    let (storage, reply) := ReplicaStorage.write client.storage ops
    ({ client with storage := storage }, (reply.map (fun _ => .write)).mapError .storage)

/-- Drives a coroutine to completion, servicing each yield through the seams, within `fuel`
resumes. -/
def run (resume : C → Option ReplicaArg → C × ReplicaCoroutineState ReplicaYield (Except E T)) :
    ℕ → C → Option ReplicaArg → ReplicaClient S R →
      Option (ReplicaClient S R × Except (Error S R E) T)
  | 0, _, _, _ => none
  | fuel + 1, coroutine, arg, client =>
    match resume coroutine arg with
    | (_, .complete (.ok out)) => some (client, .ok out)
    | (_, .complete (.error err)) => some (client, .error (.coroutine err))
    | (coroutine, .yielded y) =>
      match client.service y with
      | (client, .ok arg) => run resume fuel coroutine (some arg) client
      | (client, .error err) => some (client, .error err)

/-- Opens a collection offline. -/
def «open» (fuel : ℕ) (client : ReplicaClient S R) (collection : ReplicaCollectionId) :
    Option (ReplicaClient S R × Except (Error S R ReplicaArgError) ReplicaLoaded) :=
  run ReplicaOpen.resume fuel (.new collection) none client

def upgrade (fuel : ℕ) (client : ReplicaClient S R) (collection : ReplicaCollectionId)
    (handles : List ReplicaHandle) (tier : ReplicaTier) :
    Option (ReplicaClient S R × Except (Error S R ReplicaArgError) ReplicaUpgradeReport) :=
  run ReplicaUpgrade.resume fuel (.new collection handles tier) none client

def mutate (fuel : ℕ) (client : ReplicaClient S R) (collection : ReplicaCollectionId)
    (mutation : ReplicaMutation) :
    Option (ReplicaClient S R × Except (Error S R ReplicaMutateError) Unit) :=
  run ReplicaMutate.resume fuel (.new collection mutation) none client

def sync (fuel : ℕ) (client : ReplicaClient S R) (collection : ReplicaCollectionId)
    (opts : ReplicaSyncOptions) :
    Option (ReplicaClient S R × Except (Error S R ReplicaArgError) ReplicaSyncReport) :=
  run ReplicaSync.resume fuel (.new collection opts) none client

def rekey (fuel : ℕ) (client : ReplicaClient S R) (collection : ReplicaCollectionId) :
    Option (ReplicaClient S R × Except (Error S R ReplicaArgError) ReplicaRekeyReport) :=
  run ReplicaRekey.resume fuel (.new collection) none client

/-- The coroutine's own result among what a verb returns. -/
def settled : Except (Error S R E) (Except E T) → Except (Error S R E) T
  | .ok (.ok out) => .ok out
  | .ok (.error err) => .error (.coroutine err)
  | .error err => .error err

/-- A verb is an attempt of its coroutine over the seams. -/
theorem run_attempt
    (resume : C → Option ReplicaArg → C × ReplicaCoroutineState ReplicaYield (Except E T))
    (fuel : ℕ) (c : C) (arg : Option ReplicaArg) (client : ReplicaClient S R) :
    run resume fuel c arg client =
      (Coroutine.attempt resume service fuel c arg client).map
        (fun out => (out.1, settled out.2.2)) := by
  induction fuel generalizing c arg client with
  | zero => rfl
  | succ fuel ih =>
    cases hr : resume c arg with
    | mk c' step =>
      cases step with
      | complete r =>
        simp only [run, Coroutine.attempt, hr, Option.map_some]
        cases r <;> rfl
      | yielded y =>
        cases hs : client.service (E := E) y with
        | mk next reply =>
          cases reply with
          | error err => simp only [run, Coroutine.attempt, hr, hs, Option.map_some, settled]
          | ok a =>
            simp only [run, Coroutine.attempt, hr, hs, ih, Option.map_map]
            rfl

/-- What servicing a request keeps of a client, every verb keeps. -/
theorem run_invariant {P : ReplicaClient S R → Prop}
    (hservice : ∀ client y, P client → P (client.service (E := E) y).1)
    (resume : C → Option ReplicaArg → C × ReplicaCoroutineState ReplicaYield (Except E T)) {fuel : ℕ}
    {c : C} {arg : Option ReplicaArg} {client client' : ReplicaClient S R}
    {out : Except (Error S R E) T} (h : run resume fuel c arg client = some (client', out))
    (hc : P client) : P client' := by
  induction fuel generalizing c arg client with
  | zero => cases h
  | succ fuel ih =>
    cases hr : resume c arg with
    | mk c' step =>
      cases step with
      | complete r =>
        simp only [run, hr] at h
        cases r <;> cases h <;> exact hc
      | yielded y =>
        have hnext := hservice client y hc
        simp only [run, hr] at h
        cases hy : client.service (E := E) y with
        | mk next reply =>
          rw [hy] at h hnext
          cases reply with
          | error => cases h; exact hnext
          | ok a => exact ih h hnext

/-- What every write keeps of a storage, every verb keeps. -/
theorem run_keeps {P : S → Prop} (hwrite : ∀ s ops, P s → P (ReplicaStorage.write s ops).1)
    (resume : C → Option ReplicaArg → C × ReplicaCoroutineState ReplicaYield (Except E T)) {fuel : ℕ}
    {c : C} {arg : Option ReplicaArg} {client client' : ReplicaClient S R}
    {out : Except (Error S R E) T} (h : run resume fuel c arg client = some (client', out))
    (hs : P client.storage) : P client'.storage := by
  refine run_invariant (P := fun client => P client.storage) (fun client y hs => ?_) resume h hs
  cases y with
  | wantsEnumerate | wantsFetch | wantsPush | wantsLoad | wantsLookupObject => exact hs
  | wantsWrite ops => exact hwrite _ _ hs

/-- A granted request of the remote is answered in kind, and moves the remote alone. -/
theorem ofRemote_ok {α : Type} {client next : ReplicaClient S R} {arg : α → ReplicaArg}
    {reply : R × Except (ReplicaRemote.Error R) α} {a : ReplicaArg}
    (h : client.ofRemote (E := E) arg reply = (next, .ok a)) :
    next.storage = client.storage ∧ ∃ x, a = arg x := by
  obtain ⟨remote, reply⟩ := reply
  cases reply with
  | error => simp [ofRemote, Except.map, Except.mapError] at h
  | ok x =>
    simp only [ofRemote, Except.map, Except.mapError, Prod.mk.injEq, Except.ok.injEq] at h
    obtain ⟨rfl, rfl⟩ := h
    exact ⟨rfl, x, rfl⟩

/-- What a granted request is answered, by the seam it is for. -/
inductive Granted (client : ReplicaClient S R) : ReplicaYield → ReplicaClient S R → ReplicaArg → Prop
  | remote {y : ReplicaYield} {a : ReplicaArg} (remote : R) (own : y.Remote)
      (kind : a.Answers y) : Granted client y { client with remote := remote } a
  | load {c : ReplicaCollectionId} {scope : ReplicaLoadScope} {loaded : ReplicaLoaded}
      (replies : ReplicaStorage.load client.storage c scope = .ok loaded) :
      Granted client (.wantsLoad c scope) client (.load loaded)
  | lookup {links : List ReplicaLinkId} {known : LinkMap ReplicaHash}
      (replies : ReplicaStorage.lookupObjects client.storage links = .ok known) :
      Granted client (.wantsLookupObject links) client (.lookupObject known)
  | write {ops : List ReplicaWriteOp} {storage : S}
      (replies : ReplicaStorage.write client.storage ops = (storage, .ok ())) :
      Granted client (.wantsWrite ops) { client with storage := storage } .write

theorem service_granted (client : ReplicaClient S R) (y : ReplicaYield) (next : ReplicaClient S R)
    (a : ReplicaArg) (h : client.service (E := E) y = (next, .ok a)) : client.Granted y next a := by
  cases y with
  | wantsEnumerate | wantsFetch | wantsPush =>
    obtain ⟨hstorage, x, rfl⟩ := ofRemote_ok h
    obtain ⟨storage, remote⟩ := next
    cases hstorage
    exact .remote remote trivial trivial
  | wantsLoad c scope =>
    cases hl : ReplicaStorage.load client.storage c scope with
    | error => simp [service, hl, Except.map, Except.mapError] at h
    | ok loaded =>
      simp only [service, hl, Except.map, Except.mapError, Prod.mk.injEq, Except.ok.injEq] at h
      obtain ⟨rfl, rfl⟩ := h
      exact .load hl
  | wantsLookupObject links =>
    cases hl : ReplicaStorage.lookupObjects client.storage links with
    | error => simp [service, hl, Except.map, Except.mapError] at h
    | ok known =>
      simp only [service, hl, Except.map, Except.mapError, Prod.mk.injEq, Except.ok.injEq] at h
      obtain ⟨rfl, rfl⟩ := h
      exact .lookup hl
  | wantsWrite ops =>
    cases hw : ReplicaStorage.write client.storage ops with
    | mk storage reply =>
      cases reply with
      | error => simp [service, hw, Except.map, Except.mapError] at h
      | ok =>
        simp only [service, hw, Except.map, Except.mapError, Prod.mk.injEq, Except.ok.injEq] at h
        obtain ⟨rfl, rfl⟩ := h
        exact .write hw

/-- What a failed request leaves, and the error of the seam it is for. A failed write leaves what
its storage made of it. -/
inductive Fails (client : ReplicaClient S R) :
    ReplicaYield → ReplicaClient S R → Error S R E → Prop
  | remote {y : ReplicaYield} (remote : R) (err : ReplicaRemote.Error R) (own : y.Remote) :
      Fails client y { client with remote := remote } (.remote err)
  | read {y : ReplicaYield} (err : ReplicaStorage.Error S) (own : ¬ y.Remote)
      (writes : ∀ ops, y ≠ .wantsWrite ops) : Fails client y client (.storage err)
  | write {ops : List ReplicaWriteOp} {storage : S} {err : ReplicaStorage.Error S}
      (replies : ReplicaStorage.write client.storage ops = (storage, .error err)) :
      Fails client (.wantsWrite ops) { client with storage := storage } (.storage err)

theorem ofRemote_fails {α : Type} {client next : ReplicaClient S R} {arg : α → ReplicaArg}
    {reply : R × Except (ReplicaRemote.Error R) α} {e : Error S R E}
    (h : client.ofRemote arg reply = (next, .error e)) {y : ReplicaYield}
    (hy : y.Remote) : client.Fails y next e := by
  obtain ⟨remote, reply⟩ := reply
  cases reply with
  | ok => simp [ofRemote, Except.map, Except.mapError] at h
  | error err =>
    simp only [ofRemote, Except.map, Except.mapError, Prod.mk.injEq, Except.error.injEq] at h
    obtain ⟨rfl, rfl⟩ := h
    exact .remote remote err hy

theorem service_fails (client : ReplicaClient S R) (y : ReplicaYield) (next : ReplicaClient S R)
    (e : Error S R E) (h : client.service y = (next, .error e)) : client.Fails y next e := by
  cases y with
  | wantsEnumerate | wantsFetch | wantsPush => exact ofRemote_fails h trivial
  | wantsLoad c scope =>
    cases hl : ReplicaStorage.load client.storage c scope with
    | ok => simp [service, hl, Except.map, Except.mapError] at h
    | error err =>
      simp only [service, hl, Except.map, Except.mapError, Prod.mk.injEq, Except.error.injEq] at h
      obtain ⟨rfl, rfl⟩ := h
      exact .read err id (by simp)
  | wantsLookupObject links =>
    cases hl : ReplicaStorage.lookupObjects client.storage links with
    | ok => simp [service, hl, Except.map, Except.mapError] at h
    | error err =>
      simp only [service, hl, Except.map, Except.mapError, Prod.mk.injEq, Except.error.injEq] at h
      obtain ⟨rfl, rfl⟩ := h
      exact .read err id (by simp)
  | wantsWrite ops =>
    cases hw : ReplicaStorage.write client.storage ops with
    | mk storage reply =>
      cases reply with
      | ok => simp [service, hw, Except.map, Except.mapError] at h
      | error err =>
        simp only [service, hw, Except.map, Except.mapError, Prod.mk.injEq, Except.error.injEq] at h
        obtain ⟨rfl, rfl⟩ := h
        exact .write hw

omit [ReplicaRemote R] in
/-- A request granted is answered in kind. -/
theorem Granted.answers {client next : ReplicaClient S R} {y : ReplicaYield} {a : ReplicaArg}
    (h : client.Granted y next a) : a.Answers y := by
  cases h with
  | remote remote own kind => exact kind
  | load | lookup | write => trivial

/-- The requests of a transcript, each granted by the client the one before left. -/
abbrev Grants : ReplicaClient S R → Transcript → ReplicaClient S R → Prop :=
  Coroutine.Grants Granted

omit [ReplicaRemote R] in
/-- A transcript that never asks the remote leaves it. -/
theorem Grants.offline {client next : ReplicaClient S R} {t : Transcript} (h : client.Grants t next)
    (hlocal : ∀ e ∈ t, ¬ e.1.Remote) : next.remote = client.remote := by
  induction h with
  | nil => rfl
  | cons granted _ ih =>
    rw [List.forall_mem_cons] at hlocal
    refine (ih hlocal.2).trans ?_
    cases granted with
    | remote remote own => exact absurd own hlocal.1
    | load | lookup | write => rfl

section Verbs

variable {Good : Except E T → Prop}
  {resume : C → Option ReplicaArg → C × ReplicaCoroutineState ReplicaYield (Except E T)}
  (p : Coroutine.Progress resume ReplicaArg.Answers Good) {c : C} (hc : p.Awaits c none)
include hc

/-- A verb of a client gets as far on a whole run as its requests are granted, whatever is said of a
granted request and of a failed one. -/
theorem run_extends_over
    {grants : ReplicaClient S R → ReplicaYield → ReplicaClient S R → ReplicaArg → Prop}
    {fails : ReplicaClient S R → ReplicaYield → ReplicaClient S R → Error S R E → Prop}
    (hgrants : ∀ client y next a, client.service (E := E) y = (next, .ok a) →
      grants client y next a)
    (hfails : ∀ client y next e, client.service y = (next, .error e) → fails client y next e)
    (hkind : ∀ client y next a, grants client y next a → a.Answers y) {fuel : ℕ}
    {client client' : ReplicaClient S R} {out : Except (Error S R E) T}
    (h : run resume fuel c none client = some (client', out)) :
    ∃ (t : Transcript) (res : _), Coroutine.Progress.Extends resume ReplicaArg.Answers Good grants
      fails c none client client' t res ∧ settled res = out := by
  rw [run_attempt, Option.map_eq_some_iff] at h
  obtain ⟨⟨next, t, res⟩, hd, heq⟩ := h
  cases heq
  have hattempts := Coroutine.attempt_attempts hgrants hfails hd
  exact ⟨t, res, p.attempt_extends hkind answers_some hc hattempts, rfl⟩

theorem run_extends {fuel : ℕ} {client client' : ReplicaClient S R} {out : Except (Error S R E) T}
    (h : run resume fuel c none client = some (client', out)) :
    ∃ (t : Transcript) (res : _), Coroutine.Progress.Extends resume ReplicaArg.Answers Good Granted
      Fails c none client client' t res ∧ settled res = out :=
  run_extends_over p hc service_granted service_fails (fun _ _ _ _ h => Granted.answers h) h

/-- A verb of a client returns, and with no error of its coroutine but one it vouches for. -/
theorem run_returns (client : ReplicaClient S R) : ∃ fuel client' out,
    run resume fuel c none client = some (client', out) ∧
      ∀ err, out = .error (.coroutine err) → Good (.error err) := by
  have hkind : ∀ (client : ReplicaClient S R) y next b,
      client.service (E := E) y = (next, .ok b) → b.Answers y :=
    fun client y next b h => (service_granted client y next b h).answers
  obtain ⟨fuel, client', t, res, hd⟩ := p.attempt_total hkind hc client
  have hrun : run resume fuel c none client = some (client', settled res) := by
    rw [run_attempt, hd]
    rfl
  obtain ⟨u, res', hextends, hsettled⟩ := run_extends p hc hrun
  refine ⟨fuel, client', _, hrun, ?_⟩
  rw [← hsettled]
  intro err herr
  cases hextends with
  | @completed _ _ r finishes =>
    cases r with
    | ok => cases herr
    | error e =>
      cases herr
      exact finishes.good
  | failed finishes granted failed => cases failed <;> cases herr

/-- A verb that never asks the remote leaves it. -/
theorem run_offline (hlocal : ∀ c a c' y, resume c a = (c', .yielded y) → ¬ y.Remote) {fuel : ℕ}
    {client client' : ReplicaClient S R} {out : Except (Error S R E) T}
    (h : run resume fuel c none client = some (client', out)) : client'.remote = client.remote := by
  obtain ⟨t, res, hextends, -⟩ := run_extends p hc h
  cases hextends with
  | completed finishes granted => exact Grants.offline granted (finishes.runs.asked hlocal)
  | failed finishes granted failed =>
    have hasked := List.forall_mem_append.mp (finishes.runs.asked hlocal)
    refine Eq.trans ?_ (Grants.offline granted hasked.1)
    cases failed with
    | remote remote err own => exact absurd own (hasked.2 _ List.mem_cons_self)
    | read | write => rfl

end Verbs
end ReplicaClient
end IoReplica

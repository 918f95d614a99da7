import IoReplica.Hub.Store
import IoReplica.Sync.Outcome

/-! Driving whole runs over the hub-backed storage, against any remote service. -/
namespace IoReplica

namespace Verb

variable {σ : Type}

/-- Drives a whole run of the verb, within `fuel` resumes. -/
def drive (service : σ → ReplicaYield → σ × ReplicaArg) (fuel : ℕ) (s : σ) :
    Verb → Option (σ × Transcript)
  | .mutate collection mutation =>
    (Coroutine.drive ReplicaMutate.resume service fuel (.new collection mutation) none s).map
      (fun out => (out.1, out.2.1))
  | .sync collection opts =>
    (Coroutine.drive ReplicaSync.resume service fuel (.new collection opts) none s).map
      (fun out => (out.1, out.2.1))
  | .upgrade collection handles tier =>
    (Coroutine.drive ReplicaUpgrade.resume service fuel (.new collection handles tier) none s).map
      (fun out => (out.1, out.2.1))

theorem drive_runs {service : σ → ReplicaYield → σ × ReplicaArg} {fuel : ℕ} {s s' : σ}
    {verb : Verb} {t : Transcript} (h : verb.drive service fuel s = some (s', t)) :
    verb.Runs t ∧ Coroutine.Follows service s t s' := by
  cases verb with
  | mutate | sync | upgrade =>
    obtain ⟨⟨s₁, t₁, r⟩, hd, heq⟩ := Option.map_eq_some_iff.mp h
    cases heq
    obtain ⟨hruns, hfollows⟩ := Coroutine.drive_runs hd
    exact ⟨⟨r, hruns⟩, hfollows⟩

end Verb

namespace HubStore

variable {ρ : Type}

/-- Drives a source's run over the store and a remote. -/
def drive (remote : ρ → ReplicaYield → ρ × ReplicaArg) (fuel : ℕ) (source : ReplicaSourceId)
    (verb : Verb) (s : HubStore × ρ) : Option ((HubStore × ρ) × Transcript) :=
  verb.drive (Coroutine.beside (service source) remote) fuel s

theorem drive_ran {remote : ρ → ReplicaYield → ρ × ReplicaArg} {fuel : ℕ}
    {source : ReplicaSourceId} {verb : Verb} {s s' : HubStore × ρ} {t : Transcript}
    (h : drive remote fuel source verb s = some (s', t)) : Ran source verb s.1 t s'.1 := by
  obtain ⟨hruns, hfollows⟩ := Verb.drive_runs h
  exact ⟨hruns, Coroutine.follows_attends hfollows⟩

end HubStore

/-- A remote that answers from a script. -/
structure Script where
  snapshot : ReplicaRemoteSnapshot
  items : List ReplicaFetchedItem
  results : List (List ReplicaPushResult)

namespace Script

def answer (r : Script) : ReplicaYield → Script × ReplicaArg
  | .wantsEnumerate .. => (r, .enumerate r.snapshot)
  | .wantsFetch .. => (r, .fetch r.items)
  | .wantsPush .. => ({ r with results := r.results.tail }, .push (r.results.headD []))
  | .wantsLoad .. | .wantsLookupObject .. | .wantsWrite .. => (r, .write)

/-- The store a scripted run leaves, or the one it started from where the fuel runs out. -/
def leaves (r : Script) (fuel : ℕ) (source : ReplicaSourceId) (verb : Verb) (s : HubStore) :
    HubStore := ((HubStore.drive answer fuel source verb (s, r)).map (·.1.1)).getD s

theorem leaves_reachable {conflict : ReplicaHubConflict} {s : HubStore}
    (h : HubStore.Reachable conflict s) (r : Script) (fuel : ℕ) (source : ReplicaSourceId)
    (verb : Verb) : HubStore.Reachable conflict (r.leaves fuel source verb s) := by
  simp only [leaves]
  cases hd : HubStore.drive answer fuel source verb (s, r) with
  | none => exact h
  | some out => exact h.run (HubStore.drive_ran hd)

/-- Drives a source's whole sync, if it completes. -/
def syncs (r : Script) (fuel : ℕ) (source : ReplicaSourceId) (collection : ReplicaCollectionId)
    (opts : ReplicaSyncOptions) (s : HubStore) : Option (HubStore × Transcript) :=
  match Coroutine.drive ReplicaSync.resume (Coroutine.beside (HubStore.service source) answer) fuel
    (ReplicaSync.new collection opts) none (s, r) with
  | some (out, t, .ok _) => some (out.1, t)
  | _ => none

theorem syncs_spec {r : Script} {fuel : ℕ} {source : ReplicaSourceId}
    {collection : ReplicaCollectionId} {opts : ReplicaSyncOptions} {s s' : HubStore}
    {t : Transcript} (h : r.syncs fuel source collection opts s = some (s', t)) :
    Syncs collection opts (s.load source collection) r.snapshot t ∧
      Coroutine.Attends (HubStore.service source) s t s' := by
  simp only [syncs] at h
  split at h
  · rename_i out u report hd
    cases h
    obtain ⟨hruns, hfollows⟩ := Coroutine.drive_runs hd
    refine ⟨?_, Coroutine.follows_attends hfollows⟩
    obtain ⟨loaded, snapshot, rest, report', rfl, hruns'⟩ := runs_syncs hruns
    cases hfollows with
    | cons rest =>
      cases rest with
      | cons rest => exact ⟨_, _, rfl, hruns⟩
  · cases h

/-- Drives a source's whole upgrade, if it completes. -/
def upgrades (r : Script) (fuel : ℕ) (source : ReplicaSourceId) (collection : ReplicaCollectionId)
    (handles : List ReplicaHandle) (tier : ReplicaTier) (s : HubStore) :
    Option (HubStore × Transcript) :=
  match Coroutine.drive ReplicaUpgrade.resume (Coroutine.beside (HubStore.service source) answer)
    fuel (ReplicaUpgrade.new collection handles tier) none (s, r) with
  | some (out, t, .ok _) => some (out.1, t)
  | _ => none

theorem upgrades_spec {r : Script} {fuel : ℕ} {source : ReplicaSourceId}
    {collection : ReplicaCollectionId} {handles : List ReplicaHandle} {tier : ReplicaTier}
    {s s' : HubStore} {t : Transcript}
    (h : r.upgrades fuel source collection handles tier s = some (s', t)) :
    (∃ report, Coroutine.Runs ReplicaUpgrade.resume (ReplicaUpgrade.new collection handles tier)
      none t (.ok report)) ∧ Coroutine.Attends (HubStore.service source) s t s' := by
  simp only [upgrades] at h
  split at h
  · rename_i out u report hd
    cases h
    obtain ⟨hruns, hfollows⟩ := Coroutine.drive_runs hd
    exact ⟨⟨report, hruns⟩, Coroutine.follows_attends hfollows⟩
  · cases h

end Script
end IoReplica

import IoReplica.Upgrade.Row

/-! Upgrades over a storage that returns exactly the rows each load asks for. -/
namespace IoReplica

/-- Is the row one the load has to return? -/
def ReplicaLoadScope.names : ReplicaLoadScope → ReplicaPlacement → Bool
  | .all, _ => true
  | .handles hs, p => decide (p.handle ∈ hs)
  | .links ls, p => p.linkId.any (fun link => decide (link ∈ ls))

/-- Every load of the transcript returned the stored rows it has to, and no others. -/
def ServesExactly (s : CollectionRows) (t : Transcript) : Prop :=
  ∀ (collection : ReplicaCollectionId) (scope : ReplicaLoadScope) (loaded : ReplicaLoaded),
    (.wantsLoad collection scope, .load loaded) ∈ t → ∀ p : ReplicaPlacement,
      p ∈ loaded.placements ↔ s.rows[p.handle]? = some p ∧ scope.names p = true

namespace ReplicaUpgrade

/-- Services an upgrade of a remote: each load answered with the rows it names. -/
def exactly (known : LinkMap ReplicaHash)
    (remote : List ReplicaHandle → ReplicaTier → List ReplicaFetchedItem) (s : CollectionRows) :
    ReplicaYield → CollectionRows × ReplicaArg
  | .wantsLoad _ scope => (s, .load ⟨s.placements.filter scope.names, none⟩)
  | .wantsFetch _ handles tier => (s, .fetch (remote handles tier))
  | .wantsLookupObject _ => (s, .lookupObject known)
  | .wantsWrite ops => (s.apply ops, .write)
  | .wantsEnumerate .. => (s, .enumerate ⟨[], [], true, ⟨[]⟩⟩)
  | .wantsPush .. => (s, .push [])

variable {known : LinkMap ReplicaHash}
  {remote : List ReplicaHandle → ReplicaTier → List ReplicaFetchedItem}

/-- A serviced upgrade reads before it writes: what it loads are the rows it started from. -/
theorem exactly_serves {self : ReplicaUpgrade} {a : Option ReplicaArg} {t : Transcript}
    {r : Except ReplicaArgError ReplicaUpgradeReport} (h : Coroutine.Runs resume self a t r)
    {s s' : CollectionRows} (hf : Coroutine.Follows (exactly known remote) s t s') :
    ServesExactly s t ∧ (∀ p ∈ t.loaded, s.rows[p.handle]? = some p) ∧ s' = s.apply t.writes := by
  induction h generalizing s with
  | done =>
    cases hf
    exact ⟨fun _ _ _ h => (by cases h), fun _ h => (by cases h), rfl⟩
  | @ask c c' a y b t r yields hrest ih =>
    have hasks := (resume_asks yields).2.2
    cases hasks with
    | load scope =>
      cases hf with
      | cons hf =>
        obtain ⟨hserves, hloaded, hs'⟩ := ih hf
        have hrow : ∀ p ∈ s.placements.filter scope.names, s.rows[p.handle]? = some p :=
          fun p hp => (s.mem_placements p).mp (List.mem_filter.mp hp).1
        refine ⟨?_, ?_, hs'⟩
        · intro collection scope' loaded hmem
          rcases List.mem_cons.mp hmem with heq | hmem
          · cases heq
            intro p
            exact List.mem_filter.trans (and_congr_left' (s.mem_placements p))
          · exact hserves collection scope' loaded hmem
        · intro p hp
          rcases List.mem_append.mp hp with hp | hp
          · exact hrow p hp
          · exact hloaded p hp
    | lookup links =>
      cases hf with
      | cons hf =>
        obtain ⟨hserves, hloaded, hs'⟩ := ih hf
        refine ⟨fun collection scope loaded hmem => ?_, hloaded, hs'⟩
        rcases List.mem_cons.mp hmem with heq | hmem
        · cases heq
        · exact hserves collection scope loaded hmem
    | fetch hs next =>
      cases hf with
      | cons hf =>
        obtain ⟨hserves, hloaded, hs'⟩ := ih hf
        refine ⟨fun collection scope loaded hmem => ?_, hloaded, hs'⟩
        rcases List.mem_cons.mp hmem with heq | hmem
        · cases heq
        · exact hserves collection scope loaded hmem
    | write ops last =>
      have hnil : t = [] := by
        cases hrest with
        | done => rfl
        | ask yields' _ => exact absurd last (resume_asks yields').1
      subst hnil
      cases hf with
      | cons hf =>
        cases hf
        refine ⟨?_, fun p hp => (by cases hp), ?_⟩
        · intro collection scope loaded hmem
          rcases List.mem_singleton.mp hmem with heq
          cases heq
        · simp [exactly, Transcript.writes]

/-- Drives one upgrade of the collection, within `fuel` resumes. -/
def exactRun (fuel : ℕ) (known : LinkMap ReplicaHash)
    (remote : List ReplicaHandle → ReplicaTier → List ReplicaFetchedItem)
    (collection : ReplicaCollectionId) (handles : List ReplicaHandle) (tier : ReplicaTier)
    (s : CollectionRows) : Option (CollectionRows × Transcript) :=
  match Coroutine.drive resume (exactly known remote) fuel (new collection handles tier) none s with
  | some (s', t, .ok _) => some (s', t)
  | _ => none

/-- What the upgrade loads of the handles it names. -/
def firstLoad (s : CollectionRows) (handles : List ReplicaHandle) : ReplicaLoaded :=
  ⟨s.placements.filter (ReplicaLoadScope.handles handles).names, none⟩

theorem exactRun_upgrades {fuel : ℕ} {collection : ReplicaCollectionId}
    {handles : List ReplicaHandle} {tier : ReplicaTier} {s s' : CollectionRows} {t : Transcript}
    (h : exactRun fuel known remote collection handles tier s = some (s', t)) :
    Upgrades collection handles tier (firstLoad s handles) t ∧ ServesExactly s t ∧ Serves s t ∧
      s' = s.apply t.writes := by
  simp only [exactRun] at h
  split at h
  · rename_i hd
    cases h
    obtain ⟨hruns, hfollows⟩ := Coroutine.drive_runs hd
    obtain ⟨hexact, hserves, hs'⟩ := exactly_serves hruns hfollows
    refine ⟨?_, hexact, hserves, hs'⟩
    obtain ⟨b, u, rfl, -⟩ := hruns.ends
    cases hfollows
    exact ⟨u, _, rfl, hruns⟩
  · cases h

/-- Every fetch of a serviced upgrade is answered by the remote. -/
theorem exactRun_fetches {fuel : ℕ} {collection : ReplicaCollectionId}
    {handles : List ReplicaHandle} {tier : ReplicaTier} {s s' : CollectionRows} {t : Transcript}
    (h : exactRun fuel known remote collection handles tier s = some (s', t))
    {c : ReplicaCollectionId} {hs : List ReplicaHandle} {tier' : ReplicaTier} {a : ReplicaArg}
    (hmem : (.wantsFetch c hs tier', a) ∈ t) : a = .fetch (remote hs tier') := by
  simp only [exactRun] at h
  split at h
  · rename_i hd
    cases h
    obtain ⟨s₀, ha⟩ := (Coroutine.drive_runs hd).2.answer hmem
    exact ha
  · cases h

end ReplicaUpgrade
end IoReplica

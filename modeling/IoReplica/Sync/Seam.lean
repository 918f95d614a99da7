import IoReplica.Sync.Driver
import IoReplica.Sync.Outcome

/-! A reference driver: one collection's rows, one snapshot and the push results still to report. -/
namespace IoReplica

/-- Whatever is loaded and enumerated, some sync run completes over it. -/
theorem exists_syncs (collection : ReplicaCollectionId) (opts : ReplicaSyncOptions)
    (loaded : ReplicaLoaded) (snapshot : ReplicaRemoteSnapshot) :
    ∃ t, Syncs collection opts loaded snapshot t := by
  let service (s : Unit) (y : ReplicaYield) : Unit × ReplicaArg :=
    match y with
    | .wantsLoad .. => (s, .load loaded)
    | .wantsEnumerate .. => (s, .enumerate snapshot)
    | .wantsPush .. => (s, .push [])
    | .wantsWrite _ => (s, .write)
    | .wantsFetch .. => (s, .fetch [])
    | .wantsLookupObject _ => (s, .lookupObject ∅)
  have hkind : ∀ s y, (service s y).2.Answers y := fun s y => by cases y <;> trivial
  obtain ⟨fuel, s', t, report, hd⟩ := ReplicaSync.completes service hkind collection opts ()
  obtain ⟨hruns, hfollows⟩ := Coroutine.drive_runs hd
  obtain ⟨loaded', snapshot', rest, report', rfl, hruns'⟩ := runs_syncs hruns
  cases hfollows with
  | cons rest =>
    cases rest with
    | cons rest => exact ⟨_, _, _, rfl, hruns⟩

/-- The seams a sync run is driven against. -/
structure Seam where
  rows : CollectionRows
  checkpoint : Option ReplicaCheckpoint
  snapshot : ReplicaRemoteSnapshot
  replies : List (List ReplicaPushResult)

namespace Seam

/-- Services one request. A push is answered with the next results to report. -/
def service (s : Seam) : ReplicaYield → Seam × ReplicaArg
  | .wantsLoad .. => (s, .load ⟨s.rows.placements, s.checkpoint⟩)
  | .wantsEnumerate .. => (s, .enumerate s.snapshot)
  | .wantsPush .. => ({ s with replies := s.replies.tail }, .push (s.replies.headD []))
  | .wantsWrite ops => ({ s with rows := s.rows.apply ops }, .write)
  | .wantsFetch .. => (s, .fetch [])
  | .wantsLookupObject _ => (s, .lookupObject ∅)

theorem service_answers (s : Seam) (y : ReplicaYield) : (s.service y).2.Answers y := by
  cases y <;> trivial

theorem follows_answers {s s' : Seam} {t : Transcript} (h : Coroutine.Follows service s t s') :
    ∀ e ∈ t, e.2.Answers e.1 := by
  induction h with
  | nil => exact fun e he => by cases he
  | @cons s s' y t rest ih => exact List.forall_mem_cons.mpr ⟨s.service_answers y, ih⟩

/-- The stored rows move by the writes of the transcript alone. -/
theorem follows_rows {s s' : Seam} {t : Transcript} (h : Coroutine.Follows service s t s') :
    s'.rows = s.rows.apply t.writes ∧ s'.checkpoint = s.checkpoint ∧ s'.snapshot = s.snapshot := by
  induction h with
  | nil s => exact ⟨rfl, rfl, rfl⟩
  | @cons s s' y t rest ih =>
    obtain ⟨hr, hc, hs⟩ := ih
    cases y with
    | wantsWrite ops =>
      refine ⟨?_, hc, hs⟩
      rw [hr]
      simp [service, CollectionRows.apply, Transcript.writes]
    | wantsLoad | wantsEnumerate | wantsPush | wantsFetch | wantsLookupObject =>
      exact ⟨hr, hc, hs⟩

/-- A driven run is a sync run over the stored rows and the snapshot, and leaves its writes. -/
theorem drive_syncs {s s' : Seam} {collection : ReplicaCollectionId} {opts : ReplicaSyncOptions}
    {fuel : ℕ} {t : Transcript} {report : ReplicaSyncReport}
    (h : Coroutine.drive ReplicaSync.resume service fuel (ReplicaSync.new collection opts) none s =
      some (s', t, .ok report)) :
    Syncs collection opts ⟨s.rows.placements, s.checkpoint⟩ s.snapshot t ∧
      s'.rows = s.rows.apply t.writes := by
  obtain ⟨hruns, hfollows⟩ := Coroutine.drive_runs h
  refine ⟨?_, (follows_rows hfollows).1⟩
  obtain ⟨loaded, snapshot, rest, report', rfl, hruns'⟩ := runs_syncs hruns
  cases hfollows with
  | cons rest =>
    cases rest with
    | cons rest => exact ⟨_, _, rfl, hruns⟩

/-- Drives a whole sync run, within `fuel` resumes. -/
def sync (fuel : ℕ) (collection : ReplicaCollectionId) (opts : ReplicaSyncOptions) (s : Seam) :
    Option (Seam × Transcript) :=
  match Coroutine.drive ReplicaSync.resume service fuel (ReplicaSync.new collection opts) none s with
  | some (s', t, .ok _) => some (s', t)
  | _ => none

theorem sync_syncs {s s' : Seam} {collection : ReplicaCollectionId} {opts : ReplicaSyncOptions}
    {fuel : ℕ} {t : Transcript} (h : s.sync fuel collection opts = some (s', t)) :
    Syncs collection opts ⟨s.rows.placements, s.checkpoint⟩ s.snapshot t ∧
      s'.rows = s.rows.apply t.writes := by
  simp only [sync] at h
  split at h
  · rename_i hd
    cases h
    exact drive_syncs hd
  · cases h

/-- A driven run answers each request in kind. -/
theorem sync_answers {s s' : Seam} {collection : ReplicaCollectionId} {opts : ReplicaSyncOptions}
    {fuel : ℕ} {t : Transcript} (h : s.sync fuel collection opts = some (s', t)) :
    ∀ e ∈ t, e.2.Answers e.1 := by
  simp only [sync] at h
  split at h
  · rename_i hd
    cases h
    exact follows_answers (Coroutine.drive_runs hd).2
  · cases h

/-- Enough fuel drives any seam through a whole run. -/
theorem sync_total (collection : ReplicaCollectionId) (opts : ReplicaSyncOptions) (s : Seam) :
    ∃ fuel s' t, s.sync fuel collection opts = some (s', t) := by
  obtain ⟨fuel, s', t, report, hd⟩ :=
    ReplicaSync.completes service service_answers collection opts s
  exact ⟨fuel, s', t, by simp only [sync, hd]⟩

/-- One stored row, against a snapshot. -/
def single (p : ReplicaPlacement) (snapshot : ReplicaRemoteSnapshot)
    (replies : List (List ReplicaPushResult)) : Seam where
  rows := CollectionRows.empty.write (.upsertPlacement p)
  checkpoint := none
  snapshot := snapshot
  replies := replies

/-- A row alone in its collection is only written onto by a member assigned its handle. -/
theorem single_undisturbed {p : ReplicaPlacement} {t : Transcript}
    (h : Outbox.Unassigned p.handle t.pushes) :
    Undisturbed (CollectionRows.empty.write (.upsertPlacement p)) p.handle t := by
  refine ⟨?_, h⟩
  intro g q hq hg
  have hnone : (CollectionRows.empty.write (.upsertPlacement p)).rows[g]? = none := by
    refine (OrderedMap.get_insert_of_ne _ _ (Ne.symm hg)).trans ?_
    simp [CollectionRows.empty]
  rw [hnone] at hq
  cases hq

/-- Results that assign no handle assign none twice. -/
theorem unassigned_of_replies {h : ReplicaHandle} {t : Transcript}
    {replies : List (List ReplicaPushResult)} (ht : t.pushes.map (·.2) = replies)
    (hr : ∀ rs ∈ replies, ∀ r ∈ rs, r.assigned = none) : Outbox.Unassigned h t.pushes := by
  intro e he r hmem _
  have hin : e.2 ∈ replies := ht ▸ List.mem_map_of_mem he
  rw [hr e.2 hin r hmem]
  simp

end Seam
end IoReplica

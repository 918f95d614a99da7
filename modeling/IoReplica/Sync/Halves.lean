import IoReplica.Sync.Bystander
import IoReplica.Sync.Copied
import IoReplica.Sync.MovedEdit

/-! The two halves of a move, each in a run of its own collection: the remove its source pushes, and
the create its target pushes. -/
namespace IoReplica

/-- The changes a run pushed, in order, each with the result that accepts it, if one does. -/
def Transcript.answers (t : Transcript) : List (ReplicaChangeKind × Option ReplicaPushResult) :=
  t.pushes.flatMap (fun e => e.1.map (fun k =>
    (k.kind, e.2.find? (fun r => r.confirms k.handle))))

namespace Transcript
variable {t : Transcript}

theorem answers_kinds (t : Transcript) : t.answers.map (·.1) = t.changes.map (·.kind) := by
  simp only [answers, changes, List.map_flatMap, List.map_map, List.map_flatten]
  rw [← List.flatMap_def]
  rfl

theorem answers_handles (t : Transcript) :
    t.answers.map (·.1.handle) = t.changes.map (fun k => k.handle) := by
  have hkinds := congrArg (List.map ReplicaChangeKind.handle) t.answers_kinds
  rwa [List.map_map, List.map_map] at hkinds

theorem mem_changes_of_answers {kind : ReplicaChangeKind} {r : Option ReplicaPushResult}
    (h : (kind, r) ∈ t.answers) : ∃ k ∈ t.changes, k.kind = kind := by
  have hmem : kind ∈ t.answers.map (·.1) := List.mem_map_of_mem h
  rw [answers_kinds] at hmem
  exact List.mem_map.mp hmem

theorem mem_answers_of_changes {k : ReplicaChange} (h : k ∈ t.changes) :
    ∃ r, (k.kind, r) ∈ t.answers := by
  have hmem : k.kind ∈ t.changes.map (·.kind) := List.mem_map_of_mem h
  rw [← answers_kinds] at hmem
  obtain ⟨⟨kind, r⟩, hk, rfl⟩ := List.mem_map.mp hmem
  exact ⟨r, hk⟩

/-- An accepted answer is the one its change is recorded with. -/
theorem confirmation_of_answers (hflight : t.InFlight)
    (hdistinct : (t.changes.map (fun k => k.handle)).Nodup) {kind : ReplicaChangeKind}
    {r : ReplicaPushResult} (h : (kind, some r) ∈ t.answers) :
    Outbox.confirmation kind.handle t.pushes = some r := by
  obtain ⟨e, he, hmem⟩ := List.mem_flatMap.mp h
  obtain ⟨k, hk, heq⟩ := List.mem_map.mp hmem
  rw [Prod.mk.injEq] at heq
  obtain ⟨rfl, hfind⟩ := heq
  rw [← hfind]
  exact Outbox.confirmation_of_accepted hflight hdistinct he hk

end Transcript

/-- A snapshot tells a pending row of a member still at the revision its base holds. -/
theorem Servers.Tells.unmoved {m : Servers} {c : ReplicaCollectionId}
    {snapshot : ReplicaRemoteSnapshot} (ht : m.Tells c snapshot) {r : CollectionRows}
    {p q : ReplicaPlacement} (hrow : r.rows[p.handle]? = some q) (hs : q.status ≠ .clean)
    (hbase : q.base = p.base) (hconflict : q.conflictRevision = none) (hbased : p.base.isSome)
    {item : ServerItem}
    (hheld : m ⟨c, p.handle⟩ = some item) (hrev : item.revision = p.baseRevision) :
    MovedEdit.Unmoved p r snapshot := by
  have hv : p.handle ∉ snapshot.vanished := by
    intro hmem
    rw [ht.vanished _ hmem] at hheld
    cases hheld
  have hlisted : ∀ i, snapshot.reported p.handle = some i →
      ReplicaSync.movedFrom i p.baseRevision = false := by
    intro i hi
    obtain ⟨held, hm, hrevision⟩ := ht.listed _ _ hi
    rw [hheld, Option.some.injEq] at hm
    rw [← hm, hrev] at hrevision
    simp [ReplicaSync.movedFrom, hrevision]
  rw [MovedEdit.Unmoved, Merge.seen]
  cases hc : snapshot.complete with
  | true =>
    obtain ⟨i, hi⟩ := Option.isSome_iff_exists.mp (ht.whole hc p.handle (by rw [hheld]; rfl))
    refine ⟨i, ?_, hlisted i hi⟩
    rw [Merge.candidateAt_complete hc, hrow, hi]
    rfl
  | false =>
    cases hi : snapshot.reported p.handle with
    | some i =>
      refine ⟨i, ?_, hlisted i hi⟩
      rw [Merge.candidateAt_listed hc hv hi]
      rfl
    | none =>
      obtain ⟨base, hb⟩ := Option.isSome_iff_exists.mp hbased
      refine ⟨⟨p.handle, base.flags, base.revision⟩, ?_, ?_⟩
      · rw [Merge.candidateAt_unlisted hc hv hi, hrow, Option.bind_some, if_neg hs,
          Option.bind_some, Merge.standIn, hbase, hb, hconflict]
        rfl
      · simp [ReplicaSync.movedFrom, ReplicaPlacement.baseRevision, hb]

open ReplicaSync

section Source
variable {p : ReplicaPlacement} {target : ReplicaCollectionId} {opts : ReplicaSyncOptions}
  {r : CollectionRows} {step : SyncStep}

/-- What the merge makes of the moved row where its member did not move: its relocation. -/
theorem effect_movedAway (hg : MovedEdit.Granted opts) (hb : p.base.isSome)
    (he : p.stagedEdit = none) {item : ReplicaRemoteItem}
    (hu : movedFrom item p.baseRevision = false) :
    (effect p.collection opts ⟨p.handle, some (ReplicaMutate.movedAway p target), some item⟩).2 =
      some (.remove p.handle (some target) p.linkId p.baseRevision) := by
  have hbase : (ReplicaMutate.movedAway p target).base.isSome = true := hb
  have hstaged : (ReplicaMutate.movedAway p target).stagedEdit = none := he
  have hrev : (ReplicaMutate.movedAway p target).baseRevision = p.baseRevision := rfl
  have hmay : (ReplicaSync.new p.collection opts).opts.mayRemove = true := by
    have hopts : (ReplicaSync.new p.collection opts).opts = opts := rfl
    simp [hopts, ReplicaSyncOptions.mayRemove, hg.push, hg.rights, ReplicaPushRights.all]
  rw [effect, merge_tombstone _ _ (p := ReplicaMutate.movedAway p target) rfl]
  dsimp only
  rw [if_pos hbase, mergeTombstone, hrev, hu, hstaged, hmay]
  rfl

/-- A run of the source names the moved row in its relocation alone. -/
theorem movedAway_pushed (ho : step.Over p.collection r) (hg : MovedEdit.Granted step.opts)
    (hrow : r.rows[p.handle]? = some (ReplicaMutate.movedAway p target)) (hb : p.base.isSome)
    (he : p.stagedEdit = none) (hu : MovedEdit.Unmoved p r step.snapshot) :
    step.transcript.changes.filter (fun k => k.handle = p.handle) =
      [.new p.collection (.remove p.handle (some target) p.linkId p.baseRevision)] := by
  obtain ⟨item, hseen, hunmoved⟩ := hu
  obtain ⟨box, hwhole⟩ := ho.syncs.whole
  have hat := Merge.candidateAt_seen step.snapshot hrow (by simp [ReplicaMutate.movedAway])
  rw [hseen] at hat
  have hmem : (⟨p.handle, some (ReplicaMutate.movedAway p target), some item⟩ : Candidate) ∈
      mergedCandidates step.loaded step.snapshot := by
    rw [mem_mergedCandidates, ho.loads, CollectionRows.collect_placements]
    exact hat
  rw [hwhole.changes_at hmem, effect_movedAway hg hb he hunmoved]
  rfl

end Source

section Target
variable {p : ReplicaPlacement} {target : ReplicaCollectionId} {placeholder : ReplicaHandle}
  {r : CollectionRows} {step : SyncStep} {servers : Servers} {link : ReplicaLinkId}

/-- A run of the target names the pending create in its add alone. -/
theorem stagedCopy_pushed (ho : step.Over target r) (hg : MovedEdit.Granted step.opts)
    (hrow : r.rows[placeholder]? = some (ReplicaMutate.stagedCopy p target placeholder))
    (hm : Copies.Meets r placeholder step) :
    step.transcript.changes.filter (fun k => k.handle = placeholder) =
      [.new target (.add placeholder p.linkId p.flags (some ⟨p.collection, p.handle⟩)
        p.object)] := by
  have hmay : step.opts.mayAdd = true := by
    simp [ReplicaSyncOptions.mayAdd, hg.push, hg.rights, ReplicaPushRights.all]
  have hchanges := (ho.syncs.runAt (c := ⟨placeholder, _, none⟩) ho.loads
    (Copies.candidate hm hrow) hm.undisturbed).changes
  obtain ⟨-, -, hkind⟩ := effect_stagedCopy p target placeholder step.opts
  dsimp only at hchanges hkind
  rw [hchanges, hkind, hmay]
  rfl

/-- A run of the target leaves the pending create as it is where its add was not accepted, and
bystanders everywhere else. -/
theorem stagedCopy_settles (ho : step.Over target r) (hg : MovedEdit.Granted step.opts)
    (hrow : r.rows[placeholder]? = some (ReplicaMutate.stagedCopy p target placeholder))
    (hm : Copies.Meets r placeholder step)
    (hothers : ∀ (h : ReplicaHandle) (q : ReplicaPlacement), r.rows[h]? = some q →
      h ≠ placeholder → Bystander servers link target q)
    {h : ReplicaHandle} {q : ReplicaPlacement}
    (hq : (r.apply step.transcript.writes).rows[h]? = some q) :
    (h = placeholder ∧ q = ReplicaMutate.stagedCopy p target placeholder ∧
        Outbox.confirmation placeholder step.transcript.pushes = none) ∨
      Bystander servers link target q := by
  have hmay : step.opts.mayAdd = true := by
    simp [ReplicaSyncOptions.mayAdd, hg.push, hg.rights, ReplicaPushRights.all]
  have hat := Copies.candidate hm hrow
  obtain ⟨hwrites, hpend, -⟩ := effect_stagedCopy p target placeholder step.opts
  dsimp only at hwrites hpend
  rw [if_pos hmay] at hpend
  have hcreate : ∀ result op, op ∈ Pending.record target
      { Pending.none with created := some (ReplicaMutate.stagedCopy p target placeholder) } result →
      op = .dropPlacement target placeholder .superseded ∨ ∃ a, op = .upsertPlacement
        (rekeyedPlacement (ReplicaMutate.stagedCopy p target placeholder) a result.revision) := by
    intro result op hop
    have hmem : op ∈ Pending.recordCreate target result
        (ReplicaMutate.stagedCopy p target placeholder) := by
      simpa [Pending.record, Pending.none] using hop
    rcases List.mem_cons.mp hmem with rfl | hmem
    · exact Or.inl rfl
    · obtain ⟨a, -, rfl⟩ := Option.map_eq_some_iff.mp (Option.mem_toList.mp hmem)
      exact Or.inr ⟨a, rfl⟩
  obtain ⟨box, hwhole⟩ := ho.syncs.whole
  have hmem : (⟨placeholder, some (ReplicaMutate.stagedCopy p target placeholder), none⟩ :
      Candidate) ∈ mergedCandidates step.loaded step.snapshot := by
    rw [mem_mergedCandidates, ho.loads, CollectionRows.collect_placements]
    exact hat
  have hrun := (ho.syncs.runAt (c := ⟨placeholder, _, none⟩) ho.loads hat hm.undisturbed).row
  have hbystanders : ∀ (f : ReplicaHandle) (x : ReplicaPlacement),
      (collectPlacements step.loaded.placements)[f]? = some x → f ≠ placeholder →
        Bystander servers link target x ∧ (x.status = .tombstone →
          Bystander servers link target { x with status := .clean }) := by
    intro f x hx hne
    rw [ho.loads, CollectionRows.collect_placements] at hx
    have hby := hothers f x hx hne
    exact ⟨hby, fun _ => hby.reverted⟩
  rw [CollectionRows.get_apply] at hq
  rcases rowAfter_mem hq with hstood | hwritten
  · by_cases hh : h = placeholder
    · subst hh
      have hafter := hrun (r.rows[h]?)
      rw [hq, hwrites, rowAfter_nil, hpend, hrow] at hafter
      cases hconf : Outbox.confirmation h step.transcript.pushes with
      | none =>
        rw [hconf] at hafter
        exact Or.inl ⟨rfl, Option.some.inj hafter, rfl⟩
      | some result =>
        -- what the result records drops the placeholder, or rekeys it
        rw [hconf] at hafter
        have hdropped : (ReplicaMutate.stagedCopy p target h).handle = h := rfl
        simp only [Pending.record, Pending.none, Option.map_none, Option.toList_none,
          Bool.false_eq_true, if_false, List.nil_append, Option.map_some, Option.getD_some,
          Pending.recordCreate, rowAfter_drop, if_pos hdropped] at hafter
        cases ha : result.assigned with
        | none => simp [ha] at hafter
        | some a =>
          rw [ha, Option.map_some, Option.toList_some, rowAfter_upsert, rowAfter_nil] at hafter
          split at hafter
          · cases hafter
            exact Or.inr (.rekeyed _ a _)
          · cases hafter
    · exact Or.inr (hothers h q hstood hh)
  · rcases hwhole.sources_obeys (hm.undisturbed.loaded ho.loads)
      (Bystander.inherits servers link target) hbystanders hwritten with
      ⟨c, hc, hch, hop⟩ | ⟨result, hresult, hop⟩ | ⟨-, hobeys⟩
    · rw [mergedCandidates_unique hc hmem hch, hwrites] at hop
      cases hop
    · have hawaits := hwhole.awaits _ hmem
      dsimp only at hawaits
      rw [hawaits, hpend] at hop
      rcases hcreate result _ hop with hdrop | ⟨a, hrekey⟩
      · cases hdrop
      · cases hrekey
        exact Or.inr (.rekeyed _ a _)
    · exact Or.inr hobeys

end Target
end IoReplica

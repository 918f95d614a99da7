import IoReplica.Sync.Created
import IoReplica.Sync.Owned
import IoReplica.Sync.Servers

/-! Rows that stand by while an item is delivered: their syncs neither add a member of it nor remove
one. -/
namespace IoReplica

/-- A row of `c` whose syncs push no add of the link id, nor copy or remove a member holding it. -/
structure Bystander (servers : Servers) (link : ReplicaLinkId) (c : ReplicaCollectionId)
    (q : ReplicaPlacement) : Prop where
  linked : q.linkId = some link → q.base.isSome ∧ q.stagedEdit = none
  forks : ∀ o, q.stagedEdit = some o → ReplicaSync.keepBothLink o ≠ link
  copies : ∀ o, q.base = none → q.origin = some o → ¬ servers.Holds link o
  removes : q.status = .tombstone → ¬ servers.Holds link ⟨c, q.handle⟩

namespace Bystander
variable {servers servers' : Servers} {link : ReplicaLinkId} {c : ReplicaCollectionId}
  {opts : ReplicaSyncOptions} {q : ReplicaPlacement}

open ReplicaSync

/-- A member landing where the row neither stands nor copies from leaves a bystander one. -/
theorem extend (h : Bystander servers link c q) {fresh : ReplicaOrigin → Prop}
    (hm : ∀ o, servers'.Holds link o → servers.Holds link o ∨ fresh o)
    (hstands : ¬ fresh ⟨c, q.handle⟩)
    (hcopies : ∀ o, q.base = none → q.origin = some o → ¬ fresh o) :
    Bystander servers' link c q := by
  refine ⟨h.linked, h.forks, fun o hb ho hh => ?_, fun hs hh => ?_⟩
  · rcases hm o hh with hold | hnew
    · exact h.copies o hb ho hold
    · exact hcopies o hb ho hnew
  · rcases hm _ hh with hold | hnew
    · exact h.removes hs hold
    · exact hstands hnew

theorem based (hb : q.base.isSome) (he : q.stagedEdit = none) (hs : q.status ≠ .tombstone) :
    Bystander servers link c q := by
  refine ⟨fun _ => ⟨hb, he⟩, ?_, ?_, fun ht => absurd ht hs⟩
  · intro o ho
    rw [he] at ho
    cases ho
  · intro o hnone
    rw [hnone] at hb
    cases hb

/-- A reverted delete stands by. -/
theorem reverted (h : Bystander servers link c q) :
    Bystander servers link c { q with status := .clean } :=
  ⟨h.linked, h.forks, h.copies, fun ht => (by cases ht)⟩

/-- A row whose base holds its body has staged nothing. -/
theorem stagedEdit_pinned {p : ReplicaPlacement} {base : ReplicaBase} (hb : p.base = some base)
    (ho : base.object = p.object) : p.stagedEdit = none := by
  rw [Option.eq_none_iff_forall_ne_some]
  intro o hs
  obtain ⟨hobject, hbase⟩ := ReplicaPlacement.stagedEdit_eq_some.mp hs
  exact hbase base hb (ho.trans hobject)

/-- The row an accepted create leaves under its assigned handle stands by. -/
theorem rekeyed (p : ReplicaPlacement) (handle : ReplicaHandle) (revision : Option String) :
    Bystander servers link c (rekeyedPlacement p handle revision) :=
  based rfl (stagedEdit_pinned rfl rfl) (by simp [rekeyedPlacement])

/-- What a sync writes of bystanders stands by. -/
theorem inherits (servers : Servers) (link : ReplicaLinkId) (c : ReplicaCollectionId) :
    Inherits c (Bystander servers link c) where
  pulled item := based rfl rfl (by simp [pulledPlacement])
  refreshed p item hp := by
    refine ⟨fun hl => ⟨?_, rfl⟩, fun o ho => (by cases ho), fun o hb => ?_, hp.removes⟩
    · simpa [refreshedPlacement] using (hp.linked hl).1
    · exact hp.copies o (Option.map_eq_none_iff.mp hb)
  conflicted p item hp := ⟨hp.linked, hp.forks, hp.copies, fun ht => (by cases ht)⟩
  reopened p revision hp := ⟨hp.linked, hp.forks, hp.copies, hp.removes⟩
  forked p base o hp hb hl ho := by
    have hstaged : p.stagedEdit = some o := by rw [stagedEdit_of_localChanged hb hl, ho]
    refine ⟨fun hlink => ?_, ?_, fun o' _ hn => (by cases hn), fun ht => (by cases ht)⟩
    · exact absurd (Option.some.inj hlink) (hp.forks o hstaged)
    · intro o' ho'
      cases ho'
      exact hp.forks o hstaged
  flagged p flags hp := ⟨hp.linked, hp.forks, hp.copies, hp.removes⟩
  rebased p flags hp := by
    refine ⟨fun hl => ⟨rfl, ?_⟩, fun o ho => hp.forks o (stagedEdit_rebased ho),
      fun o hb => (by cases hb), fun ht => ?_⟩
    · rw [Option.eq_none_iff_forall_ne_some]
      intro o ho
      have hstaged := stagedEdit_rebased ho
      rw [(hp.linked hl).2] at hstaged
      cases hstaged
    · rcases settledStatus_cases p with hs | hs
      · exact absurd (hs.symm.trans ht) (by decide)
      · exact absurd (hs.symm.trans ht) (by decide)
  resurrected p hp he := by
    have hstaged : ∀ o, p.object = some o → p.stagedEdit = some o := fun o ho => by
      rw [stagedEdit_of_edited he, ho]
    refine ⟨fun hl => ?_, fun o ho => ?_, fun o _ hn => (by cases hn), fun ht => (by cases ht)⟩
    · have hnone := (hp.linked hl).2
      rw [stagedEdit_of_edited he] at hnone
      simp [editedAgainstDelete, hnone] at he
    · exact hp.forks o (hstaged o (ReplicaPlacement.stagedEdit_eq_some.mp ho).1)
  contentRebased p revision hp := by
    refine ⟨fun _ => ⟨rfl, stagedEdit_pinned rfl rfl⟩, fun o ho => ?_, fun o hb => (by cases hb),
      fun ht => hp.removes ?_⟩
    · rw [stagedEdit_pinned rfl rfl] at ho
      cases ho
    · by_contra hs
      simp only [contentRebased, if_neg hs] at ht
      split at ht
      · cases ht
      · cases ht
  rekeyed p handle revision _ _ := rekeyed p handle revision

theorem pushAdd_harmless (self : ReplicaSync) (h : ReplicaHandle) (p : ReplicaPlacement)
    (hnone : p.origin = none → p.linkId ≠ some link)
    (hsome : ∀ o, p.origin = some o → ¬ servers.Holds link o) {kind : ReplicaChangeKind}
    (hk : (self.pushAdd h p).2 = some kind) : servers.Harmless link c kind := by
  cases hk
  cases ho : p.origin with
  | none => exact hnone ho
  | some o => exact hsome o ho

theorem inPlace_harmless {kind : ReplicaChangeKind} (hk : kind.InPlace) :
    servers.Harmless link c kind := by
  cases kind with
  | setFlags | update => trivial
  | add | remove => cases hk

/-- What a sync pushes of a bystander leaves the item's members alone. -/
theorem harmless (hq : Bystander servers link c q) {remote : Option ReplicaRemoteItem}
    {kind : ReplicaChangeKind} (hk : (effect c opts ⟨q.handle, some q, remote⟩).2 = some kind) :
    servers.Harmless link c kind := by
  by_cases hs : q.status = .tombstone
  · rw [effect, merge_tombstone _ _ hs] at hk
    cases remote with
    | none => cases hk
    | some item =>
      dsimp only at hk
      split at hk
      · rcases (new c opts).mergeTombstone_change q.handle q item hk with hin | rfl
        · exact inPlace_harmless hin
        · exact hq.removes hs
      · cases hk
  · rw [effect, merge_live _ _ hs] at hk
    cases remote with
    | some item => exact inPlace_harmless ((new c opts).mergePresent_inPlace q item hk)
    | none =>
      dsimp only at hk
      split at hk
      · simp only [mergeVanished] at hk
        split at hk
        · rename_i hedited
          split at hk
          · cases hk
          · have hres := (inherits servers link c).resurrected q hq hedited
            refine pushAdd_harmless _ q.handle _ (fun _ hl => ?_) (fun o ho => (by cases ho)) hk
            exact absurd (hres.linked hl).1 (by simp [resurrectedPlacement])
        · cases hk
      · rename_i hbase
        have hnone : q.base = none := by simpa using hbase
        simp only [mergeCreate] at hk
        split at hk
        · refine pushAdd_harmless _ q.handle q (fun _ hl => ?_) (fun o => hq.copies o hnone) hk
          exact hbase (hq.linked hl).1
        · cases hk

end Bystander
end IoReplica

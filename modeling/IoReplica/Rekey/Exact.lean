import IoReplica.Rekey.Spine

/-! What a rebuild covers: the new members, the surviving edits and the pending creates, which share
one handle space. -/
namespace IoReplica

/-- The handles a batch upserts, in order. -/
def upsertedHandles (ops : List ReplicaWriteOp) : List ReplicaHandle :=
  ops.filterMap (fun op => match op with | .upsertPlacement p => some p.handle | _ => none)

/-- The handles a batch drops, in order. -/
def droppedHandles (ops : List ReplicaWriteOp) : List ReplicaHandle :=
  ops.filterMap (fun op => match op with | .dropPlacement _ h _ => some h | _ => none)

namespace ReplicaRekey

/-- A batch covers the new handle space exactly, over the rows `s` held before. -/
structure Exact (s : CollectionRows) (links : HandleMap Resolved) (items : List ReplicaRemoteItem)
    (ops : List ReplicaWriteOp) : Prop where
  once : (upsertedHandles ops).Nodup
  apart : ∀ h ∈ upsertedHandles ops, h ∉ droppedHandles ops
  members : ∀ item ∈ items, ∃ row, (s.apply ops).rows[item.handle]? = some row ∧
    Holds links item row
  edits : ∀ p ∈ s.spine, p.stagedEdit.isSome → ¬ Resolves links items (holder s.spine) p →
    p.handle ∉ items.map (·.handle) ∧ ∃ row, (s.apply ops).rows[p.handle]? = some row ∧
      row.status = .created ∧ row.object = p.object
  creates : ∀ p : ReplicaPlacement, s.rows[p.handle]? = some p → p.status = .created →
    (s.apply ops).rows[p.handle]? = some p

/-- Nothing but a new member wants a new member's handle, and every staged edit is one the match
looks at. -/
structure Separate (s : CollectionRows) (links : HandleMap Resolved)
    (items : List ReplicaRemoteItem) : Prop where
  listed : (items.map (·.handle)).Nodup
  edits : ∀ p ∈ s.spine, p.stagedEdit.isSome → ¬ Resolves links items (holder s.spine) p →
    p.handle ∉ items.map (·.handle) ∧ (p.status = .dirty ∨ p.status = .conflict)
  creates : ∀ p : ReplicaPlacement, s.rows[p.handle]? = some p → p.status = .created →
    p.handle ∉ items.map (·.handle)

theorem edited_iff (p : ReplicaPlacement) :
    edited p = true ↔ (p.status = .dirty ∨ p.status = .conflict) ∧ p.stagedEdit.isSome := by
  rw [edited, Bool.and_assoc, Bool.and_eq_true, Bool.or_eq_true, decide_eq_true_eq,
    decide_eq_true_eq]
  refine and_congr_right fun _ => ?_
  cases ho : p.object with
  | none => simp [ReplicaPlacement.stagedEdit, ho]
  | some o => cases hb : p.base <;> simp [ReplicaPlacement.stagedEdit, ho, hb]

theorem droppedHandles_eq (collection : ReplicaCollectionId) (checkpoint : ReplicaCheckpoint)
    (rows survivors drops : List ReplicaPlacement) :
    droppedHandles (batchOps collection checkpoint rows survivors drops) =
      drops.map (·.handle) := by
  simp [batchOps, droppedHandles, List.filterMap_map, Function.comp_def]

namespace Batch

variable {s : CollectionRows} {links : HandleMap Resolved} {items : List ReplicaRemoteItem}
  {rows survivors drops : List ReplicaPlacement}

theorem rows_handles (h : Batch s links items rows survivors drops) :
    rows.map (·.handle) = items.map (·.handle) := by
  have hall := h.members
  clear h
  induction hall with
  | nil => rfl
  | cons hab _ ih => rw [List.map_cons, List.map_cons, hab.handle, ih]

theorem upsertedHandles_eq (h : Batch s links items rows survivors drops)
    (collection : ReplicaCollectionId) (checkpoint : ReplicaCheckpoint) :
    upsertedHandles (batchOps collection checkpoint rows survivors drops) =
      items.map (·.handle) ++ survivors.map (·.handle) := by
  rw [← h.rows_handles]
  simp [batchOps, upsertedHandles, List.filterMap_map, Function.comp_def, resurrected]

/-- A row stored under its own handle is the only one there. -/
theorem eq_of_survives {p q : ReplicaPlacement} (hp : s.rows[p.handle]? = some p)
    (hq : Survives s links items q) (hh : q.handle = p.handle) : q = p := by
  have hstored := ((s.mem_spine q).mp hq.old).1
  rw [hh, hp] at hstored
  exact (Option.some.inj hstored).symm

end Batch

/-- A rekey covers the new handle space exactly when no handle is listed twice, and no unmatched
edit and no pending create stands under a listed one. -/
theorem rebuild_exact_iff {collection : ReplicaCollectionId} {loaded : ReplicaLoaded}
    {snapshot : ReplicaRemoteSnapshot} {t : Transcript} {s : CollectionRows}
    (h : Rekeys collection loaded snapshot t) (hl : loaded.placements = s.placements) :
    Exact s (resolveLinks t.fetched) snapshot.items t.writes ↔
      Separate s (resolveLinks t.fetched) snapshot.items := by
  generalize hlinks : resolveLinks t.fetched = links
  obtain ⟨rows, survivors, drops, hb, hwrites⟩ := rebuild_batch collection snapshot links hl
  have hcases := hb.row_cases collection snapshot.checkpoint
  have hupserted := hb.upsertedHandles_eq collection snapshot.checkpoint
  have hdropped := droppedHandles_eq collection snapshot.checkpoint rows survivors drops
  rw [h.writes, hlinks, hwrites]
  have hspine : ∀ p ∈ s.spine, s.rows[p.handle]? = some p ∧ p.status ≠ .created :=
    fun p hp => (s.mem_spine p).mp hp
  constructor
  · intro hx
    have honce := hx.once
    rw [hupserted] at honce
    refine ⟨(List.nodup_append.mp honce).1, ?_, ?_⟩
    · intro p hp hstaged hun
      obtain ⟨hfree, row, hrow, hcreated, -⟩ := hx.edits p hp hstaged hun
      refine ⟨hfree, ?_⟩
      rcases hcases p.handle with ⟨q, hq, hh, -⟩ | ⟨-, ⟨item, hi, hh, -⟩ | ⟨-, hnone⟩⟩
      · rw [← Batch.eq_of_survives (hspine p hp).1 hq hh]
        exact ((edited_iff q).mp hq.edited).1
      · exact absurd (List.mem_map.mpr ⟨item, hi, hh⟩) hfree
      · rw [hrow, (hspine p hp).1, Option.filter_some, if_neg (by simpa using (hspine p hp).2)]
          at hnone
        cases hnone
    · intro p hp hcreated hlisted
      have hkept := hx.creates p hp hcreated
      rcases hcases p.handle with ⟨q, hq, hh, -⟩ | ⟨-, ⟨item, -, -, r, hr, hholds⟩ | ⟨hnone, -⟩⟩
      · exact (hspine q hq.old).2 (Batch.eq_of_survives hp hq hh ▸ hcreated)
      · rw [hkept] at hr
        exact hholds.live (Option.some.inj hr ▸ hcreated)
      · obtain ⟨item, hi, hh⟩ := List.mem_map.mp hlisted
        exact hnone item hi hh
  · intro hsep
    have hfree : ∀ p, Survives s links snapshot.items p → p.handle ∉ snapshot.items.map (·.handle) :=
      fun p hp => (hsep.edits p hp.old ((edited_iff p).mp hp.edited).2 hp.unmatched).1
    refine ⟨?_, ?_, ?_, ?_, ?_⟩
    · rw [hupserted]
      refine List.nodup_append.mpr ⟨hsep.listed, ?_, ?_⟩
      · exact List.pairwise_map.mpr hb.distinct
      · intro a ha b hbm heq
        obtain ⟨p, hp, rfl⟩ := List.mem_map.mp hbm
        exact hfree p ((hb.edits p).mp hp) (heq ▸ ha)
    · intro g hg hd
      rw [hupserted, List.mem_append] at hg
      rw [hdropped] at hd
      obtain ⟨q, hq, rfl⟩ := List.mem_map.mp hd
      obtain ⟨-, hitems, hedits⟩ := (hb.dropped q).mp hq
      rcases hg with hg | hg
      · obtain ⟨item, hi, hh⟩ := List.mem_map.mp hg
        exact hitems item hi hh
      · obtain ⟨p, hp, hh⟩ := List.mem_map.mp hg
        exact hedits p ((hb.edits p).mp hp) hh
    · intro item hi
      rcases hcases item.handle with ⟨p, hp, hh, -⟩ | ⟨-, ⟨item', hi', hh, r, hr, hholds⟩ | ⟨hnone, -⟩⟩
      · exact absurd (List.mem_map.mpr ⟨item, hi, hh.symm⟩) (hfree p hp)
      · rw [List.inj_on_of_nodup_map hsep.listed hi' hi hh] at hholds
        exact ⟨r, hr, hholds⟩
      · exact absurd rfl (hnone item hi)
    · intro p hp hstaged hun
      obtain ⟨hpfree, hstatus⟩ := hsep.edits p hp hstaged hun
      have hsurvives : Survives s links snapshot.items p :=
        ⟨hp, (edited_iff p).mpr ⟨hstatus, hstaged⟩, hun⟩
      refine ⟨hpfree, ?_⟩
      rcases hcases p.handle with ⟨q, hq, hh, hrow⟩ | ⟨hspared, -⟩
      · rw [Batch.eq_of_survives (hspine p hp).1 hq hh] at hrow
        exact ⟨_, hrow, rfl, rfl⟩
      · exact absurd rfl (hspared p hsurvives)
    · intro p hp hcreated
      rcases hcases p.handle with ⟨q, hq, hh, -⟩ | ⟨-, ⟨item, hi, hh, -⟩ | ⟨-, hrow⟩⟩
      · exact absurd (Batch.eq_of_survives hp hq hh ▸ hcreated) (hspine q hq.old).2
      · exact absurd (List.mem_map.mpr ⟨item, hi, hh⟩) (hsep.creates p hp hcreated)
      · rw [hrow, hp, Option.filter_some, if_pos (by simpa using hcreated)]

section Runs

/-- A card edited offline, its base still the old body. -/
def editedCard : ReplicaPlacement where
  collection := ⟨"contacts"⟩
  handle := ⟨"1"⟩
  linkId := some ⟨"ada"⟩
  object := some ⟨"new"⟩
  level := .full
  metadata := none
  sortKey := .unknown
  flags := .empty
  status := .dirty
  conflictRevision := none
  conflictObject := none
  base := some ⟨.empty, none, some ⟨"old"⟩⟩
  origin := none

def editedRows : CollectionRows := CollectionRows.empty.write (.upsertPlacement editedCard)

/-- One new member, enumerated under `handle`. -/
def renumbered (handle : ReplicaHandle) : ReplicaRemoteSnapshot :=
  ⟨[⟨handle, .empty, none⟩], [], true, ⟨[]⟩⟩

/-- The new member is another card. -/
def another (handle : ReplicaHandle) : List ReplicaFetchedItem :=
  [⟨handle, ⟨"bob"⟩, ⟨""⟩, .unknown, none, none⟩]

theorem rekeys_edited (handle : ReplicaHandle) :
    ∃ t, Rekeys ⟨"contacts"⟩ ⟨editedRows.placements, none⟩ (renumbered handle) t ∧
      t.fetched = another handle := by
  obtain ⟨t, ht, hf⟩ := rekeys_total ⟨"contacts"⟩ ⟨editedRows.placements, none⟩
    (renumbered handle) (another handle)
  exact ⟨t, ht, hf.trans (if_pos (by decide))⟩

/-- A new space reusing the handle of an unmatched edit: one handle is written twice. -/
theorem reused_handle_written_twice : ∃ t,
    Rekeys ⟨"contacts"⟩ ⟨editedRows.placements, none⟩ (renumbered ⟨"1"⟩) t ∧
      ¬ Exact editedRows (resolveLinks t.fetched) (renumbered ⟨"1"⟩).items t.writes := by
  obtain ⟨t, ht, hf⟩ := rekeys_edited ⟨"1"⟩
  refine ⟨t, ht, ?_⟩
  intro hx
  have honce := hx.once
  rw [ht.writes, hf] at honce
  revert honce
  decide

/-- A new space apart from the old one is covered exactly. -/
theorem fresh_handles_exact : ∃ t,
    Rekeys ⟨"contacts"⟩ ⟨editedRows.placements, none⟩ (renumbered ⟨"101"⟩) t ∧
      Exact editedRows (resolveLinks t.fetched) (renumbered ⟨"101"⟩).items t.writes := by
  obtain ⟨t, ht, hf⟩ := rekeys_edited ⟨"101"⟩
  have hrow : ∀ p ∈ editedRows.placements, p = editedCard := by decide
  refine ⟨t, ht, (rebuild_exact_iff ht rfl).mpr ⟨by decide, ?_, ?_⟩⟩
  · intro p hp _ _
    rw [hrow p (List.mem_of_mem_filter hp)]
    decide
  · intro p hp _
    rw [hrow p ((editedRows.mem_placements p).mpr hp)]
    decide

end Runs
end ReplicaRekey
end IoReplica

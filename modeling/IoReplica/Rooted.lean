import IoReplica.Rekey.Spine
import IoReplica.Session
import IoReplica.Sync.Based

/-! No status without its base: a row at rest or in conflict was once agreed with the remote, a
pending create never was. A merge may break this for a moment, never a batch. -/
namespace IoReplica

/-- The status of the row fits the base it has. -/
structure Rooted (p : ReplicaPlacement) : Prop where
  agreed : p.status = .clean ∨ p.status = .conflict → p.base.isSome
  created : p.status = .created → p.base = none

theorem Rooted.of_base {p : ReplicaPlacement} (hb : p.base.isSome) (hs : p.status ≠ .created) :
    Rooted p := ⟨fun _ => hb, fun hc => absurd hc hs⟩

theorem Rooted.of_created {p : ReplicaPlacement} (hs : p.status = .created) (hb : p.base = none) :
    Rooted p := by
  refine ⟨fun h => ?_, fun _ => hb⟩
  rw [hs] at h
  rcases h with h | h <;> cases h

theorem Rooted.of_dirty {p : ReplicaPlacement} (hs : p.status = .dirty) : Rooted p := by
  refine ⟨fun h => ?_, fun h => ?_⟩
  · rw [hs] at h
    rcases h with h | h <;> cases h
  · rw [hs] at h
    cases h

/-- A row with a base is no pending create. -/
theorem Rooted.ne_created {p : ReplicaPlacement} (hp : Rooted p) (hb : p.base.isSome) :
    p.status ≠ .created := by
  intro hs
  rw [hp.created hs] at hb
  cases hb

/-- Every row stored without the property is written over before the writes end. -/
def Mends (P : ReplicaPlacement → Prop) (ops : List ReplicaWriteOp) : Prop :=
  ∀ pre q post, ops = pre ++ .upsertPlacement q :: post →
    P q ∨ ∃ op ∈ post, op.row = some q.handle

namespace Mends

variable {P : ReplicaPlacement → Prop} {a b : List ReplicaWriteOp}

/-- Writes of rows with the property alone. -/
theorem of_rows (h : ∀ q, .upsertPlacement q ∈ a → P q) : Mends P a :=
  fun pre q post hsplit => Or.inl (h q (by simp [hsplit]))

/-- A row written over by one of the same handle with the property. -/
theorem overwritten {q r : ReplicaPlacement} (hr : P r) (hown : r.handle = q.handle) :
    Mends P [.upsertPlacement q, .upsertPlacement r] := by
  intro pre x post hsplit
  rcases List.cons_eq_append_iff.mp hsplit with ⟨rfl, hcons⟩ | ⟨pre', rfl, hlast⟩
  · obtain ⟨heq, rfl⟩ := List.cons.inj hcons
    cases heq
    exact Or.inr ⟨_, List.mem_cons_self, congrArg some hown⟩
  · have hx : .upsertPlacement x ∈ [ReplicaWriteOp.upsertPlacement r] := by rw [hlast]; simp
    cases List.mem_singleton.mp hx
    exact Or.inl hr

theorem append (ha : Mends P a) (hb : Mends P b) : Mends P (a ++ b) := by
  intro pre q post hsplit
  rcases List.append_eq_append_iff.mp hsplit with ⟨mid, rfl, hb'⟩ | ⟨mid, rfl, hmid⟩
  · exact hb mid q post hb'
  · cases mid with
    | nil => exact hb [] q post hmid.symm
    | cons op mid =>
      obtain ⟨rfl, rfl⟩ := List.cons.inj hmid
      rcases ha pre q mid rfl with hq | ⟨op, hop, hrow⟩
      · exact Or.inl hq
      · exact Or.inr ⟨op, List.mem_append_left _ hop, hrow⟩

theorem flatMap {α : Type} {f : α → List ReplicaWriteOp} {l : List α}
    (h : ∀ x ∈ l, Mends P (f x)) : Mends P (l.flatMap f) := by
  induction l with
  | nil => exact of_rows (fun q hq => by cases hq)
  | cons x l ih =>
    rw [List.flatMap_cons]
    exact (h x List.mem_cons_self).append (ih (fun y hy => h y (List.mem_cons_of_mem _ hy)))

/-- The row such writes leave was there before them, or has the property. -/
theorem rowAfter (h : Mends P a) {g : ReplicaHandle} {init : Option ReplicaPlacement}
    {q : ReplicaPlacement} (hq : IoReplica.rowAfter g init a = some q) : init = some q ∨ P q := by
  rcases rowAfter_cases g init a with ⟨-, hrow⟩ | ⟨pre, op, post, hsplit, hop, hpost, hrow⟩
  · exact Or.inl (hrow.symm.trans hq)
  · rw [hrow] at hq
    cases op with
    | upsertPlacement p =>
      cases hq
      rcases h pre q post hsplit with hp | ⟨op, hmem, hown⟩
      · exact Or.inr hp
      · exact absurd (hown.trans hop) (hpost op hmem)
    | dropPlacement | storeObject | setCheckpoint => cases hq

end Mends

namespace ReplicaSync

variable {p : ReplicaPlacement} {item : ReplicaRemoteItem} {collection : ReplicaCollectionId}
  {opts : ReplicaSyncOptions}

theorem rooted_settledRow (q : ReplicaPlacement) (flags : ReplicaFlags) :
    Rooted (settledRow q flags) := by
  refine .of_base rfl ?_
  simp only [settledRow, settledStatus]
  split
  · decide
  · rename_i hs
    rw [not_not.mp hs]
    decide

theorem ContentRow.rooted {q : ReplicaPlacement} (hq : ContentRow p item q) (hp : Rooted p)
    (hb : q.base.isSome) : Rooted q := by
  have hbase : p.base.isSome := hq.in_place.2 ▸ hb
  cases hq with
  | untouched => exact hp
  | conflicted => exact .of_base hb (by simp [conflictedPlacement])
  | reopened conflict => exact .of_base hb (by simp [conflict])
  | refreshed => exact .of_base hb (hp.ne_created hbase)

/-- What a merge stores of a row with a base, or with one. -/
theorem MergedRow.rooted {q : ReplicaPlacement} (hq : MergedRow collection p item q) (hp : Rooted p)
    (hb : p.base.isSome) : Rooted q := by
  cases hq with
  | content handed => exact handed.rooted hp (handed.in_place.2 ▸ hb)
  | forked object => exact .of_created rfl rfl
  | flagged handed based flags =>
    have hq := handed.rooted hp based
    exact ⟨hq.agreed, hq.created⟩
  | settled handed flags => exact rooted_settledRow _ flags
  | reverted => exact .of_base hb (by simp)
  | pulled => exact .of_base rfl (by simp [pulledPlacement])

/-- A body on both sides of a row with no base is a conflict with none, until the flags join them. -/
theorem effect_mends (opts : ReplicaSyncOptions) {c : Candidate}
    (hloc : ∀ p, c.loc = some p → Rooted p) :
    Mends Rooted (effect collection opts c).1.writes := by
  obtain ⟨h, loc, remote⟩ := c
  have hadded : ∀ item, Mends Rooted ((new collection opts).mergeAdded h item).1.writes := by
    intro item
    refine .of_rows (fun q hq => ?_)
    cases List.mem_singleton.mp hq
    exact .of_base rfl (by simp [pulledPlacement])
  cases loc with
  | none =>
    cases remote with
    | none => exact .of_rows (fun q hq => by cases hq)
    | some item => exact hadded item
  | some p =>
    have hp := hloc p rfl
    cases remote with
    | none =>
      refine .of_rows (fun q hq => ?_)
      by_cases hs : p.status = .tombstone
      · simp only [effect, merge_tombstone _ _ hs] at hq
        cases List.mem_singleton.mp hq
      · simp only [effect, merge_live _ _ hs] at hq
        split at hq
        · simp only [mergeVanished] at hq
          split at hq
          · have hmem : .upsertPlacement q ∈
                ((new collection opts).upsert (resurrectedPlacement p)).writes := by
              split at hq <;> exact hq
            cases List.mem_singleton.mp hmem
            exact .of_created rfl rfl
          · cases List.mem_singleton.mp hq
        · simp only [mergeCreate] at hq
          split at hq <;> cases hq
    | some item =>
      by_cases hb : p.base.isSome
      · refine .of_rows (fun q hq => ?_)
        obtain ⟨r, heq, hrow⟩ := merge_rows collection opts h p item _ hq
        cases heq
        exact hrow.rooted hp hb
      · rw [Option.not_isSome_iff_eq_none] at hb
        by_cases hs : p.status = .tombstone
        · simp only [effect, merge_tombstone _ _ hs, hb, Option.isSome_none, Bool.false_eq_true,
            if_false]
          exact hadded item
        · obtain ⟨q, flags, hq, hwrites⟩ := mergePresent_joins (new collection opts) hb item
          have hown : (settledRow q flags).handle = p.handle := hq.in_place.1
          simp only [effect, merge_live _ _ hs, hwrites]
          have hjoined := rooted_settledRow q flags
          have hnil : (new collection opts).writes = [] := rfl
          rw [hnil, List.nil_append]
          split
          · exact .overwritten hjoined hown
          · refine .of_rows (fun r hr => ?_)
            cases List.mem_singleton.mp hr
            exact hjoined

end ReplicaSync

/-- What recording a result stores has a base, and is no pending create. -/
theorem Pending.record_rooted {collection : ReplicaCollectionId} {pending : Pending}
    {r : ReplicaPushResult} {q : ReplicaPlacement}
    (hq : .upsertPlacement q ∈ pending.record collection r) : Rooted q := by
  simp only [Pending.record, List.mem_append, Option.mem_toList, Option.map_eq_some_iff] at hq
  rcases hq with ((⟨p, -, heq⟩ | ⟨p, -, heq⟩) | hq) | hq
  · cases heq
    exact ReplicaSync.rooted_settledRow p p.flags
  · cases heq
    refine .of_base rfl ?_
    simp only [ReplicaSync.contentRebased]
    split
    · decide
    · split <;> decide
  · split at hq
    · cases List.mem_singleton.mp hq
    · cases hq
  · cases hc : pending.created with
    | none => simp [hc] at hq
    | some p =>
      simp only [hc, Option.map_some, Option.getD_some, Pending.recordCreate, List.mem_cons,
        reduceCtorEq, false_or, Option.mem_toList, Option.map_eq_some_iff] at hq
      obtain ⟨a, -, heq⟩ := hq
      cases heq
      exact .of_base rfl (by simp [ReplicaSync.rekeyedPlacement])

namespace ReplicaSync

/-- Every batch of the push phase mends what was queued before it. -/
theorem Drains.mends {report : ReplicaSyncReport} {a : ReplicaSync} {u : Transcript}
    (h : Drains report a u) (ha : Mends Rooted a.writes) :
    ∀ ops ∈ u.batches, Mends Rooted ops := by
  have hclosing : ∀ b : ReplicaSync, Mends Rooted b.closing := by
    intro b
    refine .of_rows (fun q hq => ?_)
    obtain ⟨k, -, hk⟩ := Option.map_eq_some_iff.mp (Option.mem_toList.mp hq)
    cases hk
  have hrecorded : ∀ (b : ReplicaSync) (results : List ReplicaPushResult),
      Mends Rooted b.writes → Mends Rooted (b.recorded results).writes := by
    intro b results hb
    obtain ⟨-, -, -, hwrites, -⟩ := b.recorded_spec results
    rw [hwrites]
    refine hb.append (.of_rows (fun q hq => ?_))
    obtain ⟨r, -, -, hrec⟩ := (Outbox.settleAll_mem b.collection b.pendingAt results).2 _ hq
    exact Pending.record_rooted hrec
  induction h with
  | @idle a =>
    intro ops hops
    rw [List.mem_singleton.mp hops]
    exact ha.append (hclosing a)
  | @last a results =>
    intro ops hops
    rw [List.mem_singleton.mp hops]
    exact (hrecorded a results ha).append (hclosing a)
  | @chunk a u results more rest ih =>
    intro ops hops
    rcases List.mem_cons.mp hops with rfl | hops
    · exact hrecorded a results ha
    · exact ih (.of_rows (fun q hq => by cases hq)) ops hops

end ReplicaSync

open ReplicaSync in
/-- Every batch of a run over rooted rows mends itself. -/
theorem Syncs.mends {collection : ReplicaCollectionId} {opts : ReplicaSyncOptions}
    {loaded : ReplicaLoaded} {snapshot : ReplicaRemoteSnapshot} {t : Transcript}
    (h : Syncs collection opts loaded snapshot t)
    (hrows : ∀ (g : ReplicaHandle) (p : ReplicaPlacement),
      (collectPlacements loaded.placements)[g]? = some p → Rooted p) :
    ∀ ops ∈ t.batches, Mends Rooted ops := by
  obtain ⟨rest, report, rfl, hruns⟩ := h
  obtain ⟨groups, last, out, u, hcut, -, ht, hm, hu⟩ := runs_merged hruns
  have hderived : ∀ cs : List Candidate, (∀ c ∈ cs, c ∈ mergedCandidates loaded snapshot) →
      Mends Rooted (ReplicaSync.derived collection opts cs) := by
    intro cs hcs
    refine .flatMap (fun c hc => effect_mends opts (fun p hp => ?_))
    have hloc := (Merge.candidateAt_spec ((mem_mergedCandidates c).mp (hcs c hc))).2
    exact hrows c.handle p (hloc.symm.trans hp)
  have hlast : Mends Rooted out.writes := by
    rw [hm.writes]
    exact hderived last (fun c hc => hcut ▸ List.mem_append_right _ hc)
  intro ops hops
  have hbatches :
      ops ∈ Transcript.batches
        (groups.map (fun g => written (ReplicaSync.derived collection opts g))) ∨
      ops ∈ Transcript.batches u := by
    rw [ht] at hops
    rw [← List.mem_append, Transcript.batches, Transcript.batches, ← List.filterMap_append]
    exact hops
  rcases hbatches with hops | hops
  · obtain ⟨e, he, heq⟩ := List.mem_filterMap.mp hops
    obtain ⟨g, hg, rfl⟩ := List.mem_map.mp he
    cases heq
    exact hderived g (fun c hc => hcut ▸ List.mem_append_left _ (List.mem_flatten_of_mem hg hc))
  · exact hu.mends hlast ops hops

open ReplicaMutate in
theorem Rooted.edited {p : ReplicaPlacement} (hp : Rooted p) (hash : ReplicaHash)
    (metadata : Option ReplicaMeta) (sortKey : Option ReplicaSortKey) :
    Rooted (edited p hash metadata sortKey) := by
  by_cases hs : p.status = .conflict
  · simp only [ReplicaMutate.edited, hs, decide_true, if_true]
    split
    · exact .of_dirty rfl
    · exact .of_base rfl (by simp [resolved])
  · simp only [ReplicaMutate.edited, hs, decide_false, Bool.false_eq_true, if_false]
    split
    · exact .of_dirty rfl
    · exact ⟨hp.agreed, hp.created⟩

/-- An edit leaves a rooted row as based as it was: a conflict it resolves had a base. -/
theorem Rooted.edited_standing {p : ReplicaPlacement} (hp : Rooted p) (hash : ReplicaHash)
    (metadata : Option ReplicaMeta) (sortKey : Option ReplicaSortKey) :
    (ReplicaMutate.edited p hash metadata sortKey).collection = p.collection ∧
      (ReplicaMutate.edited p hash metadata sortKey).handle = p.handle ∧
      (ReplicaMutate.edited p hash metadata sortKey).base.isSome = p.base.isSome := by
  by_cases hs : p.status = .conflict
  · have hb := hp.agreed (Or.inr hs)
    simp only [ReplicaMutate.edited, hs, decide_true, if_true]
    split <;> exact ⟨rfl, rfl, hb.symm⟩
  · simp only [ReplicaMutate.edited, hs, decide_false, Bool.false_eq_true, if_false]
    split <;> exact ⟨rfl, rfl, rfl⟩

/-- A row whose status stays, and whose base comes or goes with it. -/
theorem Rooted.of_eq {p q : ReplicaPlacement} (hp : Rooted p) (hs : q.status = p.status)
    (hb : q.base.isSome = p.base.isSome) : Rooted q := by
  refine ⟨fun h => hb ▸ hp.agreed (hs ▸ h), fun h => ?_⟩
  rw [hp.created (hs ▸ h), Option.isSome_none, Option.isSome_eq_false_iff,
    Option.isNone_iff_eq_none] at hb
  exact hb

open ReplicaUpgrade in
/-- A fetch leaves a row as based as it was. -/
theorem ReplicaUpgrade.WrittenFrom.standing {tier : ReplicaTier} {item : ReplicaFetchedItem}
    {p q : ReplicaPlacement} (hq : WrittenFrom tier p item q) :
    q.status = p.status ∧ q.base.isSome = p.base.isSome := by
  cases hq with
  | conflicted => exact ⟨rfl, rfl⟩
  | answered plain claimed =>
    simp only [answer]
    rw [identify_eq]
    split
    · exact ⟨rfl, Option.isSome_map⟩
    · exact ⟨rfl, rfl⟩

theorem rooted_kept : Kept (fun _ => Rooted) where
  grows _ hp := hp
  synced := by
    intro s c opts snapshot t first rest hsync hbatches hs d g q hq
    have hown : ∀ op ∈ first.flatten, op.collection = some c := by
      intro op hop
      refine hsync.within rfl (s.rows.placed c) op ?_
      rw [← t.flatten_batches, hbatches, List.flatten_append]
      exact List.mem_append_left _ hop
    rw [Stored.row, Stored.apply_rows, s.rows.apply_rows hown] at hq
    by_cases hd : d = c
    · subst hd
      rw [Function.update_self, CollectionRows.get_apply] at hq
      have hbatch := hsync.mends (fun g p hp => by
        rw [CollectionRows.collect_placements] at hp
        exact hs d g p hp)
      have hfirst : Mends Rooted first.flatten := by
        rw [← List.flatMap_id]
        refine Mends.flatMap (fun ops hops => hbatch ops ?_)
        rw [hbatches]
        exact List.mem_append_left _ hops
      rcases hfirst.rowAfter hq with hstood | hrooted
      · exact hs d g q hstood
      · exact hrooted
    · rw [Function.update_of_ne hd] at hq
      exact hs d g q hq
  created c handle linkId flags metadata sortKey _ := .of_created rfl rfl
  flagged {_ p} flags hp := by
    refine ⟨fun h => ?_, fun h => ?_⟩
    · simp only [ReplicaMutate.flagged] at h
      split at h
      · rcases h with h | h <;> cases h
      · exact hp.agreed h
    · simp only [ReplicaMutate.flagged] at h
      split at h
      · cases h
      · exact hp.created h
  removed _ := by
    refine ⟨fun h => ?_, fun h => by cases h⟩
    rcases h with h | h <;> cases h
  moved _ _ := by
    refine ⟨fun h => ?_, fun h => by cases h⟩
    rcases h with h | h <;> cases h
  edited metadata sortKey hp _ := hp.edited _ metadata sortKey
  copied target placeholder _ := .of_created rfl rfl
  linked hp _ _ := hp.of_eq rfl Option.isSome_map
  fetched hp hq _ := hp.of_eq hq.standing.1 hq.standing.2
  carried self item resolved _ := .of_base rfl (ReplicaRekey.Spine.carriedStatus_ne_created _ _ _)
  fresh self item resolved := .of_base rfl (by simp [ReplicaRekey.fresh])
  unmatched _ := .of_created rfl rfl

/-- In every session from rooted rows the rows stay rooted, so a conflict always has a base: the
edit it holds survives its remote's delete, as a pending create of the body. -/
theorem session_rooted {S R : Type} [ReplicaStorage S] [ReplicaRemote R] [LawfulStorage S]
    {client client' : ReplicaClient S R} (h : Session client client')
    (hs : client.stored.All (fun _ => Rooted)) :
    client'.stored.All (fun _ => Rooted) ∧
      ∀ c opts snapshot t, Syncs c opts
          ⟨(client'.stored.rows.rows c).placements, client'.stored.checkpoints c⟩ snapshot t →
        ∀ g p, client'.stored.row c g = some p → p.status = .conflict → p.Edited →
          snapshot.Gone g → EditSurvives c opts (client'.stored.rows.rows c) p t := by
  have hrooted := Session.kept rooted_kept h hs
  refine ⟨hrooted, fun c opts snapshot t hsync g p hp hconflict hedited hgone => ?_⟩
  obtain ⟨box, hwhole⟩ := hsync.whole
  have hh : p.handle = g := (client'.stored.rows.rows c).keyed g p hp
  subst hh
  have hrows : CollectionRows.ofLoad (client'.stored.rows.rows c).placements =
      client'.stored.rows.rows c := by
    have hcollect := (client'.stored.rows.rows c).collect_placements
    cases hr : client'.stored.rows.rows c
    simp only [CollectionRows.ofLoad, ← hr, hcollect]
  have hsurvives := hwhole.edit_survives (p := p) (by rw [hrows]; exact hp) hedited hgone
    ((hrooted c p.handle p hp).agreed (Or.inr hconflict))
  rw [hrows] at hsurvives
  exact hsurvives

section Witness

/-- A message added to an empty replica and flagged, its network unplugged: a pending create with no
base. -/
theorem session_rooted_flagged : ∃ client' : ReplicaClient MemStorage BrokenRemote,
    Session ⟨MemStorage.default, ⟨⟩⟩ client' ∧ client'.stored.All (fun _ => Rooted) ∧
      ∃ p, client'.stored.row ⟨"inbox"⟩ ⟨"a"⟩ = some p ∧ p.status = .created ∧ p.base = none := by
  have hrun : (((ReplicaCall.mutate ⟨"inbox"⟩ (.add ⟨"a"⟩ ⟨"m"⟩ .empty ⟨⟨"h"⟩, 1⟩ [1] none .unknown)).run
      3 (⟨MemStorage.default, ⟨⟩⟩ : ReplicaClient MemStorage BrokenRemote)).bind (fun added =>
        (ReplicaCall.mutate ⟨"inbox"⟩ (.setFlags ⟨"a"⟩ (.known {"seen"}))).run 3
          ({ added.1 with remote := ⟨⟩ } : ReplicaClient MemStorage BrokenRemote))).map
        (fun out => out.1.storage.placements.entries[(toLex (⟨"inbox"⟩, ⟨"a"⟩) : RowKey)]?.map
          (·.status)) = some (some .created) := by
    decide +kernel
  obtain ⟨⟨client', ok'⟩, hcalls, hrow⟩ := Option.map_eq_some_iff.mp hrun
  obtain ⟨⟨added, ok⟩, hadd, hflag⟩ := Option.bind_eq_some_iff.mp hcalls
  have hsession : Session ⟨MemStorage.default, ⟨⟩⟩ client' :=
    (Relation.ReflTransGen.single ⟨⟨⟩, _, 3, ok, hadd⟩).tail ⟨⟨⟩, _, 3, ok', hflag⟩
  have hempty : MemStorage.default.stored.All (fun _ => Rooted) := by
    intro c g p hp
    rw [MemStorage.stored_row] at hp
    simp [MemStorage.default, PlacementMap.empty] at hp
  have hrooted := (session_rooted hsession hempty).1
  refine ⟨client', hsession, hrooted, ?_⟩
  obtain ⟨p, hp, hstatus⟩ := Option.map_eq_some_iff.mp hrow
  have hstored := (client'.storage.stored_row _ _).trans hp
  exact ⟨p, hstored, hstatus, (hrooted _ _ p hstored).created hstatus⟩

end Witness
end IoReplica

import IoReplica.Sync.StagedEdit

/-! What an accepted content push leaves of the flags merged in the same run. -/
namespace IoReplica
namespace ReplicaSync

/-- The content axis derives at most an Update, and then from the row it stashed. -/
theorem reconcileContent_push (d : ReplicaSync) {p : ReplicaPlacement} {item : ReplicaRemoteItem}
    {change : ReplicaChangeKind} (h : (d.reconcileContent p item).2 = .push change) :
    (d.reconcileContent p item).1 = d.stashContent p.handle p ∧ p.base.isSome ∧
      ∃ o ifMatch, p.object = some o ∧ change = .update p.handle o ifMatch := by
  have hpush : ∀ ifMatch, (d.pushContent p ifMatch).2 = .push change →
      (d.pushContent p ifMatch).1 = d.stashContent p.handle p ∧
        ∃ o ifMatch, p.object = some o ∧ change = .update p.handle o ifMatch := by
    intro ifMatch hp
    cases ho : p.object with
    | none => simp [pushContent, ho] at hp
    | some o =>
      simp only [pushContent, ho, ContentOutcome.push.injEq] at hp ⊢
      exact ⟨trivial, o, ifMatch, rfl, hp.symm⟩
  cases hb : p.base with
  | none =>
    simp only [reconcileContent, hb] at h
    split at h
    · simp [markConflict] at h
    · cases h
  | some base =>
    suffices hs : (d.reconcileContent p item).1 = d.stashContent p.handle p ∧
        ∃ o ifMatch, p.object = some o ∧ change = .update p.handle o ifMatch from ⟨hs.1, rfl, hs.2⟩
    simp only [reconcileContent, hb] at h ⊢
    split at h
    · split at h <;> cases h
    · rename_i hc
      rw [if_neg hc]
      cases hl : localChanged p base <;> cases hm : movedFrom item base.revision <;>
        rw [hl, hm] at h
      · cases h
      · cases h
      · dsimp only at h ⊢
        split at h
        · cases h
        · rename_i hmay
          rw [if_neg hmay]
          exact hpush _ h
      · dsimp only at h ⊢
        cases hp : d.opts.conflict with
        | manual => simp [resolveConflict, hp, markConflict] at h
        | preferRemote => simp [resolveConflict, hp] at h
        | keepBoth => simp [resolveConflict, hp] at h
        | preferLocal =>
          simp only [resolveConflict, hp] at h ⊢
          split at h
          · simp [markConflict] at h
          · rename_i hmay
            rw [if_neg hmay]
            exact hpush _ h

/-- The flag axis derives no Update. -/
theorem reconcileFlags_update (d : ReplicaSync) (p : ReplicaPlacement) (item : ReplicaRemoteItem)
    (allow : PushFlags) (h : ReplicaHandle) (o : ReplicaHash) (m : Option String) :
    (d.reconcileFlags p item allow).2 ≠ some (.update h o m) := by
  cases hb : p.base with
  | none => simp [reconcileFlags, ReplicaPlacement.baseFlags, hb]
  | some base =>
    rw [(d.reconcileFlags_spec hb item allow).2.2]
    split <;> simp

/-- A merge that derives an Update awaits its result with the row as it was loaded. -/
theorem effect_update {collection : ReplicaCollectionId} {opts : ReplicaSyncOptions}
    {p : ReplicaPlacement} {item : ReplicaRemoteItem} {o : ReplicaHash} {m : Option String}
    (h : (effect collection opts ⟨p.handle, some p, some item⟩).2 = some (.update p.handle o m)) :
    (effect collection opts ⟨p.handle, some p, some item⟩).1.pendingAt p.handle =
      { Pending.none with content := some p } := by
  have hnone := new_pendingAt collection opts p.handle
  have hstash : ((new collection opts).stashContent p.handle p).pendingAt p.handle =
      { Pending.none with content := some p } := by
    rw [← hnone]
    simp [pendingAt, stashContent]
  by_cases hs : p.status = .tombstone
  · rw [effect, merge_tombstone _ _ hs] at h ⊢
    dsimp only at h ⊢
    split at h
    · rename_i hbased
      rw [if_pos hbased]
      simp only [mergeTombstone] at h ⊢
      split at h
      · cases h
      · rename_i hmoved
        rw [if_neg hmoved]
        split at h
        · rename_i hstaged
          rw [if_pos hstaged]
          split at h
          · cases hd : (new collection opts).opts.delete <;> simp [refuseDelete, hd] at h
          · rename_i hmay
            rw [if_neg hmay]
            cases ho : p.object with
            | none => simp [ho] at h
            | some object => exact hstash
        · split at h
          · cases hd : (new collection opts).opts.delete <;> simp [refuseDelete, hd] at h
          · cases h
    · cases h
  · rw [effect, merge_live _ _ hs] at h ⊢
    dsimp only at h ⊢
    simp only [mergePresent] at h ⊢
    cases hc : (new collection opts).reconcileContent p item with
    | mk d outcome =>
      rw [hc] at h
      cases outcome with
      | untouched => exact absurd h (reconcileFlags_update d p item .derive _ _ _)
      | rewritten q => exact absurd h (reconcileFlags_update d q item .derive _ _ _)
      | push change =>
        obtain ⟨hd, hbased, -⟩ := (new collection opts).reconcileContent_push (by rw [hc])
        rw [hc] at hd
        obtain ⟨base, hb⟩ := Option.isSome_iff_exists.mp hbased
        have hpend := (d.reconcileFlags_spec hb item .withhold).2.1
        have hno : pushesFlags d.opts base p item .withhold = false := by simp [pushesFlags]
        rw [hno] at hpend
        dsimp only at hd
        rw [hd, hstash] at hpend
        rw [hd]
        exact hpend

/-- An Update carries the body of the row it is derived from. -/
theorem effect_update_body {collection : ReplicaCollectionId} {opts : ReplicaSyncOptions}
    {c : Candidate} {h : ReplicaHandle} {o : ReplicaHash} {m : Option String}
    (hk : (effect collection opts c).2 = some (.update h o m)) :
    ∃ p, c.loc = some p ∧ p.object = some o := by
  obtain ⟨g, loc, remote⟩ := c
  cases loc with
  | none => cases remote <;> cases hk
  | some p =>
    refine ⟨p, rfl, ?_⟩
    by_cases hs : p.status = .tombstone
    · rw [effect, merge_tombstone _ _ hs] at hk
      cases remote with
      | none => cases hk
      | some item =>
        dsimp only at hk
        split at hk
        · simp only [mergeTombstone] at hk
          split at hk
          · cases hk
          · split at hk
            · split at hk
              · cases hd : (new collection opts).opts.delete <;> simp [refuseDelete, hd] at hk
              · cases ho : p.object with
                | none => simp [ho] at hk
                | some object =>
                  simp only [ho, Option.some.injEq, ReplicaChangeKind.update.injEq] at hk
                  rw [hk.2.1]
            · split at hk
              · cases hd : (new collection opts).opts.delete <;> simp [refuseDelete, hd] at hk
              · cases hk
        · cases hk
    · rw [effect, merge_live _ _ hs] at hk
      cases remote with
      | none =>
        dsimp only at hk
        split at hk
        · simp only [mergeVanished] at hk
          split at hk
          · split at hk <;> cases hk
          · cases hk
        · simp only [mergeCreate] at hk
          split at hk <;> cases hk
      | some item =>
        simp only [mergePresent] at hk
        cases hc : (new collection opts).reconcileContent p item with
        | mk d outcome =>
          rw [hc] at hk
          cases outcome with
          | untouched => exact absurd hk (reconcileFlags_update d p item .derive _ _ _)
          | rewritten q => exact absurd hk (reconcileFlags_update d q item .derive _ _ _)
          | push change =>
            obtain ⟨-, -, o', ifMatch, ho, rfl⟩ :=
              (new collection opts).reconcileContent_push (by rw [hc])
            simp only [Option.some.injEq, ReplicaChangeKind.update.injEq] at hk
            rw [ho, hk.2.1]

end ReplicaSync

open ReplicaSync

/-- A run that derives an Update of a row present on both sides, with the result it was accepted
with. -/
structure PushedContent (s : CollectionRows) (snapshot : ReplicaRemoteSnapshot)
    (p : ReplicaPlacement) (base : ReplicaBase) (item : ReplicaRemoteItem) (t : Transcript) :
    Prop where
  based : p.base = some base
  reads : Reads s snapshot p item
  pushed : ∃ k ∈ t.changes, ∃ o m, k.kind = .update p.handle o m
  accepted : (Outbox.confirmation p.handle t.pushes).isSome

/-- The row stored last is the one the push recorded, its flags those it was loaded with. -/
theorem PushedContent.row {s : CollectionRows} {snapshot : ReplicaRemoteSnapshot}
    {p : ReplicaPlacement} {base : ReplicaBase} {item : ReplicaRemoteItem} {t : Transcript}
    (h : PushedContent s snapshot p base item t) {collection : ReplicaCollectionId}
    {opts : ReplicaSyncOptions} {loaded : ReplicaLoaded}
    (hs : Syncs collection opts loaded snapshot t) (hl : loaded.placements = s.placements)
    (hu : Undisturbed s p.handle t) :
    ∃ revision, (s.apply t.writes).rows[p.handle]? = some (contentRebased p revision) := by
  obtain ⟨hrow, hchanges⟩ := hs.runAt (c := ⟨p.handle, some p, some item⟩) hl h.reads hu
  dsimp only at hrow hchanges
  obtain ⟨k, hk, o, m, hkind⟩ := h.pushed
  have hmem : k ∈ t.changes.filter (fun k => k.handle = p.handle) := by
    rw [List.mem_filter]
    exact ⟨hk, by simp [ReplicaChange.handle, hkind, ReplicaChangeKind.handle]⟩
  rw [hchanges, Option.mem_toList, Option.map_eq_some_iff] at hmem
  obtain ⟨kind, hderived, rfl⟩ := hmem
  rw [ReplicaChange.new_kind] at hkind
  rw [hkind] at hderived
  obtain ⟨r, hr⟩ := Option.isSome_iff_exists.mp h.accepted
  refine ⟨r.revision, ?_⟩
  rw [CollectionRows.get_apply, hrow, hr]
  dsimp only
  rw [effect_update hderived]
  exact StagedEdit.rowAfter_recordContent p _ collection r

/-- An accepted Update keeps the flags merged in its run exactly when the merge left the local flags
as they were. -/
theorem pushed_flags_kept_iff {s : CollectionRows} {snapshot : ReplicaRemoteSnapshot}
    {p : ReplicaPlacement} {base : ReplicaBase} {item : ReplicaRemoteItem} {t : Transcript}
    (h : PushedContent s snapshot p base item t) {collection : ReplicaCollectionId}
    {opts : ReplicaSyncOptions} {loaded : ReplicaLoaded}
    (hs : Syncs collection opts loaded snapshot t) (hl : loaded.placements = s.placements)
    (hu : Undisturbed s p.handle t) :
    ((s.apply t.writes).rows[p.handle]?).map (·.flags) =
        some (ReplicaFlags.merge base.flags p.flags item.flags) ↔
      ReplicaFlags.merge base.flags p.flags item.flags = p.flags := by
  obtain ⟨revision, hrow⟩ := h.row hs hl hu
  rw [hrow, Option.map_some, Option.some.injEq]
  exact eq_comm

section Runs

open StagedEdit

/-- The card's Update accepted at revision 2. -/
def updated : List (List ReplicaPushResult) := [[⟨⟨"a"⟩, .accepted, none, some "2"⟩]]

/-- The edited card against an item of its own handle, its Update accepted. -/
def updatedSeam (item : ReplicaRemoteItem) : Seam := Seam.single card ⟨[item], [], true, ⟨[]⟩⟩ updated

/-- What the card's run pushed, what it was answered and the flags it stored. -/
def updatedRun (item : ReplicaRemoteItem) : Option (List ReplicaChangeKind ×
    List (List ReplicaPushResult) × Bool × Option ReplicaFlags) :=
  ((updatedSeam item).sync 9 card.collection .default).map (fun o =>
    (o.2.changes.map (·.kind), o.2.pushes.map (·.2),
      (Outbox.confirmation card.handle o.2.pushes).isSome,
      (o.1.rows.rows[card.handle]?).map (·.flags)))

theorem updated_pushed (item : ReplicaRemoteItem) (hi : item.handle = ⟨"a"⟩)
    (flags : Option ReplicaFlags) (h : updatedRun item =
      some ([.update ⟨"a"⟩ ⟨"new"⟩ (some "1")], updated, true, flags)) :
    ∃ t, Syncs card.collection .default ⟨(updatedSeam item).rows.placements, none⟩
        (updatedSeam item).snapshot t ∧
      PushedContent (updatedSeam item).rows (updatedSeam item).snapshot card
        ⟨.empty, some "1", some ⟨"old"⟩⟩ item t ∧
      Undisturbed (updatedSeam item).rows card.handle t ∧
      (((updatedSeam item).rows.apply t.writes).rows[card.handle]?).map (·.flags) = flags := by
  obtain ⟨⟨s', t⟩, hd, heq⟩ := Option.map_eq_some_iff.mp h
  obtain ⟨hsync, hrows⟩ := Seam.sync_syncs hd
  simp only [Prod.mk.injEq] at heq
  obtain ⟨hkinds, hreplies, hconfirmed, hflags⟩ := heq
  have hmem : ReplicaChangeKind.update ⟨"a"⟩ ⟨"new"⟩ (some "1") ∈ t.changes.map (·.kind) := by
    rw [hkinds]
    exact List.mem_singleton_self _
  obtain ⟨k, hk, hkind⟩ := List.mem_map.mp hmem
  have hreads : Reads (updatedSeam item).rows (updatedSeam item).snapshot card item := by
    refine reads_of_listed (OrderedMap.get_insert_self _ _ _) ?_ (Or.inl rfl)
    simp [updatedSeam, Seam.single, ReplicaRemoteSnapshot.reported, hi, card]
  have hunassigned : Outbox.Unassigned card.handle t.pushes :=
    Seam.unassigned_of_replies hreplies (by decide)
  rw [hrows] at hflags
  exact ⟨t, hsync, ⟨rfl, hreads, ⟨k, hk, _, _, hkind⟩, hconfirmed⟩,
    Seam.single_undisturbed hunassigned, hflags⟩

/-- A flag the remote added in the same run is undone by the write that records the Update. -/
theorem accepted_update_drops_star : ∃ t,
    Syncs card.collection .default ⟨(updatedSeam starred).rows.placements, none⟩
      (updatedSeam starred).snapshot t ∧
    PushedContent (updatedSeam starred).rows (updatedSeam starred).snapshot card
      ⟨.empty, some "1", some ⟨"old"⟩⟩ starred t ∧
    Undisturbed (updatedSeam starred).rows card.handle t ∧
    (((updatedSeam starred).rows.apply t.writes).rows[card.handle]?).map (·.flags) ≠
      some (ReplicaFlags.merge .empty card.flags starred.flags) := by
  obtain ⟨t, hsync, hpushed, hu, hflags⟩ := updated_pushed starred rfl (some .empty) (by decide)
  refine ⟨t, hsync, hpushed, hu, ?_⟩
  rw [hflags]
  decide

/-- A remote whose flags did not move leaves nothing to undo. -/
theorem accepted_update_keeps_flags : ∃ t,
    Syncs card.collection .default ⟨(updatedSeam ⟨⟨"a"⟩, .empty, some "1"⟩).rows.placements, none⟩
      (updatedSeam ⟨⟨"a"⟩, .empty, some "1"⟩).snapshot t ∧
    (((updatedSeam ⟨⟨"a"⟩, .empty, some "1"⟩).rows.apply t.writes).rows[card.handle]?).map (·.flags) =
      some (ReplicaFlags.merge .empty card.flags .empty) := by
  obtain ⟨t, hsync, hpushed, hu, -⟩ := updated_pushed ⟨⟨"a"⟩, .empty, some "1"⟩ rfl
    (some .empty) (by decide)
  exact ⟨t, hsync, (pushed_flags_kept_iff hpushed hsync rfl hu).mpr (by decide)⟩

/-- A contact created locally, one of many. -/
def draft (i : ℕ) : ReplicaPlacement where
  collection := ⟨"contacts"⟩
  handle := ⟨String.ofList [Char.ofNat (65 + i / 10), Char.ofNat (48 + i % 10)]⟩
  linkId := none
  object := none
  level := .full
  metadata := none
  sortKey := .unknown
  flags := .empty
  status := .created
  conflictRevision := none
  conflictObject := none
  base := none
  origin := none

def flaggedContact : ReplicaPlacement :=
  { card with handle := ⟨"b"⟩, object := some ⟨"old"⟩, flags := .known {"starred"} }

def removedContact : ReplicaPlacement :=
  { card with handle := ⟨"c"⟩, object := some ⟨"old"⟩, status := .tombstone }

/-- More changes than a chunk holds, of every kind. The first reply rejects one create and leaves
another out. -/
def crowded : Seam where
  rows := ([card, flaggedContact, removedContact] ++ (List.range 63).map draft).foldl
    (fun s p => s.write (.upsertPlacement p)) CollectionRows.empty
  checkpoint := none
  snapshot := ⟨[⟨⟨"a"⟩, .empty, some "1"⟩, ⟨⟨"b"⟩, .empty, some "1"⟩, ⟨⟨"c"⟩, .empty, some "1"⟩], [],
    true, ⟨[]⟩⟩
  replies := [[⟨(draft 0).handle, .rejected, none, none⟩] ++
      (List.range 61).map (fun i => ⟨(draft (i + 2)).handle, .accepted, none, none⟩) ++
      [⟨⟨"a"⟩, .accepted, none, some "2"⟩],
    [⟨⟨"b"⟩, .accepted, none, none⟩, ⟨⟨"c"⟩, .accepted, none, none⟩]]

/-- What the crowded run pushes, chunk by chunk. -/
def crowdedChunks : List (List ReplicaChangeKind) :=
  [(List.range 63).map (fun i => .add (draft i).handle none .empty none none) ++
      [.update ⟨"a"⟩ ⟨"new"⟩ (some "1")],
    [.setFlags ⟨"b"⟩ (.known {"starred"}), .remove ⟨"c"⟩ none none (some "1")]]

/-- The crowded run, each chunk answered by its own reply. -/
theorem crowded_run : (crowded.sync 9 ⟨"contacts"⟩ .default).map (fun o =>
    o.2.pushes.map (fun e => (e.1.map (·.kind), e.2))) =
      some (crowdedChunks.zip crowded.replies) := by decide +kernel

end Runs
end IoReplica

import IoReplica.Hub.Cell
import IoReplica.Hub.Driver
import IoReplica.Hub.Rekeyed
import IoReplica.Mutated
import IoReplica.Sync.Assigned
import IoReplica.Sync.Survives
import IoReplica.Upgrade.Tombstone
import Mathlib.Logic.Relation

/-! An identity added again over its own pending delete: what the hub then knows of the member the
delete was of. -/
namespace IoReplica

section Away

variable {collection : ReplicaCollectionId} {source : ReplicaSourceId} {link : ReplicaLinkId}
  {h : ReplicaHandle}

/-- What the item projects to the source stands under another handle. -/
def ReplicaHubItem.Away (collection : ReplicaCollectionId) (source : ReplicaSourceId)
    (link : ReplicaLinkId) (h : ReplicaHandle) (item : ReplicaHubItem) : Prop :=
  ∀ row, item.placement collection link source = some row → row.handle ≠ h

/-- An op that stores no row under the handle, and unbinds another only by deleting it. -/
def ReplicaWriteOp.Passes (h : ReplicaHandle) : ReplicaWriteOp → Prop
  | .upsertPlacement p => p.handle ≠ h
  | .dropPlacement _ g reason => g = h ∨ reason = .deleted
  | .storeObject .. => True
  | .setCheckpoint .. => True

namespace ReplicaHubItem

variable {item : ReplicaHubItem} {binding : ReplicaSourceBinding}

/-- A bound item is projected under the handle it is bound to. -/
theorem placement_bound (collection : ReplicaCollectionId) (link : ReplicaLinkId)
    (hb : item.sources[source]? = some binding) :
    ∃ row, item.placement collection link source = some row ∧ row.handle = binding.handle := by
  cases hd : item.deleted with
  | true => exact ⟨item.tombstonePlacement collection link binding, by simp [placement, hd, hb], rfl⟩
  | false => exact ⟨item.boundPlacement collection link binding, by simp [placement, hd, hb], rfl⟩

theorem away_iff_of_bound (hb : item.sources[source]? = some binding) :
    item.Away collection source link h ↔ binding.handle ≠ h := by
  obtain ⟨row, hrow, hhandle⟩ := item.placement_bound collection link hb
  constructor
  · intro haway
    rw [← hhandle]
    exact haway row hrow
  · intro hne row' hrow'
    rw [hrow, Option.some.injEq] at hrow'
    rw [← hrow', hhandle]
    exact hne

theorem Away.absorb (policy : ReplicaHubConflict) (item : ReplicaHubItem) {p : ReplicaPlacement}
    (hp : p.handle ≠ h) : (item.absorb policy source p).Away collection source link h := by
  obtain ⟨binding, hb, hhandle⟩ := Option.map_eq_some_iff.mp
    (absorb_bound item p)
  rw [away_iff_of_bound hb, hhandle]
  exact hp

/-- Deleting a binding leaves nothing to project. -/
theorem Away.dropBinding (haway : item.Away collection source link h) {g : ReplicaHandle}
    {reason : ReplicaDropReason} (hdrop : g = h ∨ reason = .deleted) :
    (item.dropBinding source g reason).Away collection source link h := by
  cases hbound : item.boundTo source g with
  | false =>
    rw [dropBinding_of_ne hbound]
    exact haway
  | true =>
    obtain ⟨binding, hb, hhandle⟩ := Option.map_eq_some_iff.mp (boundTo_iff.mp hbound)
    have hne : g ≠ h := by
      rw [← hhandle]
      exact (away_iff_of_bound hb).mp haway
    have hdeleted : reason = .deleted := hdrop.resolve_left hne
    rw [boundTo] at hbound
    intro row hrow
    simp [ReplicaHubItem.dropBinding, hbound, hdeleted, placement] at hrow

end ReplicaHubItem

namespace ReplicaHub

theorem cell_away {policy : ReplicaHubConflict} {op : ReplicaWriteOp} (hop : op.Passes h)
    {item : Option ReplicaHubItem} (haway : ∀ i, item = some i → i.Away collection source link h) :
    ∀ i, cell policy source link item op = some i → i.Away collection source link h := by
  intro i hi
  cases op with
  | storeObject | setCheckpoint => exact haway i hi
  | dropPlacement c g reason =>
    obtain ⟨old, hold, rfl⟩ := Option.map_eq_some_iff.mp hi
    exact (haway old hold).dropBinding hop
  | upsertPlacement p =>
    simp only [cell] at hi
    split at hi
    · cases hi
      exact .absorb policy _ hop
    · exact haway i hi

theorem cells_away {policy : ReplicaHubConflict} {ops : List ReplicaWriteOp}
    (hops : ∀ op ∈ ops, op.Passes h) {item : Option ReplicaHubItem}
    (haway : ∀ i, item = some i → i.Away collection source link h) :
    ∀ i, ops.foldl (cell policy source link) item = some i → i.Away collection source link h := by
  induction ops generalizing item with
  | nil => exact haway
  | cons op ops ih =>
    exact ih (fun o ho => hops o (List.mem_cons_of_mem _ ho))
      (cell_away (hops op List.mem_cons_self) haway)

/-- An upsert of the item elsewhere takes it away, whatever stood there. -/
theorem cells_taken {policy : ReplicaHubConflict} {ops : List ReplicaWriteOp}
    (hops : ∀ op ∈ ops, op.Passes h) {p : ReplicaPlacement} (hp : .upsertPlacement p ∈ ops)
    (hl : p.linkId = some link) (item : Option ReplicaHubItem) :
    ∀ i, ops.foldl (cell policy source link) item = some i → i.Away collection source link h := by
  obtain ⟨before, after, rfl⟩ := List.append_of_mem hp
  rw [List.foldl_append, List.foldl_cons]
  refine cells_away (fun op hop => hops op (List.mem_append_right _ (List.mem_cons_of_mem _ hop))) ?_
  intro i hi
  simp only [cell, if_pos hl, Option.some.injEq] at hi
  rw [← hi]
  exact .absorb policy _ (hops _ hp)

end ReplicaHub

namespace HubStore

variable {s s' : HubStore} {ops : List ReplicaWriteOp} {t : Transcript}

/-- Is nothing of the item loaded under the handle? -/
def AwayAt (s : HubStore) (collection : ReplicaCollectionId) (source : ReplicaSourceId)
    (link : ReplicaLinkId) (h : ReplicaHandle) : Prop :=
  ∀ item, s.hub.items[link]? = some item → item.Away collection source link h

/-- Keying an op back leaves the handle it writes. -/
theorem keyBack_passes (hub : ReplicaHub) (source : ReplicaSourceId) {op : ReplicaWriteOp}
    (hop : op.Passes h) : (keyBack hub source op).Passes h := by
  cases op with
  | upsertPlacement p =>
    simp only [keyBack]
    split
    · exact hop
    · exact hop
  | dropPlacement | storeObject | setCheckpoint => exact hop

theorem keyed_passes (hub : ReplicaHub) (source : ReplicaSourceId)
    (hops : ∀ op ∈ ops, op.Passes h) : ∀ op ∈ ops.map (keyBack hub source), op.Passes h := by
  intro op hop
  obtain ⟨old, hold, rfl⟩ := List.mem_map.mp hop
  exact keyBack_passes hub source (hops old hold)

theorem write_away (hops : ∀ op ∈ ops, op.Passes h) (haway : s.AwayAt collection source link h) :
    (s.write source ops).AwayAt collection source link h := by
  intro item hitem
  have hget := (s.hub.absorb_get source link (ops.map (keyBack s.hub source))).1
  have hitem' : (s.hub.absorb source (ops.map (keyBack s.hub source))).items[link]? =
    some item := hitem
  rw [hget, Option.filter_eq_some_iff] at hitem'
  exact ReplicaHub.cells_away (keyed_passes s.hub source hops) haway item hitem'.1

theorem write_taken (hops : ∀ op ∈ ops, op.Passes h) {p : ReplicaPlacement}
    (hp : .upsertPlacement p ∈ ops) (hl : p.linkId = some link) :
    (s.write source ops).AwayAt collection source link h := by
  intro item hitem
  have hget := (s.hub.absorb_get source link (ops.map (keyBack s.hub source))).1
  have hitem' : (s.hub.absorb source (ops.map (keyBack s.hub source))).items[link]? =
    some item := hitem
  rw [hget, Option.filter_eq_some_iff] at hitem'
  have hkeyed : .upsertPlacement p ∈ ops.map (keyBack s.hub source) := by
    refine List.mem_map.mpr ⟨_, hp, ?_⟩
    simp [keyBack, hl]
  exact ReplicaHub.cells_taken (keyed_passes s.hub source hops) hkeyed hl _ item hitem'.1

/-- No unlinked row is held under the handle by ops that store none there. -/
theorem write_unheld (hops : ∀ op ∈ ops, op.Passes h) (hheld : (s.residual source).rows[h]? = none) :
    ((s.write source ops).residual source).rows[h]? = none := by
  simp only [HubStore.write, Function.update_self]
  have hkeyed := keyed_passes s.hub source hops
  generalize ops.map (keyBack s.hub source) = keyed at hkeyed
  generalize s.residual source = rows at hheld
  induction keyed generalizing rows with
  | nil => exact hheld
  | cons op keyed ih =>
    refine ih (fun o ho => hkeyed o (List.mem_cons_of_mem _ ho)) _ ?_
    have hop := hkeyed op List.mem_cons_self
    cases op with
    | storeObject | setCheckpoint => exact hheld
    | dropPlacement c g reason =>
      simp only [holdRow, CollectionRows.get_write, rowAfter_drop, rowAfter_nil, hheld, ite_self]
    | upsertPlacement p =>
      have hne : p.handle ≠ h := hop
      simp only [holdRow]
      split
      · simp only [CollectionRows.get_write, rowAfter_drop, rowAfter_nil, hheld, ite_self]
      · simp only [CollectionRows.get_write, rowAfter_upsert, rowAfter_nil, if_neg hne, hheld]

/-- Nothing is loaded under a handle every item is away from, and no row is held under. -/
theorem load_away (haway : ∀ link, s.AwayAt collection source link h)
    (hheld : (s.residual source).rows[h]? = none) :
    ∀ row ∈ (s.load source collection).placements, row.handle ≠ h := by
  intro row hrow
  simp only [load, List.mem_append, List.mem_filter] at hrow
  rcases hrow with hrow | ⟨hrow, -⟩
  · obtain ⟨link, item, hitem, hplaced⟩ := ReplicaHub.mem_project.mp hrow
    exact haway link item hitem row hplaced
  · rintro rfl
    rw [CollectionRows.mem_placements, hheld] at hrow
    cases hrow

/-- A run that stores nothing under the handle, and takes the one item that stood there elsewhere,
leaves nothing to load under it. -/
theorem attends_away (hattends : Coroutine.Attends (service source) s t s')
    (hops : ∀ op ∈ t.writes, op.Passes h)
    (haway : ∀ other, other ≠ link → s.AwayAt collection source other h)
    (hheld : (s.residual source).rows[h]? = none) {p : ReplicaPlacement}
    (hp : .upsertPlacement p ∈ t.writes) (hl : p.linkId = some link) :
    ∀ row ∈ (s'.load source collection).placements, row.handle ≠ h := by
  rw [attends_batches hattends]
  rw [← Transcript.flatten_batches] at hops hp
  generalize t.batches = batches at hops hp
  have hkeep : ∀ (batches : List (List ReplicaWriteOp)) (s : HubStore) (l : ReplicaLinkId),
      (∀ op ∈ batches.flatten, op.Passes h) → s.AwayAt collection source l h →
        (batches.foldl (fun s ops => s.write source ops) s).AwayAt collection source l h := by
    intro batches
    induction batches with
    | nil => exact fun s l _ hs => hs
    | cons ops batches ih =>
      intro s l hall hs
      exact ih _ l (fun op hop => hall op (List.mem_append_right _ hop))
        (write_away (fun op hop => hall op (List.mem_append_left _ hop)) hs)
  refine load_away ?_ ?_
  · intro l
    by_cases hlink : l = link
    · subst hlink
      obtain ⟨ops, hops', hmem⟩ := List.mem_flatten.mp hp
      obtain ⟨before, after, rfl⟩ := List.append_of_mem hops'
      rw [List.foldl_append, List.foldl_cons]
      refine hkeep after _ l (fun op hop => hops op ?_)
        (write_taken (fun op hop => hops op ?_) hmem hl)
      · rw [List.flatten_append, List.flatten_cons]
        exact List.mem_append_right _ (List.mem_append_right _ hop)
      · rw [List.flatten_append, List.flatten_cons]
        exact List.mem_append_right _ (List.mem_append_left _ hop)
    · exact hkeep batches s l hops (haway l hlink)
  · clear hp haway hattends
    induction batches generalizing s with
    | nil => exact hheld
    | cons ops batches ih =>
      exact ih (write_unheld (fun op hop => hops op (List.mem_append_left _ hop)) hheld)
        (fun op hop => hops op (List.mem_append_right _ hop))

end HubStore

end Away

/-- A change that appends a new member for a link id. -/
def ReplicaChangeKind.Appends (link : ReplicaLinkId) (kind : ReplicaChangeKind) : Prop :=
  ∃ handle flags origin object, kind = .add handle (some link) flags origin object

namespace HubStore

open ReplicaSync

/-- The item is bound to the source as a pending create under the handle, and nothing else stands
there. -/
structure Staged (s : HubStore) (collection : ReplicaCollectionId) (source : ReplicaSourceId)
    (link : ReplicaLinkId) (h : ReplicaHandle) (item : ReplicaHubItem)
    (binding : ReplicaSourceBinding) : Prop where
  shared : s.hub.items[link]? = some item
  live : item.deleted = false
  bound : item.sources[source]? = some binding
  handle : binding.handle = h
  unbased : binding.base = none
  settled : binding.conflicted = false
  agreed : binding.sharedObject = item.object
  alone : ∀ other, other ≠ link → s.AwayAt collection source other h
  unheld : (s.residual source).rows[h]? = none

/-- A server with nothing new to list. -/
def quiet : ReplicaRemoteSnapshot := ⟨[], [], false, ⟨[]⟩⟩

/-- A server that takes the change of one handle, under another, and no other change. -/
def taking (h g : ReplicaHandle) (_ : Unit) : ReplicaYield → Unit × ReplicaArg
  | .wantsEnumerate .. => ((), .enumerate quiet)
  | .wantsPush .. => ((), .push [⟨h, .accepted, some g, none⟩])
  | .wantsFetch .. => ((), .fetch [])
  | .wantsLoad .. => ((), .load ⟨[], none⟩)
  | .wantsLookupObject _ => ((), .lookupObject ∅)
  | .wantsWrite _ => ((), .write)

/-- Some sync of the source completes against such a server. -/
theorem exists_taken (s : HubStore) (collection : ReplicaCollectionId) (source : ReplicaSourceId)
    (h g : ReplicaHandle) : ∃ t s', Syncs collection .default (s.load source collection) quiet t ∧
      Coroutine.Attends (service source) s t s' ∧
      ∀ e ∈ t.pushes, e.2 = [⟨h, .accepted, some g, none⟩] := by
  have hkind : ∀ st y, (Coroutine.beside (service source) (taking h g) st y).2.Answers y := by
    intro st y
    cases y <;> trivial
  obtain ⟨fuel, out, t, report, hd⟩ := ReplicaSync.completes _ hkind collection .default (s, ())
  obtain ⟨hruns, hfollows⟩ := Coroutine.drive_runs hd
  have hattends := Coroutine.follows_attends hfollows
  obtain ⟨loaded, snapshot, hsyncs⟩ := runs_syncs hruns
  obtain ⟨rest, report', heq, -⟩ := id hsyncs
  have hloaded : loaded = s.load source collection := by
    rw [heq] at hattends
    exact (attends_load hattends).1
  have hsnapshot : snapshot = quiet := by
    obtain ⟨st, hanswer⟩ := hfollows.answer (y := .wantsEnumerate collection
      (if ReplicaSyncOptions.default.full then none else loaded.checkpoint))
      (a := .enumerate snapshot) (by rw [heq]; simp)
    cases hanswer
    rfl
  rw [hloaded, hsnapshot] at hsyncs
  refine ⟨t, out.1, hsyncs, hattends, ?_⟩
  rintro ⟨changes, results⟩ he
  simp only [Transcript.pushes, List.mem_filterMap] at he
  obtain ⟨⟨y, a⟩, hmem, hsplit⟩ := he
  split at hsplit
  · rename_i c changes' results' hexchange
    cases hsplit
    cases hexchange
    obtain ⟨st, hanswer⟩ := hfollows.answer hmem
    cases hanswer
    rfl
  · cases hsplit

variable {s : HubStore} {collection : ReplicaCollectionId} {source : ReplicaSourceId}
  {link : ReplicaLinkId} {h g : ReplicaHandle} {item : ReplicaHubItem}
  {binding : ReplicaSourceBinding}

namespace Staged

theorem placement (hs : s.Staged collection source link h item binding) :
    item.placement collection link source = some (item.boundPlacement collection link binding) := by
  simp [ReplicaHubItem.placement, hs.live, hs.bound]

theorem mem (hs : s.Staged collection source link h item binding) :
    item.boundPlacement collection link binding ∈ (s.load source collection).placements :=
  List.mem_append_left _ (ReplicaHub.mem_project.mpr ⟨link, item, hs.shared, hs.placement⟩)

/-- The pending create is the one row loaded under its handle. -/
theorem only (hs : s.Staged collection source link h item binding) {q : ReplicaPlacement}
    (hq : q ∈ (s.load source collection).placements) (hh : q.handle = h) :
    q = item.boundPlacement collection link binding := by
  simp only [load, List.mem_append, List.mem_filter] at hq
  rcases hq with hq | ⟨hq, -⟩
  · obtain ⟨l, i, hi, hplaced⟩ := ReplicaHub.mem_project.mp hq
    by_cases hl : l = link
    · subst hl
      rw [hs.shared, Option.some.injEq] at hi
      subst hi
      rw [hs.placement, Option.some.injEq] at hplaced
      exact hplaced.symm
    · exact absurd hh (hs.alone l hl i hi q hplaced)
  · rw [CollectionRows.mem_placements, hh, hs.unheld] at hq
    cases hq

theorem collected (hs : s.Staged collection source link h item binding) :
    (collectPlacements (s.load source collection).placements)[h]? =
      some (item.boundPlacement collection link binding) := by
  have hhandle : (item.boundPlacement collection link binding).handle = h := hs.handle
  have hcollected := CollectionRows.collect_only hs.mem
    (fun q hq hh => hs.only hq (hh.trans hhandle))
  rwa [hhandle] at hcollected

/-- A pending create that holds a body is pushed as an append, to a server that lists nothing new. -/
theorem derives (hs : s.Staged collection source link h item binding) {o : ReplicaHash}
    (ho : item.object = some o) (collection' : ReplicaCollectionId) :
    let row := item.boundPlacement collection link binding
    let e := effect collection' .default ⟨h, some row, none⟩
    e.1.writes = [] ∧ e.1.pendingAt h = { Pending.none with created := some row } ∧
      e.2 = some (.add h (some link) row.flags none (some o)) := by
  have hstatus : (item.boundPlacement collection link binding).status = .created := by
    simp [ReplicaHubItem.boundPlacement, ReplicaHubItem.boundStatus, hs.settled, hs.unbased, ho]
  have hbase : (item.boundPlacement collection link binding).base = none := hs.unbased
  have hobject : (item.boundPlacement collection link binding).object = some o := ho
  have hlink : (item.boundPlacement collection link binding).linkId = some link := rfl
  have horigin : (item.boundPlacement collection link binding).origin = none := rfl
  have hnew := new_pendingAt collection' .default h
  dsimp only
  rw [effect, merge_live _ _ (by rw [hstatus]; decide)]
  simp only [hbase, Option.isSome_none, Bool.false_eq_true, if_false]
  have hmay : (ReplicaSync.new collection' .default).opts.mayAdd = true := rfl
  simp only [mergeCreate, hmay, hstatus, decide_true, Bool.and_self, if_true, pushAdd, hobject,
    hlink, horigin]
  refine ⟨rfl, ?_, trivial⟩
  rw [← hnew]
  simp [pendingAt, stashCreate]

/-- The pending create is a candidate of the run, listed by nobody. -/
theorem candidate (hs : s.Staged collection source link h item binding) {o : ReplicaHash}
    (ho : item.object = some o) :
    (⟨h, some (item.boundPlacement collection link binding), none⟩ : Candidate) ∈
      mergedCandidates (s.load source collection) quiet := by
  have hstatus : (item.boundPlacement collection link binding).status = .created := by
    simp [ReplicaHubItem.boundPlacement, ReplicaHubItem.boundStatus, hs.settled, hs.unbased, ho]
  have hbase : (item.boundPlacement collection link binding).base = none := hs.unbased
  rw [mem_mergedCandidates]
  dsimp only
  rw [Merge.candidateAt_unlisted rfl (by simp [quiet]) rfl, hs.collected]
  simp [hstatus, Merge.standIn, hbase]

/-- A sync of the pending create leaves a new member on its server, nothing at all under the handle it
was staged under, and the member of that handle where it was. -/
theorem appends (hs : s.Staged collection source link h item binding) {o : ReplicaHash}
    (ho : item.object = some o) (hg : g ≠ h) : ∃ t s',
      Syncs collection .default (s.load source collection) quiet t ∧
      Coroutine.Attends (service source) s t s' ∧ (∀ e ∈ t.accepted, ¬ e.1.Removes h) ∧
      (∃ e ∈ t.accepted, e.1.Appends link) ∧
      ∀ row ∈ (s'.load source collection).placements, row.handle ≠ h := by
  obtain ⟨t, s', hsyncs, hattends, hreplies⟩ := s.exists_taken collection source h g
  obtain ⟨box, hwhole⟩ := hsyncs.whole
  let row := item.boundPlacement collection link binding
  have hc := hs.candidate ho
  obtain ⟨hwrites, hpend, hkind⟩ := hs.derives ho collection
  dsimp only at hwrites hpend hkind
  have hbox : box h = { Pending.none with created := some row } := (hwhole.awaits _ hc).trans hpend
  have hchange : ReplicaChange.new collection (.add h (some link) row.flags none (some o)) ∈
      t.changes := hwhole.mem_changes.mpr ⟨_, hc, rfl, by rw [hkind]; rfl⟩
  have honly : ∀ k ∈ t.changes, k.handle = h →
      k.kind = .add h (some link) row.flags none (some o) := by
    intro k hk hh
    obtain ⟨d, hd, hdh, hdk⟩ := hwhole.mem_changes.mp hk
    have hsame := mergedCandidates_unique hd hc (hdh.trans hh)
    subst hsame
    rw [hkind, Option.map_some, Option.some.injEq] at hdk
    rw [← hdk, ReplicaChange.new_kind]
  have hrecord : (box h).record collection ⟨h, .accepted, some g, none⟩ =
      [.dropPlacement collection h .superseded,
        .upsertPlacement (rekeyedPlacement row g none)] := by
    have hhandle : row.handle = h := hs.handle
    rw [hbox]
    simp [Pending.record, Pending.none, Pending.recordCreate, hhandle]
  obtain ⟨e, he, hmem⟩ : ∃ e ∈ t.pushes, ReplicaChange.new collection
      (.add h (some link) row.flags none (some o)) ∈ e.1 := by
    obtain ⟨chunk, hchunk, hin⟩ := List.mem_flatten.mp hchange
    obtain ⟨e, he, rfl⟩ := List.mem_map.mp hchunk
    exact ⟨e, he, hin⟩
  refine ⟨t, s', hsyncs, hattends, ?_, ?_, ?_⟩
  · rintro ⟨kind, r⟩ haccepted ⟨dest, l, ifMatch, hremove⟩
    obtain ⟨d, hd, k, hk, hkkind, -⟩ := Transcript.mem_accepted haccepted
    have hin : k ∈ t.changes := List.mem_flatten.mpr ⟨d.1, List.mem_map_of_mem hd, hk⟩
    have hkremove : k.kind = .remove h dest l ifMatch := hkkind.trans hremove
    have hadd := honly k hin (by rw [ReplicaChange.handle, hkremove]; rfl)
    rw [hkremove] at hadd
    cases hadd
  · refine ⟨(.add h (some link) row.flags none (some o), ⟨h, .accepted, some g, none⟩), ?_,
      h, row.flags, none, some o, rfl⟩
    simp only [Transcript.accepted, List.mem_flatMap, List.mem_filterMap]
    refine ⟨e, he, _, hmem, ?_⟩
    rw [hreplies e he]
    simp [ReplicaPushResult.confirms, ReplicaChange.handle, ReplicaChangeKind.handle]
  · have hstored : .upsertPlacement (rekeyedPlacement row g none) ∈ t.writes := by
      rw [hwhole.writes]
      refine List.mem_append_right _ (List.mem_append_left _ ?_)
      obtain ⟨d, es, hes⟩ := List.exists_cons_of_ne_nil (List.ne_nil_of_mem he)
      rw [hes]
      have hd := hreplies d (by rw [hes]; exact List.mem_cons_self)
      obtain ⟨changes, results⟩ := d
      dsimp only at hd
      subst hd
      simp only [Outbox.recordAll, Outbox.settleAll, Outbox.settle, hrecord]
      simp
    have hpasses : ∀ op ∈ t.writes, op.Passes h := by
      intro op hop
      rw [hwhole.writes] at hop
      simp only [List.mem_append, List.mem_flatMap, List.mem_singleton] at hop
      rcases hop with ⟨d, hd, hop⟩ | hop | rfl
      · by_cases hh : d.handle = h
        · have hsame := mergedCandidates_unique hd hc hh
          subst hsame
          rw [hwrites] at hop
          cases hop
        · have hnew : op ∉ (ReplicaSync.new collection .default).writes := List.not_mem_nil
          rcases ReplicaSync.merge_writes _ (mergedCandidates_paired hd) hop with hop | hop | hop
          · exact absurd hop hnew
          · obtain ⟨p, rfl, hp | hp⟩ := hop
            · intro heq
              exact hh (hp.symm.trans heq)
            · cases hp
          · rw [hop.2]
            exact Or.inr rfl
      · obtain ⟨r, ⟨d, hd, hr⟩, -, hop⟩ := Outbox.recordAll_mem t.pushes hop
        rw [hreplies d hd, List.mem_singleton] at hr
        rw [hr, hrecord] at hop
        rcases List.mem_cons.mp hop with rfl | hop
        · exact Or.inl rfl
        · rw [List.mem_singleton.mp hop]
          exact hg
      · trivial
    exact attends_away hattends hpasses hs.alone hs.unheld hstored rfl

end Staged

section Stores

variable {p : ReplicaPlacement} {object : ReplicaObject} {body : List UInt8}

/-- The batch of a mutation that stores a body and the row that holds it. -/
def stored (object : ReplicaObject) (body : List UInt8) (p : ReplicaPlacement) :
    List ReplicaWriteOp := [.storeObject object (some body), .upsertPlacement p]

/-- Such a batch of a linked row leaves under its link id what the row makes of the item. -/
theorem write_stored (s : HubStore) (source : ReplicaSourceId) (object : ReplicaObject)
    (body : List UInt8) (hl : p.linkId = some link) :
    (s.write source (stored object body p)).hub.items[link]? =
      some ((s.hub.items[link]?.getD (.ofPlacement p)).absorb s.hub.conflict source p) := by
  have hget := (s.hub.absorb_get source link
    ((stored object body p).map (keyBack s.hub source))).1
  have hkeyed : (stored object body p).map (keyBack s.hub source) = stored object body p := by
    simp [stored, keyBack, hl]
  have hbound := @ReplicaHubItem.absorb_bound s.hub.conflict source
    (s.hub.items[link]?.getD (.ofPlacement p)) p
  have hcell : (stored object body p).foldl (ReplicaHub.cell s.hub.conflict source link)
      s.hub.items[link]? =
        some ((s.hub.items[link]?.getD (.ofPlacement p)).absorb s.hub.conflict source p) := by
    simp only [stored, List.foldl_cons, List.foldl_nil, ReplicaHub.cell, if_pos hl]
  have hafter : (s.write source (stored object body p)).hub.items[link]? =
      (s.hub.absorb source ((stored object body p).map (keyBack s.hub source))).items[link]? := rfl
  rw [hafter, hget, hkeyed, hcell, Option.filter_some,
    if_pos (ReplicaHubItem.sources_ne_empty (ReplicaHubItem.boundTo_iff.mpr hbound))]

/-- No other item is moved by it. -/
theorem write_stored_other (s : HubStore) (source : ReplicaSourceId) (object : ReplicaObject)
    (body : List UInt8) (hl : p.linkId = some link) {other : ReplicaLinkId} (hne : other ≠ link)
    (haway : s.AwayAt collection source other h) :
    (s.write source (stored object body p)).AwayAt collection source other h := by
  intro i hi
  have hget := (s.hub.absorb_get source other
    ((stored object body p).map (keyBack s.hub source))).1
  have hkeyed : (stored object body p).map (keyBack s.hub source) = stored object body p := by
    simp [stored, keyBack, hl]
  have hcell : (stored object body p).foldl (ReplicaHub.cell s.hub.conflict source other)
      s.hub.items[other]? = s.hub.items[other]? := by
    have hlink : p.linkId ≠ some other := by
      rw [hl]
      exact fun heq => hne (Option.some.inj heq).symm
    simp only [stored, List.foldl_cons, List.foldl_nil, ReplicaHub.cell, if_neg hlink]
  have hi' : (s.hub.absorb source ((stored object body p).map (keyBack s.hub source))).items[other]? =
      some i := hi
  rw [hget, hkeyed, hcell, Option.filter_eq_some_iff] at hi'
  exact haway i hi'.1

/-- A linked row is held beside the hub by no one. -/
theorem write_stored_unheld (s : HubStore) (source : ReplicaSourceId) (object : ReplicaObject)
    (body : List UInt8) (hl : p.linkId = some link) (hheld : (s.residual source).rows[h]? = none) :
    ((s.write source (stored object body p)).residual source).rows[h]? = none := by
  have hlinked : p.linkId.isSome = true := by rw [hl]; rfl
  have hkeyed : (stored object body p).map (keyBack s.hub source) = stored object body p := by
    simp [stored, keyBack, hl]
  simp only [HubStore.write, Function.update_self, hkeyed]
  simp only [stored, List.foldl_cons, List.foldl_nil, holdRow, hlinked, if_true,
    CollectionRows.get_write, rowAfter_drop, rowAfter_nil]
  split
  · rfl
  · exact hheld

/-- A live unbased row of the item stages it as a pending create under the row's handle. -/
theorem write_staged (s : HubStore) (source : ReplicaSourceId) (object : ReplicaObject)
    (body : List UInt8) (hl : p.linkId = some link) (hlive : p.status ≠ .tombstone)
    (hunconflicted : p.status ≠ .conflict) (hb : p.base = none)
    (halone : ∀ other, other ≠ link → s.AwayAt collection source other p.handle)
    (hheld : (s.residual source).rows[p.handle]? = none) :
    ∃ binding, (s.write source (stored object body p)).Staged collection source link p.handle
      ((s.hub.items[link]?.getD (.ofPlacement p)).absorb s.hub.conflict source p) binding := by
  have hbinding := ReplicaHubItem.absorb_sources s.hub.conflict
    (s.hub.items[link]?.getD (.ofPlacement p)) source p source
  rw [if_pos rfl, if_neg hlive] at hbinding
  have hdeleted := ReplicaHubItem.absorb_deleted s.hub.conflict
    (s.hub.items[link]?.getD (.ofPlacement p)) source p
  refine ⟨_, s.write_stored source object body hl, ?_, hbinding, rfl, hb, ?_, rfl, ?_, ?_⟩
  · rw [hdeleted]
    simp [hlive]
  · simp [ReplicaHubItem.bindingOf, hunconflicted]
  · exact fun other hne => s.write_stored_other source object body hl hne (halone other hne)
  · exact s.write_stored_unheld source object body hl hheld

end Stores

namespace Staged

/-- A pending create without a body is one edit away from one: its row, edited, stages it anew. -/
theorem hydrated (hs : s.Staged collection source link h item binding) (ho : item.object = none) :
    ∃ t s', Ran source (.mutate collection (.edit h ⟨⟨""⟩, 0⟩ [] none none)) s t s' ∧
      ∃ item' binding', s'.Staged collection source link h item' binding' ∧
        item'.object = some ⟨""⟩ := by
  let row := item.boundPlacement collection link binding
  let edited := ReplicaMutate.edited row ⟨""⟩ none none
  have hhandle : row.handle = h := hs.handle
  have hstatus : row.status = .dirty := by
    simp [row, ReplicaHubItem.boundPlacement, ReplicaHubItem.boundStatus, hs.settled, hs.unbased, ho,
      ReplicaHubItem.inSync]
  have hbase : row.base = none := hs.unbased
  obtain ⟨heh, hel, hes, heb, heo⟩ : edited.handle = h ∧ edited.linkId = some link ∧
      edited.status = .dirty ∧ edited.base = none ∧ edited.object = some ⟨""⟩ := by
    have hedited : edited = { row with object := some ⟨""⟩, level := .full, status := .dirty } := by
      simp [edited, ReplicaMutate.edited, hstatus, hbase]
    rw [hedited]
    exact ⟨hhandle, rfl, rfl, hbase, rfl⟩
  have hfind : (s.load source collection).placements.find? (fun q => q.handle = h) = some row := by
    cases hf : (s.load source collection).placements.find? (fun q => q.handle = h) with
    | none =>
      have hnone := List.find?_eq_none.mp hf row hs.mem
      simp [hhandle] at hnone
    | some q =>
      have hq : q.handle = h := by simpa using List.find?_some hf
      rw [hs.only (List.mem_of_find?_eq_some hf) hq]
  have hmutates : Mutates collection (.edit h ⟨⟨""⟩, 0⟩ [] none none) (s.load source collection)
      [(.wantsLoad collection (.handles [h]), .load (s.load source collection)),
        (.wantsWrite (stored ⟨⟨""⟩, 0⟩ [] edited), .write)] :=
    Stages.mutates (.source rfl hfind)
  obtain ⟨-, -, hruns⟩ := hmutates
  obtain ⟨binding', hstaged⟩ := s.write_staged source ⟨⟨""⟩, 0⟩ [] hel
    (by rw [hes]; decide) (by rw [hes]; decide) heb (by rw [heh]; exact hs.alone)
    (by rw [heh]; exact hs.unheld)
  rw [heh] at hstaged
  refine ⟨_, _, ⟨⟨_, hruns⟩, .own rfl (.own rfl (.nil _))⟩, _, binding', hstaged, ?_⟩
  rw [hs.shared, Option.getD_some]
  have hlive : edited.status ≠ .tombstone := by rw [hes]; decide
  have hsynced : (item.refresh edited).syncedObject source = none := by
    simp [ReplicaHubItem.syncedObject, ReplicaHubItem.refresh, hs.bound, hs.unbased]
  have hshared : (item.refresh edited).object = none := ho
  have hagreed : (item.refresh edited).agreedObject source = none := by
    rw [ReplicaHubItem.agreedObject, hsynced]
    simp [ReplicaHubItem.refresh, hs.bound, hs.agreed, ho]
  rw [(ReplicaHubItem.absorb_live s.hub.conflict item source hlive).1,
    ReplicaHubItem.reconcileContent_edited _ _ _ (by rw [heo, hsynced]; simp) (by rw [heo]; rfl),
    if_neg (by rw [heo, hshared]; simp), if_pos (by rw [hshared, hagreed])]
  exact heo

end Staged

end HubStore

namespace Readded

/-- The store, and what the source's server holds of an identity: the member a delete is pending of,
and one its re-add appended. -/
structure World where
  store : HubStore
  held : Prop
  appended : Prop

/-- One run more: a sync of the source, told of the member for as long as its server holds it, or
any run that does not reach that server. -/
inductive Next (collection : ReplicaCollectionId) (source : ReplicaSourceId) (link : ReplicaLinkId)
    (h : ReplicaHandle) : World → World → Prop
  | sync {w : World} {opts : ReplicaSyncOptions} {snapshot : ReplicaRemoteSnapshot} {t : Transcript}
      {s' : HubStore}
      (syncs : Syncs collection opts (w.store.load source collection) snapshot t)
      (attends : Coroutine.Attends (HubStore.service source) w.store t s')
      (told : w.held → ¬ snapshot.Gone h) :
      Next collection source link h w ⟨s', w.held ∧ ∀ e ∈ t.accepted, ¬ e.1.Removes h,
        w.appended ∨ ∃ e ∈ t.accepted, e.1.Appends link⟩
  | offline {w : World} {other : ReplicaSourceId} {verb : Verb} {t : Transcript} {s' : HubStore}
      (ran : HubStore.Ran other verb w.store t s')
      (apart : other ≠ source ∨ ∀ c opts, verb ≠ .sync c opts) :
      Next collection source link h w { w with store := s' }

/-- Is anything of the handle left to sync? -/
def Pending (collection : ReplicaCollectionId) (source : ReplicaSourceId) (h : ReplicaHandle)
    (s : HubStore) : Prop :=
  ∃ row ∈ (s.load source collection).placements, row.handle = h ∧ row.status ≠ .clean

/-- The pending remove is kept: the member its server holds is to be removed or is the item's own, and
no run that follows leaves it beside the member appended, with nothing pending for it. -/
structure KeepsRemove (collection : ReplicaCollectionId) (source : ReplicaSourceId)
    (link : ReplicaLinkId) (h : ReplicaHandle) (w : World) : Prop where
  kept : w.held → (∃ row ∈ (w.store.load source collection).placements, row.handle = h ∧
      row.status = .tombstone ∧ row.base.isSome) ∨
    ∃ item, w.store.hub.items[link]? = some item ∧ item.boundTo source h = true
  never : ∀ w', Relation.ReflTransGen (Next collection source link h) w w' →
    ¬ (w'.held ∧ w'.appended ∧ ¬ Pending collection source h w'.store)

/-- The source's delete of an item is pending, of the member its binding is based on: what is loaded
under that handle is the item's. -/
structure PendingDelete (s : HubStore) (collection : ReplicaCollectionId) (source : ReplicaSourceId)
    (link : ReplicaLinkId) (h : ReplicaHandle) (item : ReplicaHubItem)
    (binding : ReplicaSourceBinding) : Prop where
  shared : s.hub.items[link]? = some item
  deleted : item.deleted = true
  bound : item.sources[source]? = some binding
  handle : binding.handle = h
  based : binding.base.isSome
  alone : ∀ other, other ≠ link → s.AwayAt collection source other h
  unheld : (s.residual source).rows[h]? = none

variable {collection : ReplicaCollectionId} {source : ReplicaSourceId} {link : ReplicaLinkId}
  {h : ReplicaHandle}

/-- A server that lost the member holds it no more. -/
theorem Next.held {w w' : World}
    (hnext : Relation.ReflTransGen (Next collection source link h) w w') (hw : w'.held) : w.held := by
  induction hnext with
  | refl => exact hw
  | tail _ hstep ih =>
    cases hstep with
    | sync => exact ih hw.1
    | offline => exact ih hw

/-- A pending create under the member's own handle is appended beside it. -/
theorem HubStore.Staged.leaves_both {s : HubStore} {item : ReplicaHubItem}
    {binding : ReplicaSourceBinding} (hs : s.Staged collection source link h item binding)
    {held : Prop} (hheld : held) : ∃ w', Relation.ReflTransGen (Next collection source link h)
      ⟨s, held, False⟩ w' ∧ w'.held ∧ w'.appended ∧ ¬ Pending collection source h w'.store := by
  have hg : ReplicaSync.keepBothHandle h ⟨""⟩ ≠ h := ReplicaSync.keepBothHandle_ne h ⟨""⟩
  have hgone : ¬ HubStore.quiet.Gone h := by simp [ReplicaRemoteSnapshot.Gone, HubStore.quiet]
  have hbody : ∀ (s : HubStore) (item : ReplicaHubItem) (binding : ReplicaSourceBinding)
      (o : ReplicaHash), s.Staged collection source link h item binding → item.object = some o →
      ∃ w', Next collection source link h ⟨s, held, False⟩ w' ∧ w'.held ∧ w'.appended ∧
        ¬ Pending collection source h w'.store := by
    intro s item binding o hs ho
    obtain ⟨t, s', hsyncs, hattends, hkept, happended, haway⟩ := hs.appends ho hg
    refine ⟨_, .sync hsyncs hattends (fun _ => hgone), ⟨hheld, hkept⟩, Or.inr happended, ?_⟩
    rintro ⟨row, hrow, hh, -⟩
    exact haway row hrow hh
  cases ho : item.object with
  | some o =>
    obtain ⟨w', hnext, hleft⟩ := hbody s item binding o hs ho
    exact ⟨w', .single hnext, hleft⟩
  | none =>
    obtain ⟨t, s', hran, item', binding', hs', ho'⟩ := hs.hydrated ho
    obtain ⟨w', hnext, hleft⟩ := hbody s' item' binding' _ hs' ho'
    refine ⟨w', .trans (.single (.offline hran (Or.inr ?_))) (.single hnext), hleft⟩
    intro c opts heq
    cases heq

end Readded

open Readded in
/-- An identity added again over its pending delete keeps the remove exactly when there is nothing
left to remove: the server no longer holds the member. -/
theorem readd_keeps_remove_iff {s s₁ : HubStore} {collection : ReplicaCollectionId}
    {source : ReplicaSourceId} {link : ReplicaLinkId} {h a : ReplicaHandle} {item : ReplicaHubItem}
    {binding : ReplicaSourceBinding} (hd : PendingDelete s collection source link h item binding)
    {flags : ReplicaFlags} {object : ReplicaObject} {body : List UInt8}
    {metadata : Option ReplicaMeta} {sortKey : ReplicaSortKey} {loaded : ReplicaLoaded}
    {t : Transcript}
    (hadd : Mutates collection (.add a link flags object body metadata sortKey) loaded t)
    (hattends : Coroutine.Attends (HubStore.service source) s t s₁) (held : Prop) :
    KeepsRemove collection source link h ⟨s₁, held, False⟩ ↔ ¬ held := by
  let p := ReplicaMutate.created collection a link flags object metadata sortKey
  obtain ⟨hwrites, hafter⟩ : t.writes = HubStore.stored object body p ∧
      s₁ = s.write source (HubStore.stored object body p) := by
    obtain ⟨ops, hstages, rfl⟩ := hadd.exchanges
    have hops : ops = HubStore.stored object body p := by
      cases hstages with
      | source names => cases names
      | add => rfl
    subst hops
    exact ⟨by simp [Transcript.writes], HubStore.attends_batches hattends⟩
  constructor
  · intro hkeeps hheld
    by_cases ha : a = h
    · subst ha
      obtain ⟨binding', hstaged⟩ := s.write_staged (p := p) source object
        body rfl (by simp [p, ReplicaMutate.created]) (by simp [p, ReplicaMutate.created]) rfl
        hd.alone hd.unheld
      rw [← hafter] at hstaged
      obtain ⟨w', hnext, hleft⟩ := HubStore.Staged.leaves_both hstaged hheld
      exact hkeeps.never w' hnext hleft
    · have hpasses : ∀ op ∈ t.writes, op.Passes h := by
        intro op hop
        rw [hwrites] at hop
        simp only [HubStore.stored, List.mem_cons, List.not_mem_nil, or_false] at hop
        rcases hop with rfl | rfl
        · trivial
        · exact ha
      have haway := HubStore.attends_away (p := p) hattends
        hpasses hd.alone hd.unheld (by rw [hwrites]; simp [HubStore.stored]) rfl
      rcases hkeeps.kept hheld with ⟨row, hrow, hh, -⟩ | ⟨i, hi, hbound⟩
      · exact haway row hrow hh
      · have hstored := s.write_stored (p := p) source object body rfl
        rw [← hafter] at hstored
        rw [hstored, Option.some.injEq] at hi
        rw [← hi, ReplicaHubItem.boundTo_iff, ReplicaHubItem.absorb_bound, Option.some.injEq] at hbound
        exact ha hbound
  · intro hlost
    exact ⟨fun hheld => absurd hheld hlost, fun w' hnext hleft => hlost (Next.held hnext hleft.1)⟩

section Runs

open Readded HubStore

/-- The source's server: it lists the card under the handle it has had, and takes a new one. -/
def cardServer : Script where
  snapshot := ⟨[⟨⟨"1"⟩, .empty, some "1"⟩], [], true, ⟨[]⟩⟩
  items := [⟨⟨"1"⟩, ⟨"ada"⟩, ⟨""⟩, .unknown, some (.inline ⟨"old"⟩ [0]), some "1"⟩]
  results := [[⟨⟨"new"⟩, .accepted, some ⟨"2"⟩, none⟩]]

/-- A card listed, learned and removed: its delete is pending. -/
def deletedCard : HubStore :=
  let s := cardServer.leaves 8 ⟨"left"⟩ (.sync ⟨"contacts"⟩ .default) (.new .manual)
  let s := cardServer.leaves 8 ⟨"left"⟩ (.upgrade ⟨"contacts"⟩ [⟨"1"⟩] .full) s
  cardServer.leaves 8 ⟨"left"⟩ (.mutate ⟨"contacts"⟩ (.remove ⟨"1"⟩)) s

theorem deletedCard_reachable : Reachable .manual deletedCard :=
  Script.leaves_reachable (Script.leaves_reachable (Script.leaves_reachable .new _ _ _ _) _ _ _ _)
    _ _ _ _

theorem deletedCard_pending : ∃ item binding,
    PendingDelete deletedCard ⟨"contacts"⟩ ⟨"left"⟩ ⟨"ada"⟩ ⟨"1"⟩ item binding := by
  have hitem : deletedCard.hub.items[(⟨"ada"⟩ : ReplicaLinkId)]?.any (fun item =>
      item.deleted && item.sources[(⟨"left"⟩ : ReplicaSourceId)]?.any (fun b =>
        decide (b.handle = ⟨"1"⟩) && b.base.isSome)) = true := by decide +kernel
  have honly : ∀ e ∈ deletedCard.hub.items.toList, e.1 = (⟨"ada"⟩ : ReplicaLinkId) := by
    decide +kernel
  have hheld : ((deletedCard.residual ⟨"left"⟩).rows[(⟨"1"⟩ : ReplicaHandle)]?).isNone = true := by
    decide +kernel
  obtain ⟨item, hget, hi⟩ := (Option.any_eq_true _ _).mp hitem
  obtain ⟨hdeleted, hbound⟩ := Bool.and_eq_true_iff.mp hi
  obtain ⟨binding, hb, hbinding⟩ := (Option.any_eq_true _ _).mp hbound
  obtain ⟨hhandle, hbased⟩ := Bool.and_eq_true_iff.mp hbinding
  refine ⟨item, binding, hget, hdeleted, hb, of_decide_eq_true hhandle, hbased, ?_,
    Option.isNone_iff_eq_none.mp hheld⟩
  intro other hne i hi
  exact absurd (honly (other, i) ((OrderedMap.mem_toList_iff _ _ _).mpr hi)) hne

/-- The same card added again, at a placeholder. -/
def readdedCard : ReplicaMutation := .add ⟨"new"⟩ ⟨"ada"⟩ .empty ⟨⟨"body"⟩, 1⟩ [1] none .unknown

/-- What adding the card again asks and is answered. -/
def readding : Transcript :=
  let p := ReplicaMutate.created ⟨"contacts"⟩ ⟨"new"⟩ ⟨"ada"⟩ .empty ⟨⟨"body"⟩, 1⟩ none .unknown
  [(.wantsLoad ⟨"contacts"⟩ readdedCard.scope, .load (deletedCard.load ⟨"left"⟩ ⟨"contacts"⟩)),
    (.wantsWrite (stored ⟨⟨"body"⟩, 1⟩ [1] p), .write)]

/-- The store the card is added again to. -/
def readdedStore : HubStore :=
  let p := ReplicaMutate.created ⟨"contacts"⟩ ⟨"new"⟩ ⟨"ada"⟩ .empty ⟨⟨"body"⟩, 1⟩ none .unknown
  deletedCard.write ⟨"left"⟩ (stored ⟨⟨"body"⟩, 1⟩ [1] p)

/-- The add is taken: only the tombstone holds the link id. -/
theorem readding_mutates : Mutates ⟨"contacts"⟩ readdedCard
    (deletedCard.load ⟨"left"⟩ ⟨"contacts"⟩) readding :=
  Stages.mutates (.add _ _ _ _ _ _ _ (by decide +kernel))

theorem readding_attends :
    Coroutine.Attends (service ⟨"left"⟩) deletedCard readding readdedStore :=
  .own rfl (.own rfl (.nil _))

/-- The next sync appends the card beside the member its delete was of, and nothing is pending of
that. -/
theorem readded_beside : ∃ w, Next ⟨"contacts"⟩ ⟨"left"⟩ ⟨"ada"⟩ ⟨"1"⟩
    ⟨readdedStore, True, False⟩ w ∧ w.held ∧ w.appended ∧
      ¬ Readded.Pending ⟨"contacts"⟩ ⟨"left"⟩ ⟨"1"⟩ w.store := by
  have hthen : (cardServer.syncs 8 ⟨"left"⟩ ⟨"contacts"⟩ .default readdedStore).any (fun out =>
      out.2.accepted.any (fun e => decide (e.1 = .add ⟨"new"⟩ (some ⟨"ada"⟩) .empty none
        (some ⟨"body"⟩))) &&
      out.2.accepted.all (fun e => decide (e.1.handle = ⟨"new"⟩)) &&
      (out.1.load ⟨"left"⟩ ⟨"contacts"⟩).placements.all (fun row =>
        decide (row.status = .clean))) = true := by decide +kernel
  obtain ⟨⟨s', t⟩, hd, hseen⟩ := (Option.any_eq_true _ _).mp hthen
  simp only [Bool.and_eq_true, List.any_eq_true, List.all_eq_true, decide_eq_true_eq] at hseen
  obtain ⟨⟨⟨e, he, hadd⟩, hown⟩, hclean⟩ := hseen
  obtain ⟨hsyncs, hattends⟩ := Script.syncs_spec hd
  have htold : ¬ cardServer.snapshot.Gone ⟨"1"⟩ := by
    rw [ReplicaRemoteSnapshot.Gone]
    decide
  refine ⟨_, .sync hsyncs hattends (fun _ => htold), ⟨trivial, ?_⟩,
    Or.inr ⟨e, he, _, _, _, _, hadd⟩, ?_⟩
  · rintro e he ⟨dest, l, ifMatch, hremove⟩
    have hhandle := hown e he
    rw [hremove] at hhandle
    have hne : (⟨"1"⟩ : ReplicaHandle) ≠ ⟨"new"⟩ := by decide
    exact hne hhandle
  · rintro ⟨row, hrow, -, hstatus⟩
    exact hstatus (hclean row hrow)

/-- A card added again over its pending delete leaves both members on the server. -/
theorem readd_leaves_both : ∃ s item binding s₁ t, Reachable .manual s ∧
    PendingDelete s ⟨"contacts"⟩ ⟨"left"⟩ ⟨"ada"⟩ ⟨"1"⟩ item binding ∧
    Mutates ⟨"contacts"⟩ readdedCard (s.load ⟨"left"⟩ ⟨"contacts"⟩) t ∧
    Coroutine.Attends (service ⟨"left"⟩) s t s₁ ∧
    ¬ KeepsRemove ⟨"contacts"⟩ ⟨"left"⟩ ⟨"ada"⟩ ⟨"1"⟩ ⟨s₁, True, False⟩ := by
  obtain ⟨item, binding, hpending⟩ := deletedCard_pending
  refine ⟨_, item, binding, _, _, deletedCard_reachable, hpending, readding_mutates,
    readding_attends, ?_⟩
  intro hkeeps
  obtain ⟨w, hnext, hleft⟩ := readded_beside
  exact hkeeps.never w (.single hnext) hleft

theorem readd_of_lost_member :
    KeepsRemove ⟨"contacts"⟩ ⟨"left"⟩ ⟨"ada"⟩ ⟨"1"⟩ ⟨readdedStore, False, False⟩ := by
  obtain ⟨item, binding, hpending⟩ := deletedCard_pending
  exact (readd_keeps_remove_iff hpending readding_mutates readding_attends False).mpr not_false

end Runs

end IoReplica

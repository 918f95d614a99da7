import IoReplica.Store

/-! The rekey coroutine: a collection rebuilt onto a new handle space, its local state carried over
by link id. -/
namespace IoReplica

structure ReplicaRekeyReport where
  rekeyed : ℕ
  pulled : ℕ
  dropped : ℕ
  deriving DecidableEq

inductive RekeyState
  | start | pendingLoad | pendingEnumerate | pendingFetch | pendingWrite | done
  deriving DecidableEq

/-- The rekey coroutine. `panicked` records an `expect` reached with nothing there. -/
structure ReplicaRekey where
  collection : ReplicaCollectionId
  old : List ReplicaPlacement
  items : List ReplicaRemoteItem
  checkpoint : Option ReplicaCheckpoint
  report : ReplicaRekeyReport
  state : RekeyState
  panicked : Bool

/-- What a meta fetch resolves of one new handle. -/
structure Resolved where
  linkId : ReplicaLinkId
  metadata : ReplicaMeta
  sortKey : ReplicaSortKey
  deriving DecidableEq

/-- The link ids a fetch resolved, by new handle: a handle replied twice keeps its last reply. -/
def resolveLinks (fetched : List ReplicaFetchedItem) : HandleMap Resolved :=
  fetched.foldl (fun m f => m.insert f.handle ⟨f.linkId, f.metadata, f.sortKey⟩) ∅

namespace ReplicaRekey

def new (collection : ReplicaCollectionId) : ReplicaRekey where
  collection := collection
  old := []
  items := []
  checkpoint := none
  report := ⟨0, 0, 0⟩
  state := .start
  panicked := false

/-- Does the old row hold a staged edit the match has to give a home? -/
def edited (p : ReplicaPlacement) : Bool :=
  (decide (p.status = .dirty) || decide (p.status = .conflict)) && p.object.isSome &&
    p.base.all (fun base => decide (base.object ≠ p.object))

/-- The status a carried row takes: the pending ones stay pending. -/
def carriedStatus (old : ReplicaPlacement) (flags itemFlags : ReplicaFlags) : ReplicaStatus :=
  let contentEdit := decide (old.status = .dirty) && old.object.isSome &&
    old.base.all (fun base => decide (base.object ≠ old.object))
  match old.status with
  | .tombstone => .tombstone
  | .conflict => .conflict
  | _ => if contentEdit then .dirty else if flags ≠ itemFlags then .dirty else .clean

/-- Carries an old placement onto the new handle: the cache survives, the flag delta re-derives
against the new base. -/
def carry (self : ReplicaRekey) (old : ReplicaPlacement) (item : ReplicaRemoteItem)
    (resolved : Option Resolved) : ReplicaPlacement :=
  let flags := ReplicaFlags.merge (old.baseFlags.getD .empty) old.flags item.flags
  let status := carriedStatus old flags item.flags
  let conflictRevision := if status = .conflict then item.revision else none
  { collection := self.collection
    handle := item.handle
    linkId := old.linkId
    object := old.object
    level := old.level
    sortKey := (resolved.map (·.sortKey)).getD old.sortKey
    metadata := (resolved.map (·.metadata)).or old.metadata
    flags := flags
    status := status
    conflictRevision := conflictRevision
    -- the diverging body describes the revision recorded beside it
    conflictObject := if conflictRevision = old.conflictRevision then old.conflictObject else none
    base := some ⟨item.flags, item.revision, old.baseObject⟩
    origin := old.origin }

/-- The placement of a new member no old one stands for. -/
def fresh (self : ReplicaRekey) (item : ReplicaRemoteItem) (resolved : Option Resolved) :
    ReplicaPlacement where
  collection := self.collection
  handle := item.handle
  linkId := resolved.map (·.linkId)
  object := none
  level := if resolved.isSome then .metadata else .probed
  metadata := resolved.map (·.metadata)
  sortKey := (resolved.map (·.sortKey)).getD .unknown
  flags := item.flags
  status := .clean
  conflictRevision := none
  conflictObject := none
  base := some ⟨item.flags, item.revision, none⟩
  origin := none

/-- An unmatched staged edit, surviving as a pending create under its old handle. -/
def resurrected (p : ReplicaPlacement) : ReplicaPlacement :=
  { p with
    status := .created
    conflictRevision := none
    conflictObject := none
    base := none
    origin := none }

/-- The locals of a rebuild: the old rows still to match, and what the batch wrote so far. -/
structure Spine where
  byLink : LinkMap ReplicaPlacement
  written : Finset ReplicaHandle
  carriedOver : Finset ReplicaHandle
  writes : List ReplicaWriteOp
  report : ReplicaRekeyReport

namespace Spine

/-- The old rows by link id: a link held twice keeps its last holder. -/
def ofRows (old : List ReplicaPlacement) (report : ReplicaRekeyReport) : Spine where
  byLink := old.foldl (fun m p => p.linkId.elim m (fun link => m.insert link p)) ∅
  written := ∅
  carriedOver := ∅
  writes := []
  report := report

/-- Takes the old row that resolves to the same logical item. -/
def takeMatch (sp : Spine) (resolved : Option Resolved) : Option ReplicaPlacement × Spine :=
  match resolved with
  | some r => (sp.byLink[r.linkId]?, { sp with byLink := sp.byLink.erase r.linkId })
  | none => (none, sp)

/-- Writes one new member, carried over when an old row matches it. -/
def member (self : ReplicaRekey) (links : HandleMap Resolved) (sp : Spine)
    (item : ReplicaRemoteItem) : Spine :=
  let resolved := links[item.handle]?
  let (carried, sp) := sp.takeMatch resolved
  let sp := { sp with written := insert item.handle sp.written }
  match carried with
  | some old =>
    { sp with
      carriedOver := insert old.handle sp.carriedOver
      writes := sp.writes ++ [.upsertPlacement (self.carry old item resolved)]
      report := { sp.report with rekeyed := sp.report.rekeyed + 1 } }
  | none =>
    { sp with
      writes := sp.writes ++ [.upsertPlacement (self.fresh item resolved)]
      report := { sp.report with pulled := sp.report.pulled + 1 } }

/-- Gives an unmatched staged edit its pending create. -/
def resurrect (sp : Spine) (p : ReplicaPlacement) : Spine :=
  if p.handle ∈ sp.carriedOver then sp
  else if edited p then
    { sp with
      written := insert p.handle sp.written
      carriedOver := insert p.handle sp.carriedOver
      writes := sp.writes ++ [.upsertPlacement (resurrected p)]
      report := { sp.report with rekeyed := sp.report.rekeyed + 1 } }
  else sp

end Spine

/-- The drop of an old row the batch does not write itself. -/
def supersede (collection : ReplicaCollectionId) (written : Finset ReplicaHandle)
    (p : ReplicaPlacement) : Option ReplicaWriteOp :=
  if p.handle ∈ written then none
  else some (.dropPlacement collection p.handle .superseded)

/-- Builds the write batch: every new member, every unmatched staged edit, the drops of the old
spine, and the checkpoint. Pending creates are local staging, not spine. -/
def rebuild (self : ReplicaRekey) (links : HandleMap Resolved) :
    ReplicaRekey × List ReplicaWriteOp :=
  let old := self.old.filter (fun p => p.status ≠ .created)
  let sp := self.items.foldl (Spine.member self links) (Spine.ofRows old self.report)
  let sp := old.foldl Spine.resurrect sp
  let dropped := old.countP (fun p => p.status ≠ .clean ∧ p.handle ∉ sp.carriedOver)
  let writes := sp.writes ++ old.filterMap (supersede self.collection sp.written)
  let rebuilt := { self with
    old := []
    items := []
    checkpoint := none
    report := { sp.report with dropped := sp.report.dropped + dropped } }
  match self.checkpoint with
  | some checkpoint => (rebuilt, writes ++ [.setCheckpoint self.collection checkpoint])
  | none => ({ rebuilt with panicked := true }, writes)

abbrev Step := ReplicaCoroutineState ReplicaYield (Except ReplicaArgError ReplicaRekeyReport)

def resume (self : ReplicaRekey) (arg : Option ReplicaArg) : ReplicaRekey × Step :=
  match self.state, arg with
  | .start, none =>
    ({ self with state := .pendingLoad }, .yielded (.wantsLoad self.collection .all))
  | .pendingLoad, some (.load loaded) =>
    ({ self with old := loaded.placements, state := .pendingEnumerate },
      .yielded (.wantsEnumerate self.collection none))
  | .pendingEnumerate, some (.enumerate snapshot) =>
    let self := { self with items := snapshot.items, checkpoint := some snapshot.checkpoint }
    if self.old.any (fun p => p.linkId.isSome) then
      ({ self with state := .pendingFetch },
        .yielded (.wantsFetch self.collection (self.items.map (·.handle)) .metadata))
    else
      let (self, writes) := { self with state := .pendingWrite }.rebuild ∅
      (self, .yielded (.wantsWrite writes))
  | .pendingFetch, some (.fetch fetched) =>
    let (self, writes) := { self with state := .pendingWrite }.rebuild (resolveLinks fetched)
    (self, .yielded (.wantsWrite writes))
  | .pendingWrite, some .write => ({ self with state := .done }, .complete (.ok self.report))
  | _, some _ => (self, .complete (.error .unexpectedArg))
  | _, none => (self, .complete (.error .missingArg))

end ReplicaRekey

/-- A completed rekey: what it loaded, what the remote enumerated, and every exchange. -/
def Rekeys (collection : ReplicaCollectionId) (loaded : ReplicaLoaded)
    (snapshot : ReplicaRemoteSnapshot) (t : Transcript) : Prop :=
  ∃ rest report, t = (.wantsLoad collection .all, .load loaded) ::
      (.wantsEnumerate collection none, .enumerate snapshot) :: rest ∧
    Coroutine.Runs ReplicaRekey.resume (ReplicaRekey.new collection) none t (.ok report)

namespace ReplicaRekey

/-- The coroutine as it stands once the new spine is enumerated. -/
def enumerated (collection : ReplicaCollectionId) (loaded : ReplicaLoaded)
    (snapshot : ReplicaRemoteSnapshot) : ReplicaRekey :=
  { new collection with
    old := loaded.placements
    items := snapshot.items
    checkpoint := some snapshot.checkpoint
    state := .pendingWrite }

end ReplicaRekey

/-- Whatever is loaded, enumerated and fetched, the run completes. The fetch is skipped when no old
row has a link id to match by. -/
theorem rekeys_total (collection : ReplicaCollectionId) (loaded : ReplicaLoaded)
    (snapshot : ReplicaRemoteSnapshot) (fetched : List ReplicaFetchedItem) :
    ∃ t, Rekeys collection loaded snapshot t ∧
      t.fetched = if loaded.placements.any (fun p => p.linkId.isSome) then fetched else [] := by
  let asked : ReplicaRekey :=
    { ReplicaRekey.new collection with old := loaded.placements, state := .pendingEnumerate }
  let built (links : HandleMap Resolved) :=
    (ReplicaRekey.enumerated collection loaded snapshot).rebuild links
  have hwrite : ∀ links, Coroutine.Runs ReplicaRekey.resume (built links).1 (some .write) []
      (.ok (built links).1.report) := fun links => .done rfl
  cases hlinked : loaded.placements.any (fun p => p.linkId.isSome) with
  | false =>
    have hask : asked.resume (some (.enumerate snapshot)) =
        ((built ∅).1, .yielded (.wantsWrite (built ∅).2)) := by
      simp only [ReplicaRekey.resume, asked, hlinked]
      rfl
    exact ⟨_, ⟨_, _, rfl, .ask rfl (.ask rfl (.ask hask (hwrite ∅)))⟩, rfl⟩
  | true =>
    let waiting : ReplicaRekey :=
      { ReplicaRekey.enumerated collection loaded snapshot with state := .pendingFetch }
    have hask : asked.resume (some (.enumerate snapshot)) =
        (waiting, .yielded (.wantsFetch collection (snapshot.items.map (·.handle)) .metadata)) := by
      simp only [ReplicaRekey.resume, asked, hlinked]
      rfl
    have hfetch : waiting.resume (some (.fetch fetched)) =
        ((built (resolveLinks fetched)).1,
          .yielded (.wantsWrite (built (resolveLinks fetched)).2)) := rfl
    exact ⟨_, ⟨_, _, rfl, .ask rfl (.ask rfl (.ask hask (.ask hfetch (hwrite _))))⟩,
      by simp [Transcript.fetched]⟩

/-- Every completed run is one of what it loaded and what the remote enumerated. -/
theorem runs_rekeys {collection : ReplicaCollectionId} {t : Transcript}
    {report : ReplicaRekeyReport}
    (h : Coroutine.Runs ReplicaRekey.resume (ReplicaRekey.new collection) none t (.ok report)) :
    ∃ loaded snapshot, Rekeys collection loaded snapshot t := by
  obtain ⟨b, u, rfl, hload⟩ := h.ends
  obtain ⟨loaded, rfl⟩ : ∃ loaded, b = .load loaded := by
    cases b with
    | load loaded => exact ⟨loaded, rfl⟩
    | enumerate | fetch | push | write | lookupObject => exact absurd hload.ends.2 (by simp)
  obtain ⟨b', v, rfl, henumerate⟩ := hload.ends
  obtain ⟨snapshot, rfl⟩ : ∃ snapshot, b' = .enumerate snapshot := by
    cases b' with
    | enumerate snapshot => exact ⟨snapshot, rfl⟩
    | load | fetch | push | write | lookupObject => exact absurd henumerate.ends.2 (by simp)
  exact ⟨loaded, snapshot, v, report, rfl, h⟩

/-- A completed run writes the one batch its rebuild makes of the links it fetched. -/
theorem Rekeys.writes {collection : ReplicaCollectionId} {loaded : ReplicaLoaded}
    {snapshot : ReplicaRemoteSnapshot} {t : Transcript} (h : Rekeys collection loaded snapshot t) :
    t.writes = ((ReplicaRekey.enumerated collection loaded snapshot).rebuild
      (resolveLinks t.fetched)).2 := by
  obtain ⟨rest, report, rfl, hruns⟩ := h
  obtain ⟨b, u, hload, hruns⟩ := hruns.ends
  cases hload
  obtain ⟨b', u', henumerate, hruns⟩ := hruns.ends
  cases henumerate
  have hends := hruns.ends
  simp only [ReplicaRekey.resume] at hends
  split at hends
  · obtain ⟨b, v, rfl, hfetch⟩ := hends
    obtain ⟨fetched, rfl⟩ : ∃ fetched, b = .fetch fetched := by
      cases b with
      | fetch fetched => exact ⟨fetched, rfl⟩
      | load | enumerate | push | write | lookupObject => exact absurd hfetch.ends.2 (by simp)
    obtain ⟨b', w, rfl, hwrite⟩ := hfetch.ends
    cases b' with
    | write =>
      obtain ⟨rfl, -⟩ := hwrite.ends
      simp only [Transcript.fetched, List.flatMap_cons, List.flatMap_nil, List.nil_append,
        List.append_nil]
      exact List.append_nil _
    | load | enumerate | push | fetch | lookupObject => exact absurd hwrite.ends.2 (by simp)
  · obtain ⟨b', w, rfl, hwrite⟩ := hends
    cases b' with
    | write =>
      obtain ⟨rfl, -⟩ := hwrite.ends
      exact List.append_nil _
    | load | enumerate | push | fetch | lookupObject => exact absurd hwrite.ends.2 (by simp)

end IoReplica

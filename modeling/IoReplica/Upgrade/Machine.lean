import IoReplica.Library.Listing
import IoReplica.Store

/-! The upgrade coroutine: placements raised to a higher detail level, and identities settled. -/
namespace IoReplica

structure ReplicaUpgradeReport where
  upgraded : ℕ
  fetched : ℕ
  deduped : ℕ
  deriving DecidableEq

inductive UpgradeState
  | start | pendingLoad | pendingLookup | pendingFetch | pendingLinkCheck | pendingWrite | done
  deriving DecidableEq

structure ReplicaUpgrade where
  collection : ReplicaCollectionId
  handles : List ReplicaHandle
  tier : ReplicaTier
  placements : HandleMap ReplicaPlacement
  fetched : List ReplicaFetchedItem
  ops : List ReplicaWriteOp
  report : ReplicaUpgradeReport
  state : UpgradeState

/-- Splits a fetched body into the object to record and the bytes to store. -/
def storedBody : ReplicaFetchedBody → ReplicaObject × Option (List UInt8)
  | .inline hash bytes => (⟨hash, bytes.length⟩, some bytes)
  | .persisted hash size => (⟨hash, size⟩, none)

namespace ReplicaUpgrade

def new (collection : ReplicaCollectionId) (handles : List ReplicaHandle) (tier : ReplicaTier) :
    ReplicaUpgrade where
  collection := collection
  handles := handles
  tier := tier
  placements := ∅
  fetched := []
  ops := []
  report := ⟨0, 0, 0⟩
  state := .start

/-- The link id of a second copy: the hint it shares, and its own handle. -/
def mint (hint : ReplicaLinkId) (handle : ReplicaHandle) : ReplicaLinkId :=
  ⟨"dup:" ++ hint.asStr ++ "#" ++ handle.asStr⟩

/-- The placement holds the local side of a divergence. -/
def isConflicted (p : ReplicaPlacement) : Bool := decide (p.status = .conflict)

/-- The source rewrites the body in place, which a last-synced revision is the mark of. -/
def isMutable (p : ReplicaPlacement) : Bool := p.base.any (·.revision.isSome)

/-- Does the placement still need work for the tier? -/
def pending (tier : ReplicaTier) (p : ReplicaPlacement) : Bool :=
  match tier with
  | .metadata => decide (p.level < .metadata) || p.metadata.isNone
  | .full =>
    if isConflicted p then p.conflictObject.isNone
    else decide (p.level < .full) || p.object.isNone

def pendingHandles (self : ReplicaUpgrade) : List ReplicaHandle :=
  self.handles.filter (fun h => self.placements[h]?.any (pending self.tier))

/-- The link id a body already stored may be looked up by. -/
def lookupLink (p : ReplicaPlacement) : Option ReplicaLinkId :=
  if !isMutable p && !isConflicted p then p.linkId else none

/-- The stored body a lookup found for the placement's link id. -/
def knownBody (known : LinkMap ReplicaHash) (p : ReplicaPlacement) : Option ReplicaHash :=
  (lookupLink p).bind (fun link => known[link]?)

/-- A body linked from the store. The base moves with it: it is the item's synced content. -/
def linked (p : ReplicaPlacement) (hash : ReplicaHash) : ReplicaPlacement :=
  { p with
    base := p.base.map (fun base => { base with object := some hash })
    object := some hash
    level := .full }

/-- Links one pending placement from the store, or leaves it to the fetch. -/
def lookUp (known : LinkMap ReplicaHash) (acc : ReplicaUpgrade × List ReplicaHandle)
    (h : ReplicaHandle) : ReplicaUpgrade × List ReplicaHandle :=
  let (self, toFetch) := acc
  match self.placements[h]? with
  | none => (self, toFetch)
  | some p =>
    match knownBody known p with
    | some hash =>
      ({ self with
          ops := self.ops ++ [.upsertPlacement (linked p hash)]
          report := { self.report with
            upgraded := self.report.upgraded + 1
            deduped := self.report.deduped + 1 } },
        toFetch)
    | none => (self, toFetch ++ [h])

/-- Links a placement the fetch is the first to identify. A link another one holds is not taken: the
copy gets a minted one. -/
def identify (claimed : LinkMap ReplicaHandle) (p : ReplicaPlacement) (item : ReplicaFetchedItem) :
    LinkMap ReplicaHandle × ReplicaPlacement :=
  match p.linkId with
  | some _ => (claimed, p)
  | none =>
    let linkId := if claimed.contains item.linkId then mint item.linkId item.handle else item.linkId
    (claimed.insert linkId item.handle, { p with linkId := some linkId })

/-- The summary and the sort key are refreshed on every tier. -/
def summarised (p : ReplicaPlacement) (item : ReplicaFetchedItem) : ReplicaPlacement :=
  { p with metadata := some item.metadata, sortKey := item.sortKey }

/-- The remote content as of the fetch, recorded on the placement and its base. -/
def filled (p : ReplicaPlacement) (hash : ReplicaHash) (revision : Option String) :
    ReplicaPlacement :=
  { p with
    base := p.base.map (fun base => { base with revision := revision, object := some hash })
    object := some hash
    level := .full }

/-- Writes one fetched item, the links claimed so far beside it. -/
def writeItem (acc : LinkMap ReplicaHandle × ReplicaUpgrade) (item : ReplicaFetchedItem) :
    LinkMap ReplicaHandle × ReplicaUpgrade :=
  let (claimed, self) := acc
  let report := { self.report with
    fetched := self.report.fetched + 1
    upgraded := self.report.upgraded + 1 }
  match self.placements[item.handle]? with
  | none => (claimed, self)
  | some placement =>
    if self.tier = .full ∧ isConflicted placement = true then
      match item.body with
      | none => (claimed, self)
      | some body =>
        let (object, bytes) := storedBody body
        (claimed, { self with
          ops := self.ops ++ [.storeObject object bytes,
            .upsertPlacement { placement with conflictObject := some object.hash }]
          report := report })
    else
      let (claimed, patched) := identify claimed placement item
      let patched := summarised patched item
      match self.tier, item.body with
      | .full, some body =>
        let (object, bytes) := storedBody body
        (claimed, { self with
          ops := self.ops ++ [.storeObject object bytes,
            .upsertPlacement (filled patched object.hash item.revision)]
          report := report })
      | _, _ =>
        (claimed, { self with
          ops := self.ops ++ [.upsertPlacement { patched with level := .metadata }]
          report := report })

/-- The links the collection already holds, each by its last holder. -/
def claims (placements : HandleMap ReplicaPlacement) : LinkMap ReplicaHandle :=
  placements.toList.foldl
    (fun m e => e.2.linkId.elim m (fun link => m.insert link e.2.handle)) ∅

abbrev Step := ReplicaCoroutineState ReplicaYield (Except ReplicaArgError ReplicaUpgradeReport)

def yieldWrite (self : ReplicaUpgrade) : ReplicaUpgrade × Step :=
  ({ self with ops := [], state := .pendingWrite }, .yielded (.wantsWrite self.ops))

/-- Applies the fetched items in handle order and yields the write batch. -/
def writeFetched (self : ReplicaUpgrade) : ReplicaUpgrade × Step :=
  let fetched := self.fetched.insertionSort (fun a b => a.handle ≤ b.handle)
  (fetched.foldl writeItem (claims self.placements, { self with fetched := [] })).2.yieldWrite

def yieldFetch (self : ReplicaUpgrade) (handles : List ReplicaHandle) : ReplicaUpgrade × Step :=
  ({ self with state := .pendingFetch },
    .yielded (.wantsFetch self.collection handles self.tier))

/-- The link ids a fetch would newly establish. -/
def freshLinks (self : ReplicaUpgrade) (items : List ReplicaFetchedItem) : List ReplicaLinkId :=
  (items.filter (fun item => self.placements[item.handle]?.any (·.linkId.isNone))).map (·.linkId)

/-- Folds in a holder the upgrade never named. -/
def foldIn (m : HandleMap ReplicaPlacement) (p : ReplicaPlacement) : HandleMap ReplicaPlacement :=
  if p.handle ∈ m then m else m.insert p.handle p

def resume (self : ReplicaUpgrade) (arg : Option ReplicaArg) : ReplicaUpgrade × Step :=
  match self.state, arg with
  | .start, none =>
    ({ self with state := .pendingLoad },
      .yielded (.wantsLoad self.collection (.handles self.handles)))
  | .pendingLoad, some (.load loaded) =>
    let self := { self with placements := collectPlacements loaded.placements }
    let pending := self.pendingHandles
    if pending.isEmpty then ({ self with state := .done }, .complete (.ok self.report))
    else
      match self.tier with
      | .metadata => self.yieldFetch pending
      | .full =>
        let links := pending.filterMap (fun h => self.placements[h]?.bind lookupLink)
        if links.isEmpty then self.yieldFetch pending
        else ({ self with state := .pendingLookup }, .yielded (.wantsLookupObject links))
  | .pendingLookup, some (.lookupObject known) =>
    let (self, toFetch) := self.pendingHandles.foldl (lookUp known) (self, [])
    if toFetch.isEmpty then self.yieldWrite else self.yieldFetch toFetch
  | .pendingFetch, some (.fetch items) =>
    let fresh := self.freshLinks items
    let self := { self with fetched := items }
    if fresh.isEmpty then self.writeFetched
    else
      ({ self with state := .pendingLinkCheck },
        .yielded (.wantsLoad self.collection (.links fresh)))
  | .pendingLinkCheck, some (.load loaded) =>
    { self with placements := loaded.placements.foldl foldIn self.placements }.writeFetched
  | .pendingWrite, some .write => ({ self with state := .done }, .complete (.ok self.report))
  | _, some _ => (self, .complete (.error .unexpectedArg))
  | _, none => (self, .complete (.error .missingArg))

end ReplicaUpgrade
end IoReplica

import IoReplica.Hub.Model
import IoReplica.Mutate
import IoReplica.Sync.Machine
import IoReplica.Upgrade.Machine

/-! A hub-backed storage: each source loads a projection and its writes are absorbed, the rows no
link id has hubbed yet kept beside. -/
namespace IoReplica

/-- The store behind every source: one hub, the rows still unlinked and a checkpoint per source. -/
structure HubStore where
  hub : ReplicaHub
  residual : ReplicaSourceId → CollectionRows
  checkpoints : ReplicaSourceId → ReplicaCollectionId → Option ReplicaCheckpoint

/-- Is the item bound to this handle at this source? -/
def ReplicaHubItem.boundTo (item : ReplicaHubItem) (source : ReplicaSourceId)
    (handle : ReplicaHandle) : Bool :=
  item.sources[source]?.any (fun b => decide (b.handle = handle))

/-- The link id of the item a source holds under a handle. -/
def ReplicaHub.linkOf (hub : ReplicaHub) (source : ReplicaSourceId) (handle : ReplicaHandle) :
    Option ReplicaLinkId :=
  (hub.items.toList.find? (fun e => e.2.boundTo source handle)).map (·.1)

namespace HubStore

def new (conflict : ReplicaHubConflict) : HubStore :=
  ⟨.empty conflict, fun _ => .empty, fun _ _ => none⟩

/-- A source's view of the store: the hub's projection, then its unlinked rows. -/
def load (s : HubStore) (source : ReplicaSourceId) (collection : ReplicaCollectionId) :
    ReplicaLoaded where
  placements := s.hub.project collection source ++
    (s.residual source).placements.filter (fun p => p.collection = collection)
  checkpoint := s.checkpoints source collection

/-- The shared bodies stored under the links asked for. -/
def lookupObjects (s : HubStore) (links : List ReplicaLinkId) : LinkMap ReplicaHash :=
  links.foldl (fun known link =>
    ((s.hub.items[link]?.bind (·.object)).map (known.insert link)).getD known) ∅

/-- An unlinked upsert of a handle the source is bound to is that item pulled again. -/
def keyBack (hub : ReplicaHub) (source : ReplicaSourceId) : ReplicaWriteOp → ReplicaWriteOp
  | .upsertPlacement p =>
    .upsertPlacement
      (if p.linkId.isNone then { p with linkId := hub.linkOf source p.handle } else p)
  | op => op

/-- A row the hub cannot key is held beside it until a link id hubs it. -/
def holdRow (rows : CollectionRows) : ReplicaWriteOp → CollectionRows
  | .upsertPlacement p =>
    if p.linkId.isSome then rows.write (.dropPlacement p.collection p.handle .superseded)
    else rows.write (.upsertPlacement p)
  | op => rows.write op

def setCheckpoint (checkpoints : ReplicaCollectionId → Option ReplicaCheckpoint) :
    ReplicaWriteOp → ReplicaCollectionId → Option ReplicaCheckpoint
  | .setCheckpoint collection checkpoint =>
    Function.update checkpoints collection (some checkpoint)
  | _ => checkpoints

def write (s : HubStore) (source : ReplicaSourceId) (ops : List ReplicaWriteOp) : HubStore :=
  let ops := ops.map (keyBack s.hub source)
  { hub := s.hub.absorb source ops
    residual := Function.update s.residual source (ops.foldl holdRow (s.residual source))
    checkpoints :=
      Function.update s.checkpoints source (ops.foldl setCheckpoint (s.checkpoints source)) }

/-- Services the storage seam for one source. -/
def service (source : ReplicaSourceId) (s : HubStore) : ReplicaYield → Option (HubStore × ReplicaArg)
  | .wantsLoad collection _ => some (s, .load (s.load source collection))
  | .wantsLookupObject links => some (s, .lookupObject (s.lookupObjects links))
  | .wantsWrite ops => some (s.write source ops, .write)
  | .wantsEnumerate .. | .wantsFetch .. | .wantsPush .. => none

end HubStore

/-- A verb a source runs over the store. -/
inductive Verb
  | mutate (collection : ReplicaCollectionId) (mutation : ReplicaMutation)
  | sync (collection : ReplicaCollectionId) (opts : ReplicaSyncOptions)
  | upgrade (collection : ReplicaCollectionId) (handles : List ReplicaHandle) (tier : ReplicaTier)

/-- A whole run of the verb, whatever its outcome. -/
def Verb.Runs : Verb → Transcript → Prop
  | .mutate collection mutation, t =>
    ∃ r, Coroutine.Runs ReplicaMutate.resume (.new collection mutation) none t r
  | .sync collection opts, t =>
    ∃ r, Coroutine.Runs ReplicaSync.resume (.new collection opts) none t r
  | .upgrade collection handles tier, t =>
    ∃ r, Coroutine.Runs ReplicaUpgrade.resume (.new collection handles tier) none t r

namespace HubStore

/-- A whole run of a source over the store, whatever its remote answers. -/
structure Ran (source : ReplicaSourceId) (verb : Verb) (s : HubStore) (t : Transcript)
    (s' : HubStore) : Prop where
  runs : verb.Runs t
  attends : Coroutine.Attends (service source) s t s'

/-- The stores whole runs of any sources lead to. -/
inductive Reachable (conflict : ReplicaHubConflict) : HubStore → Prop
  | new : Reachable conflict (.new conflict)
  | run {s s' : HubStore} {source : ReplicaSourceId} {verb : Verb} {t : Transcript}
      (reachable : Reachable conflict s) (ran : Ran source verb s t s') : Reachable conflict s'

/-- What every write keeps, every reachable store has. -/
theorem Reachable.stores {conflict : ReplicaHubConflict} {P : HubStore → Prop}
    (hnew : P (.new conflict)) (hwrite : ∀ s source ops, P s → P (s.write source ops))
    {s : HubStore} (h : Reachable conflict s) : P s := by
  induction h with
  | new => exact hnew
  | @run s s' source verb t _ ran ih =>
    refine ran.attends.invariant ?_ ih
    intro s y s' a hs hy
    cases y with
    | wantsLoad | wantsLookupObject =>
      cases hy
      exact hs
    | wantsWrite ops =>
      cases hy
      exact hwrite _ _ _ hs
    | wantsEnumerate | wantsFetch | wantsPush => cases hy

/-- What every absorb keeps, every reachable hub has. -/
theorem Reachable.invariant {conflict : ReplicaHubConflict} {P : ReplicaHub → Prop}
    (hempty : P (.empty conflict)) (habsorb : ∀ hub source ops, P hub → P (hub.absorb source ops))
    {s : HubStore} (h : Reachable conflict s) : P s.hub :=
  h.stores (P := fun s => P s.hub) hempty (fun _ _ _ hs => habsorb _ _ _ hs)

end HubStore

namespace ReplicaHub

/-- Every item of the hub. -/
def All (P : ReplicaHubItem → Prop) (hub : ReplicaHub) : Prop :=
  ∀ (link : ReplicaLinkId) (item : ReplicaHubItem), hub.items[link]? = some item → P item

/-- What an upsert and a drop keep of the item they fold into, every item keeps. -/
theorem All.absorb {P : ReplicaHubItem → Prop} {policy : ReplicaHubConflict}
    (hnew : ∀ p, P (.ofPlacement p))
    (hupsert : ∀ item source p, P item → P (item.absorb policy source p))
    (hdrop : ∀ item source handle reason, P item → P (item.dropBinding source handle reason))
    {hub : ReplicaHub} (hpolicy : hub.conflict = policy) (h : hub.All P)
    (source : ReplicaSourceId) (ops : List ReplicaWriteOp) :
    (hub.absorb source ops).All P ∧ (hub.absorb source ops).conflict = policy := by
  suffices hfold : ∀ hub : ReplicaHub, hub.conflict = policy → hub.All P →
      (ops.foldl (fun hub op => hub.absorbOp source op) hub).All P ∧
        (ops.foldl (fun hub op => hub.absorbOp source op) hub).conflict = policy by
    obtain ⟨hall, hp⟩ := hfold hub hpolicy h
    refine ⟨?_, hp⟩
    intro link item hitem
    rw [ReplicaHub.absorb, Std.ExtTreeMap.getElem?_filter'] at hitem
    exact hall link item (Option.filter_eq_some_iff.mp hitem).1
  clear h hpolicy hub
  induction ops with
  | nil => exact fun hub hp h => ⟨h, hp⟩
  | cons op ops ih =>
    intro hub hp h
    refine ih (hub.absorbOp source op) ?_ ?_
    · cases op with
      | upsertPlacement p =>
        simp only [absorbOp, absorbUpsert]
        split <;> exact hp
      | dropPlacement | storeObject | setCheckpoint => exact hp
    · cases op with
      | storeObject | setCheckpoint => exact h
      | dropPlacement c handle reason =>
        intro link item hitem
        simp only [absorbOp, absorbDrop, Std.ExtTreeMap.getElem?_map,
          Option.map_eq_some_iff] at hitem
        obtain ⟨old, hold, rfl⟩ := hitem
        exact hdrop _ _ _ _ (h link old hold)
      | upsertPlacement p =>
        intro link item hitem
        simp only [absorbOp, absorbUpsert] at hitem
        split at hitem
        · exact h link item hitem
        · rename_i own _
          simp only [OrderedMap.get_insert] at hitem
          split at hitem
          · cases hitem
            rw [hp]
            refine hupsert _ _ _ ?_
            cases hold : hub.items[own]? with
            | none => exact hnew p
            | some old => exact h own old hold
          · exact h link item hitem

end ReplicaHub
end IoReplica

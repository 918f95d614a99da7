import IoReplica.Change
import IoReplica.Library.Coroutine

/-! The coroutine contract every verb implements, with the payloads of the storage seam. -/
namespace IoReplica

/-- Which of a collection's placements a load has to return. A floor, not a ceiling. -/
inductive ReplicaLoadScope
  | all
  | handles (handles : List ReplicaHandle)
  | links (links : List ReplicaLinkId)
  deriving DecidableEq

/-- A loaded collection: its placements and its last checkpoint. -/
structure ReplicaLoaded where
  placements : List ReplicaPlacement
  checkpoint : Option ReplicaCheckpoint
  deriving DecidableEq

/-- An ordered map keyed by handle. -/
abbrev HandleMap (α : Type) := Std.ExtTreeMap ReplicaHandle α

/-- An ordered map keyed by link id. -/
abbrev LinkMap (α : Type) := Std.ExtTreeMap ReplicaLinkId α

/-- A driver that broke the coroutine contract. -/
inductive ReplicaArgError
  | unexpectedArg | missingArg
  deriving DecidableEq

/-- State yielded by a resume: an effect the driver services, or the terminal output. -/
abbrev ReplicaCoroutineState (Y R : Type) := Coroutine.Step Y R

/-- What a coroutine asks of its driver: the remote seam first, then the storage seam. -/
inductive ReplicaYield
  | wantsEnumerate (collection : ReplicaCollectionId) (cursor : Option ReplicaCheckpoint)
  | wantsFetch (collection : ReplicaCollectionId) (handles : List ReplicaHandle)
      (tier : ReplicaTier)
  | wantsPush (collection : ReplicaCollectionId) (changes : List ReplicaChange)
  | wantsLoad (collection : ReplicaCollectionId) (scope : ReplicaLoadScope)
  | wantsLookupObject (links : List ReplicaLinkId)
  | wantsWrite (ops : List ReplicaWriteOp)

/-- The driver's reply to a yield. -/
inductive ReplicaArg
  | enumerate (snapshot : ReplicaRemoteSnapshot)
  | fetch (items : List ReplicaFetchedItem)
  | push (results : List ReplicaPushResult)
  | load (loaded : ReplicaLoaded)
  | lookupObject (known : LinkMap ReplicaHash)
  | write

/-- The exchanges of one run, in order. -/
abbrev Transcript := List (ReplicaYield × ReplicaArg)

/-- One push serviced: the chunk of changes asked for, and the results reported. -/
abbrev PushExchange := List ReplicaChange × List ReplicaPushResult

/-- Every storage write a transcript asks for, in order. -/
def Transcript.writes (t : Transcript) : List ReplicaWriteOp :=
  t.flatMap (fun e => match e.1 with | .wantsWrite ops => ops | _ => [])

/-- The storage writes of a transcript, batch by batch. -/
def Transcript.batches (t : Transcript) : List (List ReplicaWriteOp) :=
  t.filterMap (fun e => match e.1 with | .wantsWrite ops => some ops | _ => none)

theorem Transcript.flatten_batches (t : Transcript) : t.batches.flatten = t.writes := by
  induction t with
  | nil => rfl
  | cons e t ih =>
    obtain ⟨y, a⟩ := e
    cases y with
    | wantsWrite ops => exact congrArg (ops ++ ·) ih
    | wantsEnumerate | wantsFetch | wantsPush | wantsLoad | wantsLookupObject => exact ih

/-- Every push a transcript gets serviced, in order. -/
def Transcript.pushes (t : Transcript) : List PushExchange :=
  t.filterMap (fun e => match e with
    | (.wantsPush _ changes, .push results) => some (changes, results)
    | _ => none)

/-- The items every fetch of a transcript replied, in order. -/
def Transcript.fetched (t : Transcript) : List ReplicaFetchedItem :=
  t.flatMap (fun e => match e.2 with | .fetch items => items | _ => [])

/-- The placements every load of a transcript replied, in order. -/
def Transcript.loaded (t : Transcript) : List ReplicaPlacement :=
  t.flatMap (fun e => match e.2 with | .load loaded => loaded.placements | _ => [])

def ReplicaArg.known? : ReplicaArg → Option (LinkMap ReplicaHash)
  | .lookupObject known => some known
  | _ => none

/-- The bodies the lookup of a transcript replied. -/
def Transcript.known (t : Transcript) : LinkMap ReplicaHash :=
  (t.findSome? (fun e => e.2.known?)).getD ∅

/-- The placements of a load, keyed by handle: a handle listed twice keeps its last row. -/
def collectPlacements (placements : List ReplicaPlacement) : HandleMap ReplicaPlacement :=
  placements.foldl (fun m p => m.insert p.handle p) ∅

end IoReplica

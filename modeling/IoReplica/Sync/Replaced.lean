import IoReplica.MemRemote
import IoReplica.Sync.Derived
import IoReplica.Sync.Seam

/-! What a push makes of the members a server holds: which versions it may replace. -/
namespace IoReplica

namespace MemRemote

variable (w : MemRemote)

/-- The server before each change of a batch. -/
def turns (c : ReplicaCollectionId) :
    List ReplicaChange → MemRemote → List (MemRemote × ReplicaChange)
  | [], _ => []
  | change :: changes, w => (w, change) :: turns c changes (w.serve c change.kind).1

/-- The server each change of a pushed batch is served by. -/
def served (c : ReplicaCollectionId) (changes : List ReplicaChange) :
    List (MemRemote × ReplicaChange) :=
  turns c changes { w with calls := w.calls + 1, pushBatches := w.pushBatches ++ [changes.length] }

@[simp] theorem put_mutable (o : ReplicaOrigin) (item : ServerItem) :
    (w.put o item).mutable = w.mutable := rfl

@[simp] theorem take_mutable (o : ReplicaOrigin) : (w.take o).mutable = w.mutable := rfl

@[simp] theorem gone_mutable (o : ReplicaOrigin) : (w.gone o).mutable = w.mutable := rfl

@[simp] theorem bump_mutable : w.bump.mutable = w.mutable := rfl

variable {w} {c : ReplicaCollectionId} {h : ReplicaHandle} {item : ServerItem} {o : ReplicaOrigin}
  {ifMatch : Option String}

end MemRemote

section Witness

end Witness
end IoReplica

import IoReplica.Coroutine

/-! The open coroutine: a collection read offline, handed straight back. -/
namespace IoReplica

inductive OpenState
  | start | pendingLoad | done
  deriving DecidableEq

structure ReplicaOpen where
  collection : ReplicaCollectionId
  state : OpenState
  deriving DecidableEq

namespace ReplicaOpen

def new (collection : ReplicaCollectionId) : ReplicaOpen := ⟨collection, .start⟩

abbrev Step := ReplicaCoroutineState ReplicaYield (Except ReplicaArgError ReplicaLoaded)

def resume (self : ReplicaOpen) (arg : Option ReplicaArg) : ReplicaOpen × Step :=
  match self.state, arg with
  | .start, none =>
    ({ self with state := .pendingLoad }, .yielded (.wantsLoad self.collection .all))
  | .pendingLoad, some (.load loaded) => ({ self with state := .done }, .complete (.ok loaded))
  | _, some _ => (self, .complete (.error .unexpectedArg))
  | _, none => (self, .complete (.error .missingArg))

end ReplicaOpen
end IoReplica

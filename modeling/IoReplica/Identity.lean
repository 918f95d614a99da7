import Mathlib.Data.String.Basic
import Mathlib.Data.Finset.Basic

/-! The string-newtype identities. One phantom-indexed type stands for the macro that declares
them all: they differ in what they name, never in how they compare. -/
namespace IoReplica

/-- What a string identity names. -/
inductive IdKind
  | handle | linkId | collectionId | sourceId | hash | changeKey
  deriving DecidableEq

structure ReplicaId (kind : IdKind) where
  asStr : String
  deriving DecidableEq

abbrev ReplicaHandle := ReplicaId .handle
abbrev ReplicaLinkId := ReplicaId .linkId
abbrev ReplicaCollectionId := ReplicaId .collectionId
abbrev ReplicaSourceId := ReplicaId .sourceId
abbrev ReplicaHash := ReplicaId .hash
abbrev ReplicaChangeKey := ReplicaId .changeKey

namespace ReplicaId
variable {kind : IdKind}

theorem asStr_injective : Function.Injective (asStr : ReplicaId kind → String) := by
  rintro ⟨a⟩ ⟨b⟩ h
  exact congrArg ReplicaId.mk h

/-- The derived order of the newtype: that of the string it wraps. -/
instance : LinearOrder (ReplicaId kind) :=
  { LinearOrder.lift' asStr asStr_injective with
    toDecidableEq := inferInstance
    compare_eq_compareOfLessAndEq := by
      intro a b
      have h := (LinearOrder.lift' asStr asStr_injective).compare_eq_compareOfLessAndEq a b
      convert h }

instance : Std.LawfulEqOrd (ReplicaId kind) where
  eq_of_compare h := compare_eq_iff_eq.mp h

/-- What a map or a set keyed by an identity asks of its order and its equality. -/
instance : Std.TransOrd (ReplicaId kind) := inferInstance

instance : LawfulBEq (ReplicaId kind) := inferInstance

end ReplicaId

/-- An opaque per-collection sync token. -/
structure ReplicaCheckpoint where
  bytes : List UInt8
  deriving DecidableEq

/-- A stored object: its content hash and byte size. -/
structure ReplicaObject where
  hash : ReplicaHash
  size : ℕ
  deriving DecidableEq

end IoReplica

import IoReplica.Remote
import Mathlib.Data.Finset.Sort

/-! Outbound remote changes and inbound storage writes. -/
namespace IoReplica

/-- The digest a change is folded into to key it: FNV-1a, sixty-four bits. -/
structure ReplicaChangeDigest where
  state : UInt64

namespace ReplicaChangeDigest

def OFFSET : UInt64 := 0xcbf29ce484222325

def PRIME : UInt64 := 0x100000001b3

def new : ReplicaChangeDigest := ⟨OFFSET⟩

/-- Folds one field in, terminated by a NUL byte. -/
def field (d : ReplicaChangeDigest) (bytes : List UInt8) : ReplicaChangeDigest :=
  ⟨(bytes ++ [0]).foldl (fun s (byte : UInt8) => (s ^^^ byte.toUInt64) * PRIME) d.state⟩

def str (d : ReplicaChangeDigest) (s : String) : ReplicaChangeDigest :=
  d.field s.toUTF8.toList

def option (d : ReplicaChangeDigest) : Option String → ReplicaChangeDigest
  | some s => (d.str "1").str s
  | none => d.str "0"

/-- The eight little-endian bytes of a length. -/
def lenBytes (n : ℕ) : List UInt8 :=
  (List.range 8).map (fun i => UInt8.ofNat (n / 256 ^ i))

/-- Folds a flag set in, counted first. An unknown set is not an empty one. -/
def flags (d : ReplicaChangeDigest) : ReplicaFlags → ReplicaChangeDigest
  | .unknown => d.str "unknown"
  | .known flags =>
    (flags.sort (· ≤ ·)).foldl str ((d.str "known").field (lenBytes flags.card))

/-- Sixteen lowercase hexadecimal digits. -/
def finish (d : ReplicaChangeDigest) : ReplicaChangeKey :=
  let digits := Nat.toDigits 16 d.state.toNat
  ⟨String.ofList (List.replicate (16 - digits.length) '0' ++ digits)⟩

end ReplicaChangeDigest

/-- The names of a flag set, in the order they are digested. -/
def flagNames (flags : Finset String) : List String := flags.sort (· ≤ ·)

@[simp] theorem mem_flagNames {flags : Finset String} {s : String} :
    s ∈ flagNames flags ↔ s ∈ flags := Finset.mem_sort _

@[simp] theorem length_flagNames (flags : Finset String) :
    (flagNames flags).length = flags.card := Finset.length_sort _

theorem flagNames_injective : Function.Injective flagNames := by
  intro f g h
  rw [← Finset.sort_toFinset f (· ≤ ·), ← Finset.sort_toFinset g (· ≤ ·)]
  exact congrArg List.toFinset h

/-- What a change asks the remote to do. -/
inductive ReplicaChangeKind
  | add (handle : ReplicaHandle) (linkId : Option ReplicaLinkId) (flags : ReplicaFlags)
      (origin : Option ReplicaOrigin) (object : Option ReplicaHash)
  | remove (handle : ReplicaHandle) (dest : Option ReplicaCollectionId)
      (linkId : Option ReplicaLinkId) (ifMatch : Option String)
  | setFlags (handle : ReplicaHandle) (flags : ReplicaFlags)
  | update (handle : ReplicaHandle) (object : ReplicaHash) (ifMatch : Option String)
  deriving DecidableEq

namespace ReplicaChangeKind

/-- The member the change acts on. -/
def handle : ReplicaChangeKind → ReplicaHandle
  | .add handle .. => handle
  | .remove handle .. => handle
  | .setFlags handle _ => handle
  | .update handle .. => handle

/-- The idempotency key: collection, handle, kind and target state, never a precondition. -/
def key (kind : ReplicaChangeKind) (collection : ReplicaCollectionId) : ReplicaChangeKey :=
  let digest := (ReplicaChangeDigest.new.str collection.asStr).str kind.handle.asStr
  match kind with
  | .add _ linkId flags origin object =>
    let digest := ((digest.str "add").option (linkId.map (·.asStr))).flags flags
    let digest := match origin with
      | some origin => ((digest.str "1").str origin.collection.asStr).str origin.handle.asStr
      | none => digest.str "0"
    (digest.option (object.map (·.asStr))).finish
  | .remove _ dest _ _ => ((digest.str "remove").option (dest.map (·.asStr))).finish
  | .setFlags _ flags => ((digest.str "set-flags").flags flags).finish
  | .update _ object _ => ((digest.str "update").str object.asStr).finish

end ReplicaChangeKind

/-- A change to push: what to do, and the key naming it. -/
structure ReplicaChange where
  kind : ReplicaChangeKind
  key : ReplicaChangeKey
  deriving DecidableEq

namespace ReplicaChange

def new (collection : ReplicaCollectionId) (kind : ReplicaChangeKind) : ReplicaChange :=
  ⟨kind, kind.key collection⟩

def handle (c : ReplicaChange) : ReplicaHandle := c.kind.handle

@[simp] theorem new_kind (collection : ReplicaCollectionId) (kind : ReplicaChangeKind) :
    (new collection kind).kind = kind := rfl

@[simp] theorem new_handle (collection : ReplicaCollectionId) (kind : ReplicaChangeKind) :
    (new collection kind).handle = kind.handle := rfl

end ReplicaChange

/-- Why a placement is dropped: the item is gone, or only this row of it. -/
inductive ReplicaDropReason
  | deleted | superseded
  deriving DecidableEq

/-- A write to persist in local storage. -/
inductive ReplicaWriteOp
  | upsertPlacement (placement : ReplicaPlacement)
  | dropPlacement (collection : ReplicaCollectionId) (handle : ReplicaHandle)
      (reason : ReplicaDropReason)
  | storeObject (object : ReplicaObject) (body : Option (List UInt8))
  | setCheckpoint (collection : ReplicaCollectionId) (checkpoint : ReplicaCheckpoint)
  deriving DecidableEq

end IoReplica

import IoReplica.Identity
import IoReplica.Library.ThreeWay

/-! An item's presence in one collection: handle, link id, level, flags and sync base. -/
namespace IoReplica

/-- The cached summary, opaque to the engine. -/
structure ReplicaMeta where
  text : String
  deriving DecidableEq

/-- The presentation sort key. Empty means unknown. -/
structure ReplicaSortKey where
  key : String
  deriving DecidableEq

namespace ReplicaSortKey

def unknown : ReplicaSortKey := ⟨""⟩

def isUnknown (k : ReplicaSortKey) : Bool := k.key.isEmpty

end ReplicaSortKey

/-- An item's set of state markers. An unknown set is not an empty one. -/
inductive ReplicaFlags
  | unknown
  | known (flags : Finset String)
  deriving DecidableEq

namespace ReplicaFlags

/-- The default: known and empty. -/
def empty : ReplicaFlags := .known ∅

def isUnknown : ReplicaFlags → Bool
  | .unknown => true
  | .known _ => false

def known? : ReplicaFlags → Option (Finset String)
  | .unknown => none
  | .known flags => some flags

/-- Three-way merge, element-wise. An unknown side holds no opinion; an unknown base is no base. -/
def merge (base loc remote : ReplicaFlags) : ReplicaFlags :=
  match loc, remote with
  | .known l, .known r =>
    let b := base.known?.getD ∅
    .known ((l ∩ r) ∪ (l \ b) ∪ (r \ b))
  | .unknown, remote => remote
  | loc, .unknown => loc

@[simp] theorem merge_unknown_left (b r : ReplicaFlags) : merge b .unknown r = r := by
  cases r <;> rfl

@[simp] theorem merge_unknown_right (b l : ReplicaFlags) : merge b l .unknown = l := by
  cases l <;> rfl

/-- Known sides merge as sets do, whatever their base speaks for. -/
theorem merge_known (b : ReplicaFlags) (l r : Finset String) :
    merge b (.known l) (.known r) = .known (ThreeWay.merge (b.known?.getD ∅) l r) := rfl

theorem merge_comm (b l r : ReplicaFlags) : merge b l r = merge b r l := by
  cases l with
  | unknown => simp
  | known l =>
    cases r with
    | unknown => simp
    | known r => rw [merge_known, merge_known, ThreeWay.merge_comm]

theorem merge_assoc (b l m r : ReplicaFlags) :
    merge b (merge b l m) r = merge b l (merge b m r) := by
  cases l with
  | unknown => simp
  | known l =>
    cases m with
    | unknown => simp
    | known m =>
      cases r with
      | unknown => simp
      | known r => simp only [merge_known, ThreeWay.merge_assoc]

@[simp] theorem merge_self (b l : ReplicaFlags) : merge b l l = l := by
  cases l with
  | unknown => rfl
  | known l => rw [merge_known, ThreeWay.merge_idem]

/-- The side that did not move from a base loses to the side that did. -/
theorem merge_base_left {b r : ReplicaFlags} (h : r.isUnknown = false) : merge b b r = r := by
  cases r with
  | unknown => cases h
  | known r =>
    cases b with
    | unknown => rfl
    | known b => exact congrArg _ (ThreeWay.merge_base b r)

/-- Merging a merged set with the side it took from changes nothing. -/
theorem merge_absorb (b l r : ReplicaFlags) : merge b (merge b l r) r = merge b l r := by
  rw [merge_assoc, merge_self]

theorem merge_base_right {b l : ReplicaFlags} (h : l = b ∨ l.isUnknown = false) :
    merge b l b = l := by
  rcases h with rfl | h
  · exact merge_self l l
  · rw [merge_comm, merge_base_left h]

end ReplicaFlags

/-- The detail ladder, each rung including the one below. -/
inductive ReplicaLevel
  | probed | metadata | full
  deriving DecidableEq

namespace ReplicaLevel

def rank : ReplicaLevel → ℕ
  | .probed => 0
  | .metadata => 1
  | .full => 2

theorem rank_injective : Function.Injective rank := by
  intro a b h
  cases a <;> cases b <;> first | rfl | cases h

instance : LinearOrder ReplicaLevel := LinearOrder.lift' rank rank_injective

@[simp] theorem probed_le (l : ReplicaLevel) : .probed ≤ l := Nat.zero_le _

@[simp] theorem le_full (l : ReplicaLevel) : l ≤ .full := by
  cases l <;> decide

theorem le_metadata_iff {l : ReplicaLevel} : l ≤ .metadata ↔ l ≠ .full := by
  cases l <;> decide

end ReplicaLevel

/-- How a placement relates to its sync base. -/
inductive ReplicaStatus
  | clean | dirty | tombstone | conflict | created
  deriving DecidableEq

/-- Where a pending create's content already lives. -/
structure ReplicaOrigin where
  collection : ReplicaCollectionId
  handle : ReplicaHandle
  deriving DecidableEq

/-- The last-synced state a placement reconciles against. -/
structure ReplicaBase where
  flags : ReplicaFlags
  revision : Option String
  object : Option ReplicaHash
  deriving DecidableEq

/-- One item's presence in one collection. -/
structure ReplicaPlacement where
  collection : ReplicaCollectionId
  handle : ReplicaHandle
  linkId : Option ReplicaLinkId
  object : Option ReplicaHash
  level : ReplicaLevel
  metadata : Option ReplicaMeta
  sortKey : ReplicaSortKey
  flags : ReplicaFlags
  status : ReplicaStatus
  conflictRevision : Option String
  conflictObject : Option ReplicaHash
  base : Option ReplicaBase
  origin : Option ReplicaOrigin
  deriving DecidableEq

namespace ReplicaPlacement

def baseFlags (p : ReplicaPlacement) : Option ReplicaFlags := p.base.map (·.flags)

def baseRevision (p : ReplicaPlacement) : Option String := p.base.bind (·.revision)

def baseObject (p : ReplicaPlacement) : Option ReplicaHash := p.base.bind (·.object)

/-- The body staged locally but never synced: the object, when the base holds a different one or
none at all. -/
def stagedEdit (p : ReplicaPlacement) : Option ReplicaHash :=
  match p.object with
  | none => none
  | some object =>
    let synced := p.base.any (fun b => b.object = some object)
    if synced then none else some object

theorem stagedEdit_eq_some {p : ReplicaPlacement} {o : ReplicaHash} :
    p.stagedEdit = some o ↔ p.object = some o ∧ ∀ b, p.base = some b → b.object ≠ some o := by
  unfold stagedEdit
  cases ho : p.object with
  | none => simp
  | some x =>
    cases hb : p.base with
    | none => simp
    | some b =>
      by_cases hx : b.object = some x
      · simp only [Option.any_some, hx, decide_true, if_true, Option.some.injEq, reduceCtorEq,
          false_iff, not_and, forall_eq', not_not]
        rintro rfl
        rfl
      · simp only [Option.any_some, hx, decide_false, Bool.false_eq_true, if_false,
          Option.some.injEq, forall_eq']
        constructor
        · rintro rfl
          exact ⟨rfl, hx⟩
        · exact fun h => h.1

end ReplicaPlacement

end IoReplica

import IoReplica.Client
import IoReplica.Sync.Storage
import IoReplica.Upgrade.Scoped

/-! What a storage holds, and the contract of its seam: what a load returns of it, what a lookup
finds in it, and what a batch makes of it. -/
namespace IoReplica

/-- The rows of every collection, the bodies indexed, and the checkpoints. -/
structure Stored where
  rows : Storage
  objects : Finset ReplicaHash
  checkpoints : ReplicaCollectionId → Option ReplicaCheckpoint

namespace Stored

def empty : Stored := ⟨.empty, ∅, fun _ => none⟩

/-- The row stored under a handle of a collection. -/
def row (s : Stored) (c : ReplicaCollectionId) (h : ReplicaHandle) : Option ReplicaPlacement :=
  (s.rows.rows c).rows[h]?

def write (s : Stored) (op : ReplicaWriteOp) : Stored where
  rows := s.rows.write op
  objects :=
    match op with
    | .storeObject object _ => insert object.hash s.objects
    | _ => s.objects
  checkpoints :=
    match op with
    | .setCheckpoint c checkpoint => Function.update s.checkpoints c (some checkpoint)
    | _ => s.checkpoints

/-- Applies a batch, in order. -/
def apply (s : Stored) (ops : List ReplicaWriteOp) : Stored := ops.foldl write s

@[simp] theorem apply_nil (s : Stored) : s.apply [] = s := rfl

theorem apply_append (s : Stored) (a b : List ReplicaWriteOp) :
    s.apply (a ++ b) = (s.apply a).apply b := List.foldl_append

theorem apply_rows (s : Stored) (ops : List ReplicaWriteOp) :
    (s.apply ops).rows = s.rows.apply ops := by
  induction ops generalizing s with
  | nil => rfl
  | cons op ops ih => exact ih (s.write op)

/-- The body an op indexes. -/
def stores : ReplicaWriteOp → Option ReplicaHash
  | .storeObject object _ => some object.hash
  | _ => none

theorem mem_objects (s : Stored) (ops : List ReplicaWriteOp) (hash : ReplicaHash) :
    hash ∈ (s.apply ops).objects ↔ hash ∈ s.objects ∨ ∃ op ∈ ops, stores op = some hash := by
  induction ops generalizing s with
  | nil => simp
  | cons op ops ih =>
    have hrest := ih (s.write op)
    rw [apply] at hrest ⊢
    rw [List.foldl_cons, hrest]
    cases op with
    | storeObject object body =>
      simp only [write, stores, Finset.mem_insert, List.mem_cons, exists_eq_or_imp,
        Option.some.injEq]
      rw [eq_comm (a := hash), or_comm (a := object.hash = hash), or_assoc]
    | upsertPlacement | dropPlacement | setCheckpoint =>
      simp [write, stores]

/-- A batch that sets no checkpoint leaves each where it was. -/
theorem apply_checkpoints (s : Stored) {ops : List ReplicaWriteOp}
    (h : ∀ c checkpoint, .setCheckpoint c checkpoint ∉ ops) :
    (s.apply ops).checkpoints = s.checkpoints := by
  induction ops generalizing s with
  | nil => rfl
  | cons op ops ih =>
    have hrest := ih (s.write op) (fun c k hmem => h c k (List.mem_cons_of_mem _ hmem))
    rw [apply, List.foldl_cons]
    refine hrest.trans ?_
    cases op with
    | setCheckpoint c k => exact absurd List.mem_cons_self (h c k)
    | upsertPlacement | dropPlacement | storeObject => rfl

/-- A batch of rows alone sets no checkpoint. -/
theorem apply_checkpoints_rows (s : Stored) {ops : List ReplicaWriteOp}
    (h : ∀ op ∈ ops, op.row.isSome) : (s.apply ops).checkpoints = s.checkpoints := by
  refine s.apply_checkpoints (fun c checkpoint hop => ?_)
  have hrow : (ReplicaWriteOp.setCheckpoint c checkpoint).row = none := rfl
  have hsome := h _ hop
  rw [hrow] at hsome
  cases hsome

/-- What a load has to return: stored rows, at least those it names, and the checkpoint. -/
structure Loads (s : Stored) (c : ReplicaCollectionId) (scope : ReplicaLoadScope)
    (loaded : ReplicaLoaded) : Prop where
  stored : ∀ p ∈ loaded.placements, s.row c p.handle = some p
  floor : ∀ h p, s.row c h = some p → scope.names p = true → p ∈ loaded.placements
  checkpoint : loaded.checkpoint = s.checkpoints c

/-- What a lookup has to find: bodies that stored rows of the links asked for hold. -/
def Finds (s : Stored) (links : List ReplicaLinkId) (known : LinkMap ReplicaHash) : Prop :=
  ∀ link hash, known[link]? = some hash → link ∈ links ∧
    ∃ c h p, s.row c h = some p ∧ p.linkId = some link ∧ p.object = some hash

/-- A request served over what is stored: the storage's own as its contract says, the remote's
anyhow. -/
inductive Granted (s : Stored) : ReplicaYield → Stored → ReplicaArg → Prop
  | remote {y : ReplicaYield} {a : ReplicaArg} (own : y.Remote) (kind : a.Answers y) :
      Granted s y s a
  | load {c : ReplicaCollectionId} {scope : ReplicaLoadScope} {loaded : ReplicaLoaded}
      (loads : s.Loads c scope loaded) : Granted s (.wantsLoad c scope) s (.load loaded)
  | lookup {links : List ReplicaLinkId} {known : LinkMap ReplicaHash}
      (finds : s.Finds links known) :
      Granted s (.wantsLookupObject links) s (.lookupObject known)
  | write {ops : List ReplicaWriteOp} : Granted s (.wantsWrite ops) (s.apply ops) .write

theorem Granted.answers {s s' : Stored} {y : ReplicaYield} {a : ReplicaArg} (h : s.Granted y s' a) :
    a.Answers y := by
  cases h with
  | remote own kind => exact kind
  | load | lookup | write => trivial

abbrev Grants : Stored → Transcript → Stored → Prop := Coroutine.Grants Granted

/-- A transcript leaves what its writes make of the store. -/
theorem grants_writes {s s' : Stored} {t : Transcript} (h : Grants s t s') :
    s' = s.apply t.writes := by
  induction h with
  | nil => rfl
  | @cons s s' s'' y a t granted _ ih =>
    rw [ih]
    cases granted with
    | write => exact (s.apply_append _ (Transcript.writes t)).symm
    | load | lookup => rfl
    | remote own =>
      cases y with
      | wantsEnumerate | wantsFetch | wantsPush => rfl
      | wantsLoad | wantsLookupObject | wantsWrite => exact own.elim

/-- As long as nothing is written, every read is of the store the transcript started from. -/
theorem grants_reads {s s' : Stored} {t : Transcript} (h : Grants s t s')
    (hreads : ∀ e ∈ t, ∀ ops, e.1 ≠ .wantsWrite ops) :
    s' = s ∧ ∀ e ∈ t, s.Granted e.1 s e.2 := by
  induction h with
  | nil => exact ⟨rfl, fun e he => by cases he⟩
  | @cons s s' s'' y a t granted _ ih =>
    rw [List.forall_mem_cons] at hreads
    have hstill : s' = s := by
      cases granted with
      | write => exact absurd rfl (hreads.1 _)
      | load | lookup | remote => rfl
    subst hstill
    obtain ⟨rfl, hrest⟩ := ih hreads.2
    exact ⟨rfl, List.forall_mem_cons.mpr ⟨granted, hrest⟩⟩

end Stored

/-- A storage that keeps the contract of its seam: loads and lookups are of what is stored, a batch
is written in order and whole, or not at all. -/
class LawfulStorage (S : Type) [ReplicaStorage S] where
  stored : S → Stored
  loads : ∀ {s : S} {c : ReplicaCollectionId} {scope : ReplicaLoadScope} {loaded : ReplicaLoaded},
    ReplicaStorage.load s c scope = .ok loaded → (stored s).Loads c scope loaded
  finds : ∀ {s : S} {links : List ReplicaLinkId} {known : LinkMap ReplicaHash},
    ReplicaStorage.lookupObjects s links = .ok known → (stored s).Finds links known
  writes : ∀ {s s' : S} {ops : List ReplicaWriteOp},
    ReplicaStorage.write s ops = (s', .ok ()) → stored s' = (stored s).apply ops
  atomic : ∀ {s s' : S} {ops : List ReplicaWriteOp} {err : ReplicaStorage.Error S},
    ReplicaStorage.write s ops = (s', .error err) → stored s' = stored s

namespace ReplicaClient

variable {S R E : Type} [ReplicaStorage S] [LawfulStorage S]

/-- What a client's storage holds. -/
def stored (client : ReplicaClient S R) : Stored := LawfulStorage.stored client.storage

/-- What a client is granted, its store is. -/
theorem granted_stored (client : ReplicaClient S R) (y : ReplicaYield) (next : ReplicaClient S R)
    (a : ReplicaArg) (h : client.Granted y next a) : client.stored.Granted y next.stored a := by
  cases h with
  | remote remote own kind => exact .remote own kind
  | load replies => exact .load (LawfulStorage.loads replies)
  | lookup replies => exact .lookup (LawfulStorage.finds replies)
  | @write ops storage replies =>
    have hw : LawfulStorage.stored storage = client.stored.apply ops := LawfulStorage.writes replies
    have hgranted : client.stored.Granted (.wantsWrite ops) (client.stored.apply ops) .write := .write
    rw [← hw] at hgranted
    exact hgranted

/-- A failed request leaves what is stored as it was. -/
theorem fails_stored [ReplicaRemote R] {client next : ReplicaClient S R} {y : ReplicaYield} {e : Error S R E}
    (h : client.Fails y next e) : next.stored = client.stored := by
  cases h with
  | remote | read => rfl
  | write replies => exact LawfulStorage.atomic replies

theorem grants_stored {client next : ReplicaClient S R} {t : Transcript}
    (h : client.Grants t next) : Stored.Grants client.stored t next.stored :=
  h.refine granted_stored

end ReplicaClient
end IoReplica

import IoReplica.Store
import IoReplica.Sync.Within

/-! A storage of several collections, and what the run of one leaves of the others. -/
namespace IoReplica

/-- The rows of every collection, each row in its own. -/
structure Storage where
  rows : ReplicaCollectionId → CollectionRows
  placed : ∀ (c : ReplicaCollectionId) (h : ReplicaHandle) (p : ReplicaPlacement),
    (rows c).rows[h]? = some p → p.collection = c

namespace Storage

def empty : Storage := ⟨fun _ => .empty, fun c h p hp => by simp [CollectionRows.empty] at hp⟩

/-- An op stores rows of the collection it writes to, no other. -/
theorem placed_write (c : ReplicaCollectionId) (r : CollectionRows)
    (hr : ∀ (h : ReplicaHandle) (p : ReplicaPlacement), r.rows[h]? = some p → p.collection = c)
    {op : ReplicaWriteOp} (hop : op.collection = some c) (h : ReplicaHandle) (p : ReplicaPlacement)
    (hp : (r.write op).rows[h]? = some p) : p.collection = c := by
  rw [CollectionRows.get_write] at hp
  cases op with
  | upsertPlacement q =>
    rw [rowAfter_upsert, rowAfter_nil] at hp
    split at hp
    · cases hp
      exact Option.some.inj hop
    · exact hr h p hp
  | dropPlacement d g reason =>
    rw [rowAfter_drop, rowAfter_nil] at hp
    split at hp
    · cases hp
    · exact hr h p hp
  | storeObject => exact hr h p hp
  | setCheckpoint => exact hr h p hp

/-- Applies one write to the collection it names. -/
def write (s : Storage) (op : ReplicaWriteOp) : Storage :=
  match hop : op.collection with
  | none => s
  | some c => ⟨Function.update s.rows c ((s.rows c).write op), by
      intro d h p hp
      by_cases hd : d = c
      · subst hd
        rw [Function.update_self] at hp
        exact placed_write d (s.rows d) (s.placed d) hop h p hp
      · rw [Function.update_of_ne hd] at hp
        exact s.placed d h p hp⟩

def apply (s : Storage) (ops : List ReplicaWriteOp) : Storage := ops.foldl write s

theorem write_rows (s : Storage) {op : ReplicaWriteOp} {c : ReplicaCollectionId}
    (hop : op.collection = some c) :
    (s.write op).rows = Function.update s.rows c ((s.rows c).write op) := by
  simp only [write]
  split
  · rename_i h
    rw [hop] at h
    cases h
  · rename_i d h
    rw [hop] at h
    cases h
    rfl

/-- A batch of one collection's writes applies there, and nowhere else. -/
theorem apply_rows (s : Storage) {ops : List ReplicaWriteOp} {c : ReplicaCollectionId}
    (hops : ∀ op ∈ ops, op.collection = some c) :
    (s.apply ops).rows = Function.update s.rows c ((s.rows c).apply ops) := by
  induction ops generalizing s with
  | nil => exact (Function.update_eq_self c s.rows).symm
  | cons op ops ih =>
    have hone := s.write_rows (hops op List.mem_cons_self)
    have hrest := ih (s.write op) (fun x hx => hops x (List.mem_cons_of_mem _ hx))
    rw [hone, Function.update_self, Function.update_idem] at hrest
    exact hrest

/-- A batch that writes no other collection applies to its own. -/
theorem apply_own (s : Storage) {ops : List ReplicaWriteOp} {c : ReplicaCollectionId}
    (hops : ∀ op ∈ ops, ∀ d, op.collection = some d → d = c) :
    (s.apply ops).rows c = (s.rows c).apply ops := by
  induction ops generalizing s with
  | nil => rfl
  | cons op ops ih =>
    have hone : (s.write op).rows c = (s.rows c).write op := by
      cases hop : op.collection with
      | none =>
        cases op with
        | storeObject => rfl
        | upsertPlacement | dropPlacement | setCheckpoint => cases hop
      | some d =>
        have hd : d = c := hops op List.mem_cons_self d hop
        rw [s.write_rows hop, hd, Function.update_self]
    have hrest := ih (s.write op) (fun x hx => hops x (List.mem_cons_of_mem _ hx))
    rw [hone] at hrest
    exact hrest

/-- A row a batch leaves was stored before it, or is one the batch wrote. -/
theorem apply_mem (s : Storage) {ops : List ReplicaWriteOp} {c : ReplicaCollectionId}
    {h : ReplicaHandle} {q : ReplicaPlacement} (hq : ((s.apply ops).rows c).rows[h]? = some q) :
    (s.rows c).rows[h]? = some q ∨ .upsertPlacement q ∈ ops := by
  induction ops generalizing s with
  | nil => exact Or.inl hq
  | cons op ops ih =>
    rcases ih (s.write op) hq with hwritten | hmem
    · cases hop : op.collection with
      | none =>
        have hsame : s.write op = s := by
          simp only [write]
          split
          · rfl
          · rename_i d hd
            rw [hop] at hd
            cases hd
        rw [hsame] at hwritten
        exact Or.inl hwritten
      | some d =>
        rw [s.write_rows hop] at hwritten
        by_cases hc : c = d
        · subst hc
          rw [Function.update_self, CollectionRows.get_write] at hwritten
          rcases rowAfter_mem hwritten with hstood | hone
          · exact Or.inl hstood
          · rw [List.mem_singleton.mp hone]
            exact Or.inr List.mem_cons_self
        · rw [Function.update_of_ne hc] at hwritten
          exact Or.inl hwritten
    · exact Or.inr (List.mem_cons_of_mem _ hmem)

/-- A sync run moves the rows of its own collection, and leaves every other alone. -/
theorem apply_sync (s : Storage) {c : ReplicaCollectionId} {opts : ReplicaSyncOptions}
    {loaded : ReplicaLoaded} {snapshot : ReplicaRemoteSnapshot} {t : Transcript}
    (h : Syncs c opts loaded snapshot t) (hl : loaded.placements = (s.rows c).placements) :
    (s.apply t.writes).rows = Function.update s.rows c ((s.rows c).apply t.writes) :=
  s.apply_rows (h.within hl (s.placed c))

end Storage
end IoReplica

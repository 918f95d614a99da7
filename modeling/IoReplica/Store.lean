import IoReplica.Coroutine
import IoReplica.Library.OrderedMap

/-! The stored rows of one collection, and the writes a run applies to them in order. -/
namespace IoReplica

namespace ReplicaWriteOp

/-- The op as a keyed write of the row it touches, if it touches one. -/
def keyed : ReplicaWriteOp → Option (KeyedWrite ReplicaHandle ReplicaPlacement)
  | .upsertPlacement p => some (.put p.handle p)
  | .dropPlacement _ h _ => some (.del h)
  | .storeObject .. => none
  | .setCheckpoint .. => none

/-- The handle whose row an op writes. -/
def row (op : ReplicaWriteOp) : Option ReplicaHandle := op.keyed.map KeyedWrite.key

@[simp] theorem row_upsert (p : ReplicaPlacement) : (upsertPlacement p).row = some p.handle := rfl

@[simp] theorem row_drop (c : ReplicaCollectionId) (h : ReplicaHandle) (r : ReplicaDropReason) :
    (dropPlacement c h r).row = some h := rfl

end ReplicaWriteOp

/-- The row a list of writes leaves under `h`, where `init` stood before. -/
def rowAfter (h : ReplicaHandle) (init : Option ReplicaPlacement) (ops : List ReplicaWriteOp) :
    Option ReplicaPlacement :=
  KeyedWrite.last h init (ops.filterMap ReplicaWriteOp.keyed)

@[simp] theorem rowAfter_nil (h : ReplicaHandle) (init : Option ReplicaPlacement) :
    rowAfter h init [] = init := rfl

@[simp] theorem rowAfter_upsert (h : ReplicaHandle) (init : Option ReplicaPlacement)
    (p : ReplicaPlacement) (ops : List ReplicaWriteOp) :
    rowAfter h init (.upsertPlacement p :: ops) =
      rowAfter h (if p.handle = h then some p else init) ops := rfl

@[simp] theorem rowAfter_drop (h : ReplicaHandle) (init : Option ReplicaPlacement)
    (c : ReplicaCollectionId) (g : ReplicaHandle) (r : ReplicaDropReason)
    (ops : List ReplicaWriteOp) :
    rowAfter h init (.dropPlacement c g r :: ops) = rowAfter h (if g = h then none else init) ops :=
  rfl

@[simp] theorem rowAfter_setCheckpoint (h : ReplicaHandle) (init : Option ReplicaPlacement)
    (c : ReplicaCollectionId) (k : ReplicaCheckpoint) (ops : List ReplicaWriteOp) :
    rowAfter h init (.setCheckpoint c k :: ops) = rowAfter h init ops := rfl

theorem rowAfter_append (h : ReplicaHandle) (init : Option ReplicaPlacement)
    (a b : List ReplicaWriteOp) : rowAfter h init (a ++ b) = rowAfter h (rowAfter h init a) b := by
  rw [rowAfter, List.filterMap_append, KeyedWrite.last_append]
  rfl

/-- Ops that write other rows leave a row alone. -/
theorem rowAfter_of_ne {h : ReplicaHandle} {ops : List ReplicaWriteOp}
    (init : Option ReplicaPlacement) (hops : ∀ op ∈ ops, op.row ≠ some h) :
    rowAfter h init ops = init := by
  apply KeyedWrite.last_of_untouched
  intro w hw
  obtain ⟨op, hop, hkeyed⟩ := List.mem_filterMap.mp hw
  have hne := hops op hop
  rw [ReplicaWriteOp.row, hkeyed] at hne
  simpa using hne

/-- The ops that write one row, in order. -/
def rowOps (h : ReplicaHandle) (ops : List ReplicaWriteOp) : List ReplicaWriteOp :=
  ops.filter (fun op => decide (op.row = some h))

@[simp] theorem rowOps_nil (h : ReplicaHandle) : rowOps h [] = [] := rfl

theorem rowOps_append (h : ReplicaHandle) (a b : List ReplicaWriteOp) :
    rowOps h (a ++ b) = rowOps h a ++ rowOps h b := List.filter_append a b

theorem mem_rowOps {h : ReplicaHandle} {ops : List ReplicaWriteOp} {op : ReplicaWriteOp} :
    op ∈ rowOps h ops ↔ op ∈ ops ∧ op.row = some h := by
  rw [rowOps, List.mem_filter, decide_eq_true_iff]

theorem rowOps_of_ne {h : ReplicaHandle} {ops : List ReplicaWriteOp}
    (hops : ∀ op ∈ ops, op.row ≠ some h) : rowOps h ops = [] := by
  rw [rowOps, List.filter_eq_nil_iff]
  intro op hop
  rw [decide_eq_true_iff]
  exact hops op hop

/-- A row is what the ops that write it leave. -/
theorem rowAfter_rowOps (h : ReplicaHandle) (init : Option ReplicaPlacement)
    (ops : List ReplicaWriteOp) : rowAfter h init (rowOps h ops) = rowAfter h init ops := by
  induction ops generalizing init with
  | nil => rfl
  | cons op ops ih =>
    have hsplit : rowOps h (op :: ops) = rowOps h [op] ++ rowOps h ops := rowOps_append h [op] ops
    have hone : rowAfter h init (rowOps h [op]) = rowAfter h init [op] := by
      by_cases hop : op.row = some h
      · simp [rowOps, hop]
      · have hops : ∀ o ∈ [op], o.row ≠ some h := by simpa using hop
        rw [rowOps_of_ne hops, rowAfter_of_ne init hops, rowAfter_nil]
    have hcons : rowAfter h init (op :: ops) = rowAfter h (rowAfter h init [op]) ops :=
      rowAfter_append h init [op] ops
    rw [hsplit, rowAfter_append, hone, ih, hcons]

/-- The rows of one collection, each under its own handle. -/
structure CollectionRows where
  rows : HandleMap ReplicaPlacement
  keyed : ∀ (h : ReplicaHandle) (p : ReplicaPlacement), rows[h]? = some p → p.handle = h

namespace CollectionRows

/-- The rows a load returned: whatever it listed, each stands under its own handle. -/
def ofLoad (placements : List ReplicaPlacement) : CollectionRows where
  rows := collectPlacements placements
  keyed := by
    suffices h : ∀ (l : List ReplicaPlacement) (m : HandleMap ReplicaPlacement),
        (∀ (h : ReplicaHandle) (p : ReplicaPlacement), m[h]? = some p → p.handle = h) →
        ∀ (h : ReplicaHandle) (p : ReplicaPlacement),
          (l.foldl (fun m p => m.insert p.handle p) m)[h]? = some p → p.handle = h from
      h placements ∅ (fun h p hp => by simp at hp)
    intro l
    induction l with
    | nil => exact fun m hm => hm
    | cons q l ih =>
      intro m hm
      refine ih (m.insert q.handle q) ?_
      intro h p hp
      rw [OrderedMap.get_insert] at hp
      split at hp
      · cases hp
        assumption
      · exact hm h p hp

/-- Every row, in handle order: what a load of the whole collection returns. -/
def placements (s : CollectionRows) : List ReplicaPlacement := s.rows.toList.map (·.2)

def empty : CollectionRows := ⟨∅, fun h p hp => by simp at hp⟩

/-- Applies one write. Objects and checkpoints are not rows. -/
def write (s : CollectionRows) : ReplicaWriteOp → CollectionRows
  | .upsertPlacement p =>
    ⟨s.rows.insert p.handle p, by
      intro h q hq
      rw [OrderedMap.get_insert] at hq
      split at hq
      · cases hq
        assumption
      · exact s.keyed h q hq⟩
  | .dropPlacement _ g _ =>
    ⟨s.rows.erase g, by
      intro h q hq
      rw [OrderedMap.get_erase] at hq
      split at hq
      · cases hq
      · exact s.keyed h q hq⟩
  | .storeObject .. => s
  | .setCheckpoint .. => s

/-- Applies a batch, in order. -/
def apply (s : CollectionRows) (ops : List ReplicaWriteOp) : CollectionRows := ops.foldl write s

/-- The rows a batch leaves are those its keyed writes leave. -/
theorem rows_apply (s : CollectionRows) (ops : List ReplicaWriteOp) :
    (s.apply ops).rows = KeyedWrite.applyAll s.rows (ops.filterMap ReplicaWriteOp.keyed) := by
  induction ops generalizing s with
  | nil => rfl
  | cons op ops ih =>
    have hrest := ih (s.write op)
    cases op <;> exact hrest

theorem get_apply (s : CollectionRows) (ops : List ReplicaWriteOp) (h : ReplicaHandle) :
    (s.apply ops).rows[h]? = rowAfter h s.rows[h]? ops := by
  rw [rows_apply, KeyedWrite.get_applyAll, rowAfter]

theorem get_write (s : CollectionRows) (op : ReplicaWriteOp) (h : ReplicaHandle) :
    (s.write op).rows[h]? = rowAfter h s.rows[h]? [op] := s.get_apply [op] h

/-- One row stored, and no other. -/
theorem get_single (p : ReplicaPlacement) (h : ReplicaHandle) :
    (empty.write (.upsertPlacement p)).rows[h]? = if p.handle = h then some p else none := by
  rw [get_write]
  simp [empty]

theorem mem_placements (s : CollectionRows) (p : ReplicaPlacement) :
    p ∈ s.placements ↔ s.rows[p.handle]? = some p := by
  rw [placements, List.mem_map]
  constructor
  · rintro ⟨⟨h, q⟩, hq, rfl⟩
    have hget := (OrderedMap.mem_toList_iff _ _ _).mp hq
    rw [s.keyed h q hget]
    exact hget
  · intro hp
    exact ⟨(p.handle, p), (OrderedMap.mem_toList_iff _ _ _).mpr hp, rfl⟩

theorem placements_pairwise (s : CollectionRows) :
    s.placements.Pairwise (fun a b => a.handle ≠ b.handle) := by
  rw [placements, List.pairwise_map]
  refine (OrderedMap.toList_pairwise s.rows).imp_of_mem ?_
  intro a b ha hb hab
  rw [s.keyed a.1 a.2 ((OrderedMap.mem_toList_iff _ _ _).mp ha),
    s.keyed b.1 b.2 ((OrderedMap.mem_toList_iff _ _ _).mp hb)]
  exact hab.ne

/-- Rows of distinct handles are collected each under its own. -/
theorem get_collect {l : List ReplicaPlacement} (hl : l.Pairwise (fun p q => p.handle ≠ q.handle))
    (h : ReplicaHandle) : (collectPlacements l)[h]? = l.find? (fun p => p.handle = h) := by
  have hfold : collectPlacements l =
      (l.map (fun p => (p.handle, p))).foldl (fun m e => m.insert e.1 e.2) ∅ := by
    rw [List.foldl_map]
    rfl
  have hkeys : (l.map (fun p => (p.handle, p))).Pairwise (fun a b => a.1 ≠ b.1) := by
    rw [List.pairwise_map]
    exact hl
  rw [hfold, OrderedMap.foldl_insert_get _ _ _ hkeys, List.find?_map, Option.map_map]
  simp [Function.comp_def]

theorem collect_mem {l : List ReplicaPlacement} (hl : l.Pairwise (fun p q => p.handle ≠ q.handle))
    {p : ReplicaPlacement} (hp : p ∈ l) : (collectPlacements l)[p.handle]? = some p := by
  rw [get_collect hl]
  cases hf : l.find? (fun q => q.handle = p.handle) with
  | none =>
    have hne := List.find?_eq_none.mp hf p hp
    simp at hne
  | some q =>
    have hq : q.handle = p.handle := by simpa using List.find?_some hf
    have hnodup : (l.map (fun p => p.handle)).Nodup := by
      rw [List.Nodup, List.pairwise_map]
      exact hl
    exact congrArg some (List.inj_on_of_nodup_map hnodup (List.mem_of_find?_eq_some hf) hp hq)

/-- Every row a load collects stands under its own handle. -/
theorem collect_keyed {l : List ReplicaPlacement} {h : ReplicaHandle} {p : ReplicaPlacement}
    (hp : (collectPlacements l)[h]? = some p) : p.handle = h := (ofLoad l).keyed h p hp

theorem mem_of_collect {l : List ReplicaPlacement} {h : ReplicaHandle} {p : ReplicaPlacement}
    (hp : (collectPlacements l)[h]? = some p) : p ∈ l := by
  rw [collectPlacements] at hp
  suffices hfold : ∀ m : HandleMap ReplicaPlacement,
      (l.foldl (fun m p => m.insert p.handle p) m)[h]? = some p → p ∈ l ∨ m[h]? = some p by
    rcases hfold ∅ hp with hmem | hmem
    · exact hmem
    · simp at hmem
  clear hp
  induction l with
  | nil => exact fun m hm => Or.inr hm
  | cons q l ih =>
    intro m hm
    rcases ih _ hm with hmem | hmem
    · exact Or.inl (List.mem_cons_of_mem _ hmem)
    · rw [OrderedMap.get_insert] at hmem
      split at hmem
      · cases hmem
        exact Or.inl List.mem_cons_self
      · exact Or.inr hmem

/-- A row its load lists no other of its handle beside is collected. -/
theorem collect_only {l : List ReplicaPlacement} {p : ReplicaPlacement} (hp : p ∈ l)
    (honly : ∀ q ∈ l, q.handle = p.handle → q = p) : (collectPlacements l)[p.handle]? = some p := by
  rw [collectPlacements]
  suffices hfold : ∀ m : HandleMap ReplicaPlacement, p ∈ l ∨ m[p.handle]? = some p →
      (l.foldl (fun m p => m.insert p.handle p) m)[p.handle]? = some p from hfold ∅ (Or.inl hp)
  clear hp
  induction l with
  | nil =>
    rintro m (hp | hm)
    · cases hp
    · exact hm
  | cons q l ih =>
    intro m hm
    refine ih (fun r hr => honly r (List.mem_cons_of_mem _ hr)) _ ?_
    rw [OrderedMap.get_insert]
    by_cases hq : q.handle = p.handle
    · rw [if_pos hq, honly q List.mem_cons_self hq]
      exact Or.inr rfl
    · rw [if_neg hq]
      rcases hm with hmem | hm
      · rcases List.mem_cons.mp hmem with rfl | hmem
        · exact absurd rfl hq
        · exact Or.inl hmem
      · exact Or.inr hm

/-- A load followed by the collection into a map gives the stored rows back. -/
theorem collect_placements (s : CollectionRows) : collectPlacements s.placements = s.rows := by
  ext1 h
  cases hp : s.rows[h]? with
  | some p =>
    have hh := s.keyed h p hp
    subst hh
    exact collect_mem s.placements_pairwise ((s.mem_placements p).mpr hp)
  | none =>
    rw [get_collect s.placements_pairwise, List.find?_eq_none]
    intro q hq hqh
    have hget := (s.mem_placements q).mp hq
    rw [of_decide_eq_true hqh, hp] at hget
    cases hget

end CollectionRows
end IoReplica

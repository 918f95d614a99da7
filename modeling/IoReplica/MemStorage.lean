import IoReplica.Stored
import Mathlib.Data.Prod.Lex

/-! The in-memory storage: placements keyed by collection and handle, the bodies, the checkpoints. -/
namespace IoReplica

/-- The key a placement is stored under. -/
abbrev RowKey := ReplicaCollectionId ×ₗ ReplicaHandle

instance : Std.TransOrd RowKey := inferInstance

instance : Std.LawfulEqOrd RowKey where
  eq_of_compare h := compare_eq_iff_eq.mp h

def ReplicaPlacement.key (p : ReplicaPlacement) : RowKey := toLex (p.collection, p.handle)

theorem ReplicaPlacement.key_eq (p : ReplicaPlacement) (c : ReplicaCollectionId) (g : ReplicaHandle) :
    p.key = toLex (c, g) ↔ p.collection = c ∧ p.handle = g := by
  simp [key]

/-- Placements by their keys. -/
structure PlacementMap where
  entries : Std.ExtTreeMap RowKey ReplicaPlacement
  keyed : ∀ (k : RowKey) (p : ReplicaPlacement), entries[k]? = some p → p.key = k

namespace PlacementMap

variable (m : PlacementMap)

def empty : PlacementMap := ⟨∅, fun k p h => by simp at h⟩

def insert (p : ReplicaPlacement) : PlacementMap :=
  ⟨m.entries.insert p.key p, fun k q h => by
    rw [OrderedMap.get_insert] at h
    split at h
    · cases h
      assumption
    · exact m.keyed k q h⟩

def remove (k : RowKey) : PlacementMap :=
  ⟨m.entries.erase k, fun k' q h => by
    rw [OrderedMap.get_erase] at h
    split at h
    · cases h
    · exact m.keyed k' q h⟩

/-- Every placement, in collection then handle order. -/
def values : List ReplicaPlacement := m.entries.toList.map (·.2)

theorem mem_values (p : ReplicaPlacement) : p ∈ m.values ↔ m.entries[p.key]? = some p := by
  rw [values, List.mem_map]
  constructor
  · rintro ⟨⟨k, q⟩, hmem, rfl⟩
    have hget := (OrderedMap.mem_toList_iff _ _ _).mp hmem
    rw [m.keyed k q hget]
    exact hget
  · exact fun h => ⟨(p.key, p), (OrderedMap.mem_toList_iff _ _ _).mpr h, rfl⟩

/-- The placements a collection holds. -/
def rowsOf (c : ReplicaCollectionId) : List ReplicaPlacement :=
  (m.entries.toList.filter (fun e => (ofLex e.1).1 = c)).map (·.2)

theorem mem_rowsOf (c : ReplicaCollectionId) (p : ReplicaPlacement) :
    p ∈ m.rowsOf c ↔ m.entries[(toLex (c, p.handle) : RowKey)]? = some p := by
  simp only [rowsOf, List.mem_map, List.mem_filter, decide_eq_true_eq]
  constructor
  · rintro ⟨⟨k, q⟩, ⟨hmem, rfl⟩, rfl⟩
    have hget := (OrderedMap.mem_toList_iff _ _ _).mp hmem
    obtain ⟨-, hg⟩ := (q.key_eq (ofLex k).1 (ofLex k).2).mp (m.keyed k q hget)
    dsimp only
    rw [hg]
    exact hget
  · exact fun h => ⟨(_, p), ⟨(OrderedMap.mem_toList_iff _ _ _).mpr h, rfl⟩, rfl⟩

/-- The body the first placement of a link id is linked to, of those linked to one. -/
def bodyOf (link : ReplicaLinkId) : Option ReplicaHash :=
  m.values.findSome? (fun p => if p.linkId = some link then p.object else none)

/-- The links some placement, in any collection, already links to a stored body. -/
def lookup (links : List ReplicaLinkId) : LinkMap ReplicaHash :=
  links.foldl (fun known link => (m.bodyOf link).elim known (fun hash => known.insert link hash)) ∅

theorem lookup_mem {links : List ReplicaLinkId} {link : ReplicaLinkId} {hash : ReplicaHash}
    (h : (m.lookup links)[link]? = some hash) : link ∈ links ∧ m.bodyOf link = some hash := by
  have hfold : ∀ (l : List ReplicaLinkId) (known : LinkMap ReplicaHash),
      (l.foldl (fun known link => (m.bodyOf link).elim known
        (fun hash => known.insert link hash)) known)[link]? = some hash →
      known[link]? = some hash ∨ link ∈ l ∧ m.bodyOf link = some hash := by
    intro l
    induction l with
    | nil => exact fun known hk => Or.inl hk
    | cons a l ih =>
      intro known hk
      rcases ih _ hk with hknown | ⟨hmem, hbody⟩
      · dsimp only at hknown
        cases hb : m.bodyOf a with
        | none =>
          rw [hb] at hknown
          exact Or.inl hknown
        | some body =>
          rw [hb, Option.elim_some, OrderedMap.get_insert] at hknown
          split at hknown
          · rename_i ha
            subst ha
            exact Or.inr ⟨List.mem_cons_self, hb.trans hknown⟩
          · exact Or.inl hknown
      · exact Or.inr ⟨List.mem_cons_of_mem _ hmem, hbody⟩
  rcases hfold links ∅ h with hempty | hfound
  · simp at hempty
  · exact hfound

theorem bodyOf_mem {link : ReplicaLinkId} {hash : ReplicaHash} (h : m.bodyOf link = some hash) :
    ∃ p ∈ m.values, p.linkId = some link ∧ p.object = some hash := by
  obtain ⟨p, hp, hbody⟩ := List.exists_of_findSome?_eq_some h
  split at hbody
  · exact ⟨p, hp, by assumption, hbody⟩
  · cases hbody

/-- The rows of each collection but the hidden ones. -/
def live (hidden : Finset RowKey) : Storage where
  rows c := .ofLoad (m.values.filter (fun p => p.collection = c ∧ p.key ∉ hidden))
  placed c g p hp := by
    have hmem := CollectionRows.mem_of_collect hp
    exact (of_decide_eq_true (List.mem_filter.mp hmem).2).1

theorem live_iff (hidden : Finset RowKey) (c : ReplicaCollectionId) (g : ReplicaHandle)
    (p : ReplicaPlacement) : ((m.live hidden).rows c).rows[g]? = some p ↔
      m.entries[(toLex (c, g) : RowKey)]? = some p ∧ toLex (c, g) ∉ hidden := by
  have hmem : ∀ q : ReplicaPlacement, q ∈ m.values.filter (fun p => p.collection = c ∧ p.key ∉ hidden) ↔
      m.entries[q.key]? = some q ∧ q.collection = c ∧ q.key ∉ hidden := by
    intro q
    rw [List.mem_filter, mem_values, decide_eq_true_eq]
  constructor
  · intro hp
    have hkeyed := CollectionRows.collect_keyed hp
    obtain ⟨hget, hc, hlive⟩ := (hmem p).mp (CollectionRows.mem_of_collect hp)
    rw [(p.key_eq c g).mpr ⟨hc, hkeyed⟩] at hget hlive
    exact ⟨hget, hlive⟩
  · rintro ⟨hget, hlive⟩
    have hkey := m.keyed _ p hget
    obtain ⟨hc, hg⟩ := (p.key_eq c g).mp hkey
    rw [← hkey] at hget hlive
    subst hg
    refine CollectionRows.collect_only ((hmem p).mpr ⟨hget, hc, hlive⟩) (fun q hq hqp => ?_)
    obtain ⟨hq, hqc, -⟩ := (hmem q).mp hq
    rw [(q.key_eq c p.handle).mpr ⟨hqc, hqp⟩, ← hkey, hget, Option.some.injEq] at hq
    exact hq.symm

end PlacementMap

/-- Storages that read alike hold alike. -/
theorem Storage.ext_rows {a b : Storage} (h : ∀ (c : ReplicaCollectionId) (g : ReplicaHandle),
    (a.rows c).rows[g]? = (b.rows c).rows[g]?) : a = b := by
  obtain ⟨rows, placed⟩ := a
  obtain ⟨rows', placed'⟩ := b
  have hrows : rows = rows' := by
    funext c
    have hc : (rows c).rows = (rows' c).rows := by
      ext1 g
      exact h c g
    cases hr : rows c
    cases hr' : rows' c
    simp only [hr, hr'] at hc
    subst hc
    rfl
  subst hrows
  rfl

/-- What an op leaves of one row. -/
theorem Storage.get_write (s : Storage) (op : ReplicaWriteOp) (c : ReplicaCollectionId)
    (g : ReplicaHandle) : ((s.write op).rows c).rows[g]? =
      match op with
      | .upsertPlacement p => if p.collection = c ∧ p.handle = g then some p else (s.rows c).rows[g]?
      | .dropPlacement d h _ => if d = c ∧ h = g then none else (s.rows c).rows[g]?
      | .storeObject .. | .setCheckpoint .. => (s.rows c).rows[g]? := by
  have hother : ∀ d, op.collection = some d → d ≠ c → (s.write op).rows c = s.rows c := by
    intro d hop hd
    rw [s.write_rows hop, Function.update_of_ne (Ne.symm hd)]
  have hown : op.collection = some c → (s.write op).rows c = (s.rows c).write op := by
    intro hop
    rw [s.write_rows hop, Function.update_self]
  cases op with
  | upsertPlacement p =>
    by_cases hc : p.collection = c
    · rw [hown (congrArg some hc), CollectionRows.get_write, rowAfter_upsert, rowAfter_nil]
      simp [hc]
    · rw [hother _ rfl hc]
      simp [hc]
  | dropPlacement d h reason =>
    by_cases hc : d = c
    · rw [hown (congrArg some hc), CollectionRows.get_write, rowAfter_drop, rowAfter_nil]
      simp [hc]
    · rw [hother _ rfl hc]
      simp [hc]
  | storeObject => rfl
  | setCheckpoint d checkpoint =>
    by_cases hc : d = c
    · rw [hown (congrArg some hc)]
      rfl
    · rw [hother _ rfl hc]

/-- The bodies a map indexes. -/
def indexed (objects : Std.ExtTreeMap ReplicaHash (ReplicaObject × List UInt8)) :
    Finset ReplicaHash := (objects.toList.map (·.1)).toFinset

theorem mem_indexed (objects : Std.ExtTreeMap ReplicaHash (ReplicaObject × List UInt8))
    (hash : ReplicaHash) : hash ∈ indexed objects ↔ objects[hash]?.isSome := by
  rw [indexed, List.mem_toFinset, List.mem_map, Option.isSome_iff_exists]
  constructor
  · rintro ⟨⟨key, entry⟩, hmem, rfl⟩
    exact ⟨entry, (OrderedMap.mem_toList_iff _ _ _).mp hmem⟩
  · rintro ⟨entry, hget⟩
    exact ⟨(hash, entry), (OrderedMap.mem_toList_iff _ _ _).mpr hget, rfl⟩

theorem indexed_insert (objects : Std.ExtTreeMap ReplicaHash (ReplicaObject × List UInt8))
    (object : ReplicaObject) (body : List UInt8) :
    indexed (objects.insert object.hash (object, body)) = insert object.hash (indexed objects) := by
  ext hash
  rw [Finset.mem_insert, mem_indexed, mem_indexed, OrderedMap.get_insert]
  by_cases hh : object.hash = hash
  · simp [hh]
  · simp [hh, Ne.symm hh]

theorem Stored.ext_parts {a b : Stored} (hrows : a.rows = b.rows) (hobjects : a.objects = b.objects)
    (hcheckpoints : a.checkpoints = b.checkpoints) : a = b := by
  cases a
  cases b
  simp_all only

structure MemStorage where
  placements : PlacementMap
  objects : Std.ExtTreeMap ReplicaHash (ReplicaObject × List UInt8)
  checkpoints : Std.ExtTreeMap ReplicaCollectionId ReplicaCheckpoint

namespace MemStorage

def default : MemStorage := ⟨.empty, ∅, ∅⟩

variable (s : MemStorage)

/-- The scope is honoured exactly. -/
def load (c : ReplicaCollectionId) (scope : ReplicaLoadScope) : ReplicaLoaded :=
  ⟨(s.placements.rowsOf c).filter scope.names, s.checkpoints[c]?⟩

def writeOp : ReplicaWriteOp → MemStorage
  | .upsertPlacement p => { s with placements := s.placements.insert p }
  | .dropPlacement c g _ => { s with placements := s.placements.remove (toLex (c, g)) }
  | .storeObject object body =>
    { s with objects := s.objects.insert object.hash (object, body.getD []) }
  | .setCheckpoint c checkpoint => { s with checkpoints := s.checkpoints.insert c checkpoint }

def write (ops : List ReplicaWriteOp) : MemStorage := ops.foldl writeOp s

/-- What the storage holds. -/
def stored : Stored :=
  ⟨s.placements.live ∅, indexed s.objects, fun c => s.checkpoints[c]?⟩

theorem stored_row (c : ReplicaCollectionId) (g : ReplicaHandle) :
    s.stored.row c g = s.placements.entries[(toLex (c, g) : RowKey)]? := by
  ext p
  rw [Stored.row]
  refine (s.placements.live_iff ∅ c g p).trans ?_
  simp

theorem stored_load (c : ReplicaCollectionId) (scope : ReplicaLoadScope) :
    s.stored.Loads c scope (s.load c scope) where
  stored p hp := by
    rw [stored_row]
    exact (s.placements.mem_rowsOf c p).mp (List.mem_filter.mp hp).1
  floor g p hp hscope := by
    have hg := (s.stored.rows.rows c).keyed g p hp
    rw [stored_row, ← hg] at hp
    exact List.mem_filter.mpr ⟨(s.placements.mem_rowsOf c p).mpr hp, hscope⟩
  checkpoint := rfl

theorem stored_lookup (links : List ReplicaLinkId) :
    s.stored.Finds links (s.placements.lookup links) := by
  intro link hash hknown
  obtain ⟨hmem, hbody⟩ := s.placements.lookup_mem hknown
  obtain ⟨p, hp, hlink, hobject⟩ := s.placements.bodyOf_mem hbody
  refine ⟨hmem, p.collection, p.handle, p, ?_, hlink, hobject⟩
  rw [stored_row]
  exact (s.placements.mem_values p).mp hp

theorem stored_writeOp (op : ReplicaWriteOp) : (s.writeOp op).stored = s.stored.write op := by
  have hrows : (s.writeOp op).stored.rows = s.stored.rows.write op := by
    refine Storage.ext_rows (fun c g => ?_)
    have hstep := s.stored.rows.get_write op c g
    have hrow : ((s.writeOp op).stored.rows.rows c).rows[g]? =
      (s.writeOp op).placements.entries[(toLex (c, g) : RowKey)]? := (s.writeOp op).stored_row c g
    have hold : (s.stored.rows.rows c).rows[g]? =
      s.placements.entries[(toLex (c, g) : RowKey)]? := s.stored_row c g
    rw [hrow, hstep, hold]
    cases op with
    | upsertPlacement p =>
      simp only [writeOp, PlacementMap.insert, OrderedMap.get_insert, p.key_eq]
    | dropPlacement d h reason =>
      simp only [writeOp, PlacementMap.remove, OrderedMap.get_erase, toLex_inj, Prod.mk.injEq]
    | storeObject | setCheckpoint => rfl
  refine Stored.ext_parts hrows ?_ ?_
  · cases op with
    | storeObject object body => exact indexed_insert _ _ _
    | upsertPlacement | dropPlacement | setCheckpoint => rfl
  · cases op with
    | setCheckpoint c checkpoint =>
      funext d
      simp only [stored, writeOp, Stored.write, OrderedMap.get_insert, Function.update_apply, eq_comm]
    | upsertPlacement | dropPlacement | storeObject => rfl

theorem stored_write (ops : List ReplicaWriteOp) : (s.write ops).stored = s.stored.apply ops := by
  induction ops generalizing s with
  | nil => rfl
  | cons op ops ih =>
    rw [write, List.foldl_cons, ← write, ih, stored_writeOp]
    rfl

end MemStorage

/-- It never fails. -/
instance : ReplicaStorage MemStorage where
  Error := Empty
  load s c scope := .ok (s.load c scope)
  lookupObjects s links := .ok (s.placements.lookup links)
  write s ops := (s.write ops, .ok ())

instance : LawfulStorage MemStorage where
  stored := MemStorage.stored
  loads := by
    intro s c scope loaded h
    cases h
    exact s.stored_load c scope
  finds := by
    intro s links known h
    cases h
    exact s.stored_lookup links
  writes := by
    intro s s' ops h
    cases h
    exact s.stored_write ops
  atomic := by
    intro s s' ops err h
    cases err

end IoReplica

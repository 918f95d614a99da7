import IoReplica.Library.Listing
import IoReplica.Sync.Local

/-! The candidates a merge serves: what the join pairs, narrowed by the delta rule. -/
namespace IoReplica

namespace Join

theorem next_size {j j' : Join} {c : Candidate} (hn : j.next = some (c, j')) :
    j'.size < j.size := by
  obtain ⟨locs, items⟩ := j
  cases locs with
  | nil =>
    cases items with
    | nil => cases hn
    | cons i items =>
      simp only [next, Option.some.injEq, Prod.mk.injEq] at hn
      obtain ⟨-, rfl⟩ := hn
      simp [size]
  | cons e locs =>
    cases items with
    | nil =>
      simp only [next, Option.some.injEq, Prod.mk.injEq] at hn
      obtain ⟨-, rfl⟩ := hn
      simp [size]
    | cons i items =>
      simp only [next] at hn
      split at hn <;>
        · simp only [Option.some.injEq, Prod.mk.injEq] at hn
          obtain ⟨-, rfl⟩ := hn
          simp only [size, List.length_cons]
          omega

theorem drain_fuel (fuel : ℕ) (j : Join) (hf : j.size ≤ fuel) :
    j.drain fuel = j.drain j.size := by
  induction fuel using Nat.strong_induction_on generalizing j with
  | _ fuel ih =>
    cases hn : j.next with
    | none => cases fuel <;> cases j.size <;> simp [drain, hn]
    | some r =>
      obtain ⟨c, j'⟩ := r
      have hsize := next_size hn
      obtain ⟨f, rfl⟩ : ∃ f, fuel = f + 1 := ⟨fuel - 1, by omega⟩
      obtain ⟨g, hg⟩ : ∃ g, j.size = g + 1 := ⟨j.size - 1, by omega⟩
      have hf' : drain f j' = drain j'.size j' := ih f (by omega) j' (by omega)
      have hg' : drain g j' = drain j'.size j' := ih g (by omega) j' (by omega)
      rw [hg]
      simp only [drain, hn, hf', hg']

end Join

namespace Merge

/-- The candidates a merge still has to serve. -/
def candidates (m : Merge) : List Candidate := (m.join.drain m.join.size).filterMap m.select

/-- What asking a merge for its next candidate gives, against the candidates it has. -/
inductive NextSpec (m : Merge) : Option (Candidate × Merge) → Prop
  | none (empty : m.candidates = []) : NextSpec m none
  | some {c : Candidate} {j : Join} (candidates : m.candidates = c :: candidates { m with join := j })
      (size : j.size < m.join.size) : NextSpec m (some (c, { m with join := j }))

theorem seek_spec (fuel : ℕ) (m : Merge) (hf : m.join.size ≤ fuel) : NextSpec m (m.seek fuel) := by
  induction fuel generalizing m with
  | zero =>
    have hz : m.join.size = 0 := Nat.le_zero.mp hf
    refine .none ?_
    simp [candidates, hz, Join.drain]
  | succ fuel ih =>
    simp only [seek]
    cases hn : m.join.next with
    | none =>
      refine .none ?_
      cases hz : m.join.size <;> simp [candidates, hz, Join.drain, hn]
    | some r =>
      obtain ⟨joined, j⟩ := r
      have hsize := Join.next_size hn
      have hall : m.candidates = (m.select joined).toList ++ candidates { m with join := j } := by
        obtain ⟨g, hg⟩ : ∃ g, m.join.size = g + 1 := ⟨m.join.size - 1, by omega⟩
        simp only [candidates, hg, Join.drain, hn, Join.drain_fuel g j (by omega)]
        cases hs : m.select joined with
        | none => simp [hs]; rfl
        | some c => simp [hs]; rfl
      dsimp only
      have hsel : select { m with join := j } joined = m.select joined := rfl
      rw [hsel]
      cases hs : m.select joined with
      | some c =>
        rw [hs] at hall
        exact .some hall hsize
      | none =>
        rw [hs] at hall
        have hrest := ih { m with join := j } (by dsimp only; omega)
        dsimp only
        generalize seek fuel { m with join := j } = out at hrest ⊢
        cases hrest with
        | none empty => exact .none (hall.trans empty)
        | some candidates size =>
          have hlt := size.trans hsize
          exact .some (hall.trans candidates) hlt

theorem nextCandidate_spec (m : Merge) : NextSpec m m.nextCandidate := m.seek_spec _ le_rfl

end Merge

theorem ReplicaSync.orderItems_eq_collapse (items : List ReplicaRemoteItem) :
    orderItems items = Listing.collapse (fun i => i.handle) items := by
  simp only [orderItems, Listing.collapse]
  split
  · rename_i hsorted
    rw [hsorted.insertionSort_eq]
  · rfl

/-- What a snapshot reports of a handle: the first item listed under it. -/
def ReplicaRemoteSnapshot.reported (snapshot : ReplicaRemoteSnapshot) (h : ReplicaHandle) :
    Option ReplicaRemoteItem := snapshot.items.find? (fun i => i.handle = h)

theorem ReplicaRemoteSnapshot.reported_handle {snapshot : ReplicaRemoteSnapshot}
    {h : ReplicaHandle} {i : ReplicaRemoteItem} (hi : snapshot.reported h = some i) :
    i.handle = h := by
  simpa using List.find?_some hi

namespace Merge

/-- The merge a run opens over the stored rows and a snapshot. -/
def between (rows : HandleMap ReplicaPlacement) (snapshot : ReplicaRemoteSnapshot) : Merge where
  join := ⟨rows.toList, ReplicaSync.orderItems snapshot.items⟩
  vanished := snapshot.vanished.toFinset
  complete := snapshot.complete
  checkpoint := snapshot.checkpoint

theorem between_sorted (rows : HandleMap ReplicaPlacement) (snapshot : ReplicaRemoteSnapshot) :
    (between rows snapshot).join.Sorted := by
  refine ⟨OrderedMap.toList_pairwise rows, ?_⟩
  dsimp only [between]
  rw [ReplicaSync.orderItems_eq_collapse]
  exact Listing.collapse_pairwise _ _

theorem between_locAt (rows : HandleMap ReplicaPlacement) (snapshot : ReplicaRemoteSnapshot)
    (h : ReplicaHandle) : (between rows snapshot).join.locAt h = rows[h]? :=
  OrderedMap.find_toList rows h

theorem between_remoteAt (rows : HandleMap ReplicaPlacement) (snapshot : ReplicaRemoteSnapshot)
    (h : ReplicaHandle) : (between rows snapshot).join.remoteAt h = snapshot.reported h := by
  dsimp only [between, Join.remoteAt]
  rw [ReplicaSync.orderItems_eq_collapse]
  exact Listing.find_collapse _ _ _

/-- The delta rule narrows what a candidate reports, never the handle or the row it pairs. -/
theorem select_spec {m : Merge} {c d : Candidate} (h : m.select c = some d) :
    d.handle = c.handle ∧ d.loc = c.loc := by
  simp only [select, narrow] at h
  split at h
  · cases h
    exact ⟨rfl, rfl⟩
  · split at h
    · cases h
      exact ⟨rfl, rfl⟩
    · split at h
      · cases h
        exact ⟨rfl, rfl⟩
      · split at h
        · cases h
        · split at h
          · cases h
          · cases h
            exact ⟨rfl, rfl⟩

theorem select_remote {m : Merge} {c d : Candidate} (h : m.select c = some d)
    {i : ReplicaRemoteItem} (hi : d.remote = some i) : c.remote = some i ∨ i.handle = c.handle := by
  simp only [select, narrow] at h
  split at h
  · cases h
    exact Or.inl hi
  · split at h
    · cases h
      cases hi
    · split at h
      · cases h
        exact Or.inl hi
      · split at h
        · cases h
        · split at h
          · cases h
          · cases h
            simp only [standIn, Option.map_eq_some_iff] at hi
            obtain ⟨base, -, rfl⟩ := hi
            exact Or.inr rfl

/-- The candidate a merge makes of a handle, if it makes one. -/
def candidateAt (rows : HandleMap ReplicaPlacement) (snapshot : ReplicaRemoteSnapshot)
    (h : ReplicaHandle) : Option Candidate :=
  if rows[h]?.isSome ∨ (snapshot.reported h).isSome then
    (between rows snapshot).select ⟨h, rows[h]?, snapshot.reported h⟩
  else none

/-- A staged create the snapshot does not list is paired with nothing. -/
theorem candidateAt_create {rows : HandleMap ReplicaPlacement} {snapshot : ReplicaRemoteSnapshot}
    {h : ReplicaHandle} {p : ReplicaPlacement} (hrow : rows[h]? = some p) (hbase : p.base = none)
    (hstatus : p.status = .created) (hlisted : snapshot.reported h = none) :
    candidateAt rows snapshot h = some ⟨h, some p, none⟩ := by
  simp [candidateAt, hrow, hlisted, select, between, narrow, hstatus, standIn, hbase]

section Deltas
variable {rows : HandleMap ReplicaPlacement} {snapshot : ReplicaRemoteSnapshot} {h : ReplicaHandle}
  (hdelta : snapshot.complete = false)
include hdelta

theorem candidateAt_vanished (hv : h ∈ snapshot.vanished) : candidateAt rows snapshot h =
    if rows[h]?.isSome ∨ (snapshot.reported h).isSome then some ⟨h, rows[h]?, none⟩ else none := by
  simp [candidateAt, select, between, narrow, hdelta, hv]

theorem candidateAt_listed (hv : h ∉ snapshot.vanished) {item : ReplicaRemoteItem}
    (hi : snapshot.reported h = some item) :
    candidateAt rows snapshot h = some ⟨h, rows[h]?, some item⟩ := by
  simp [candidateAt, select, between, narrow, hdelta, hv, hi]

theorem candidateAt_unlisted (hv : h ∉ snapshot.vanished) (hi : snapshot.reported h = none) :
    candidateAt rows snapshot h = rows[h]?.bind (fun p =>
      if p.status = .clean then none else some ⟨h, some p, standIn h p⟩) := by
  cases hp : rows[h]? <;> simp [candidateAt, select, between, narrow, hdelta, hv, hi, hp]

end Deltas

/-- What a merge is told of a stored handle: listed, stood in for by its base, or gone. -/
def seen (rows : HandleMap ReplicaPlacement) (snapshot : ReplicaRemoteSnapshot)
    (h : ReplicaHandle) : Option ReplicaRemoteItem :=
  (candidateAt rows snapshot h).bind (·.remote)

/-- A row that is not clean is a candidate of every snapshot. -/
theorem candidateAt_seen {rows : HandleMap ReplicaPlacement}
    (snapshot : ReplicaRemoteSnapshot) {h : ReplicaHandle} {p : ReplicaPlacement}
    (hrow : rows[h]? = some p) (hs : p.status ≠ .clean) :
    candidateAt rows snapshot h = some ⟨h, some p, seen rows snapshot h⟩ := by
  have hsome : ∃ remote, candidateAt rows snapshot h = some ⟨h, some p, remote⟩ := by
    simp only [candidateAt, hrow, Option.isSome_some, true_or, if_true]
    cases hc : snapshot.complete with
    | true => exact ⟨snapshot.reported h, by simp [select, between, hc]⟩
    | false =>
      by_cases hv : h ∈ snapshot.vanished
      · exact ⟨none, by simp [select, between, narrow, hc, hv]⟩
      · cases hi : snapshot.reported h with
        | some item => exact ⟨some item, by simp [select, between, narrow, hc, hv]⟩
        | none => exact ⟨standIn h p, by simp [select, between, narrow, hc, hv, hs]⟩
  obtain ⟨remote, hat⟩ := hsome
  rw [hat, seen, hat]
  rfl

/-- The candidates of a merge: one a handle at most, in handle order, each pairing the row stored
under its handle with an item of the same handle. -/
structure CandidatesSpec (s : CollectionRows) (snapshot : ReplicaRemoteSnapshot)
    (cs : List Candidate) : Prop where
  ascending : cs.Pairwise (fun a b => a.handle < b.handle)
  paired : ∀ c ∈ cs, c.Paired
  mem_iff : ∀ c, c ∈ cs ↔ candidateAt s.rows snapshot c.handle = some c

theorem candidates_spec (s : CollectionRows) (snapshot : ReplicaRemoteSnapshot) :
    CandidatesSpec s snapshot (between s.rows snapshot).candidates := by
  have hdrain := Join.drain_spec _ _ (between_sorted s.rows snapshot) le_rfl
  have hmem : ∀ c, c ∈ (between s.rows snapshot).candidates ↔
      candidateAt s.rows snapshot c.handle = some c := by
    intro c
    simp only [candidates, List.mem_filterMap, candidateAt]
    constructor
    · rintro ⟨d, hd, hsel⟩
      obtain ⟨hloc, hremote, hsome⟩ := hdrain.sound d hd
      rw [between_locAt] at hloc
      rw [between_remoteAt] at hremote
      obtain ⟨hh, -⟩ := select_spec hsel
      rw [hloc, hremote] at hsome
      obtain ⟨h, loc, remote⟩ := d
      dsimp only at hh hloc hremote hsome
      rw [hh, if_pos hsome, ← hloc, ← hremote]
      exact hsel
    · intro hc
      split at hc
      · rename_i hsome
        refine ⟨_, ?_, hc⟩
        rw [← between_locAt s.rows snapshot, ← between_remoteAt s.rows snapshot] at hsome ⊢
        exact hdrain.complete c.handle hsome
      · cases hc
  refine ⟨?_, ?_, hmem⟩
  · refine List.Pairwise.filterMap _ ?_ hdrain.ascending
    intro a b hab a' ha' b' hb'
    rw [(select_spec ha').1, (select_spec hb').1]
    exact hab
  · intro c hc
    have hat := (hmem c).mp hc
    simp only [candidateAt] at hat
    split at hat
    · obtain ⟨-, hloc⟩ := select_spec hat
      refine ⟨?_, ?_⟩
      · intro p hp
        rw [hloc] at hp
        exact s.keyed _ _ hp
      · intro i hi
        rcases select_remote hat hi with hr | hr
        · exact ReplicaRemoteSnapshot.reported_handle hr
        · exact hr
    · cases hat

/-- What a merge is told of a handle names it. -/
theorem seen_handle {rows : CollectionRows} {snapshot : ReplicaRemoteSnapshot} {h : ReplicaHandle}
    {item : ReplicaRemoteItem} (hi : seen rows.rows snapshot h = some item) : item.handle = h := by
  obtain ⟨c, hc, hitem⟩ := Option.bind_eq_some_iff.mp hi
  obtain ⟨-, hpaired, hmem⟩ := candidates_spec rows snapshot
  have hh : c.handle = h := by
    simp only [candidateAt] at hc
    split at hc
    · exact (select_spec hc).1
    · cases hc
  rw [← hh] at hc
  exact ((hpaired c ((hmem c).mpr hc)).remote item hitem).trans hh

end Merge
end IoReplica

import IoReplica.Sync.Machine
import IoReplica.Library.Listing
import IoReplica.Library.OrderedMap

/-! The handle join is a full outer join, and the candidates it leaves the merge. -/
namespace IoReplica
namespace Join

/-- Both sides walk in strictly ascending handle order. -/
structure Sorted (j : Join) : Prop where
  loc : j.loc.Pairwise (fun a b => a.1 < b.1)
  remote : j.remote.Pairwise (fun a b => a.handle < b.handle)

/-- The placement the join still holds for a handle. -/
def locAt (j : Join) (h : ReplicaHandle) : Option ReplicaPlacement :=
  (j.loc.find? (fun e => e.1 = h)).map (·.2)

/-- The remote item the join still holds for a handle. -/
def remoteAt (j : Join) (h : ReplicaHandle) : Option ReplicaRemoteItem :=
  j.remote.find? (fun i => i.handle = h)

/-- Every handle either side still holds lies above `h`. -/
def Above (j : Join) (h : ReplicaHandle) : Prop :=
  (∀ e ∈ j.loc, h < e.1) ∧ ∀ i ∈ j.remote, h < i.handle

theorem Above.locAt {j : Join} {h : ReplicaHandle} (ha : j.Above h) : j.locAt h = none := by
  rw [Join.locAt, List.find?_eq_none.mpr]
  · rfl
  · intro e he
    simpa using (ha.1 e he).ne'

theorem Above.remoteAt {j : Join} {h : ReplicaHandle} (ha : j.Above h) : j.remoteAt h = none := by
  rw [Join.remoteAt, List.find?_eq_none.mpr]
  intro i hi
  simpa using (ha.2 i hi).ne'

@[simp] theorem locAt_cons (h k : ReplicaHandle) (p : ReplicaPlacement)
    (locs : List (ReplicaHandle × ReplicaPlacement)) (items : List ReplicaRemoteItem) :
    locAt ⟨(k, p) :: locs, items⟩ h = if k = h then some p else locAt ⟨locs, items⟩ h := by
  simp only [locAt, List.find?_cons]
  split_ifs with hk <;> simp [hk]

@[simp] theorem remoteAt_cons (h : ReplicaHandle) (i : ReplicaRemoteItem)
    (locs : List (ReplicaHandle × ReplicaPlacement)) (items : List ReplicaRemoteItem) :
    remoteAt ⟨locs, i :: items⟩ h = if i.handle = h then some i else remoteAt ⟨locs, items⟩ h := by
  simp only [remoteAt, List.find?_cons]
  split_ifs with hk <;> simp [hk]

/-- What one call of `next` yields from a sorted join, and what it leaves. -/
structure NextSpec (j : Join) (c : Candidate) (j' : Join) : Prop where
  loc : c.loc = j.locAt c.handle
  remote : c.remote = j.remoteAt c.handle
  some : c.loc.isSome ∨ c.remote.isSome
  size : j'.size < j.size
  sorted : j'.Sorted
  above : j'.Above c.handle
  locAt : ∀ h, h ≠ c.handle → j'.locAt h = j.locAt h
  remoteAt : ∀ h, h ≠ c.handle → j'.remoteAt h = j.remoteAt h

theorem next_spec {j j' : Join} {c : Candidate} (hs : j.Sorted) (hn : j.next = some (c, j')) :
    NextSpec j c j' := by
  obtain ⟨locs, items⟩ := j
  obtain ⟨hl, hr⟩ := hs
  cases locs with
  | nil =>
    cases items with
    | nil => cases hn
    | cons i items =>
      simp only [next, Option.some.injEq, Prod.mk.injEq] at hn
      obtain ⟨rfl, rfl⟩ := hn
      rw [List.pairwise_cons] at hr
      refine ⟨rfl, by simp, Or.inr rfl, by simp [size], ⟨hl, hr.2⟩, ⟨by simp, hr.1⟩, ?_, ?_⟩
      · intro h _
        rfl
      · intro h hne
        simp [hne.symm]
  | cons e locs =>
    obtain ⟨k, p⟩ := e
    rw [List.pairwise_cons] at hl
    cases items with
    | nil =>
      simp only [next, Option.some.injEq, Prod.mk.injEq] at hn
      obtain ⟨rfl, rfl⟩ := hn
      refine ⟨by simp, rfl, Or.inl rfl, by simp [size], ⟨hl.2, hr⟩, ⟨hl.1, by simp⟩, ?_, ?_⟩
      · intro h hne
        simp [hne.symm]
      · intro h _
        rfl
    | cons i items =>
      have hr' := List.pairwise_cons.mp hr
      simp only [next] at hn
      cases hc : compare k i.handle with
      | lt =>
        have hlt : k < i.handle := compare_lt_iff_lt.mp hc
        simp only [hc, Option.some.injEq, Prod.mk.injEq] at hn
        obtain ⟨rfl, rfl⟩ := hn
        have hup : ∀ x ∈ i :: items, k < x.handle := by
          intro x hx
          rcases List.mem_cons.mp hx with rfl | hx
          · exact hlt
          · exact hlt.trans (hr'.1 x hx)
        have hab : Above ⟨locs, i :: items⟩ k := ⟨hl.1, hup⟩
        refine ⟨by simp, hab.remoteAt.symm, Or.inl rfl, ?_, ⟨hl.2, hr⟩, hab, ?_, ?_⟩
        · simp only [size, List.length_cons]
          omega
        · intro h hne
          simp [hne.symm]
        · intro h _
          rfl
      | gt =>
        have hlt : i.handle < k := compare_gt_iff_gt.mp hc
        simp only [hc, Option.some.injEq, Prod.mk.injEq] at hn
        obtain ⟨rfl, rfl⟩ := hn
        have hup : ∀ x ∈ (k, p) :: locs, i.handle < x.1 := by
          intro x hx
          rcases List.mem_cons.mp hx with rfl | hx
          · exact hlt
          · exact hlt.trans (hl.1 x hx)
        have hab : Above ⟨(k, p) :: locs, items⟩ i.handle := ⟨hup, hr'.1⟩
        refine ⟨hab.locAt.symm, by simp, Or.inr rfl, ?_, ⟨List.pairwise_cons.mpr hl, hr'.2⟩,
          hab, ?_, ?_⟩
        · simp only [size, List.length_cons]
          omega
        · intro h _
          rfl
        · intro h hne
          simp [hne.symm]
      | eq =>
        have heq : k = i.handle := compare_eq_iff_eq.mp hc
        simp only [hc, Option.some.injEq, Prod.mk.injEq] at hn
        obtain ⟨rfl, rfl⟩ := hn
        subst heq
        refine ⟨by simp, by simp, Or.inl rfl, ?_, ⟨hl.2, hr'.2⟩, ⟨hl.1, hr'.1⟩, ?_, ?_⟩
        · simp only [size, List.length_cons]
          omega
        · intro h hne
          rw [locAt_cons, if_neg hne.symm]
          rfl
        · intro h hne
          rw [remoteAt_cons, if_neg hne.symm]
          rfl

theorem next_eq_none {j : Join} (hn : j.next = none) : j.loc = [] ∧ j.remote = [] := by
  obtain ⟨locs, items⟩ := j
  cases locs with
  | nil =>
    cases items with
    | nil => exact ⟨rfl, rfl⟩
    | cons i items => cases hn
  | cons e locs =>
    cases items with
    | nil => cases hn
    | cons i items =>
      simp only [next] at hn
      split at hn <;> cases hn

/-- The candidates of a join, by calling `next` until it ends, within `fuel` calls. -/
def drain : ℕ → Join → List Candidate
  | 0, _ => []
  | fuel + 1, j =>
    match j.next with
    | none => []
    | some (c, j') => c :: drain fuel j'

/-- Every handle of either side, exactly once, ascending and paired as the sides hold it. -/
structure DrainSpec (j : Join) (cs : List Candidate) : Prop where
  ascending : cs.Pairwise (fun a b => a.handle < b.handle)
  sound : ∀ c ∈ cs, c.loc = j.locAt c.handle ∧ c.remote = j.remoteAt c.handle ∧
    (c.loc.isSome ∨ c.remote.isSome)
  complete : ∀ h, ((j.locAt h).isSome ∨ (j.remoteAt h).isSome) →
    ⟨h, j.locAt h, j.remoteAt h⟩ ∈ cs

theorem drain_spec (fuel : ℕ) (j : Join) (hs : j.Sorted) (hf : j.size ≤ fuel) :
    DrainSpec j (j.drain fuel) := by
  induction fuel generalizing j with
  | zero =>
    obtain ⟨locs, items⟩ := j
    simp only [size, Nat.le_zero, Nat.add_eq_zero_iff, List.length_eq_zero_iff] at hf
    obtain ⟨rfl, rfl⟩ := hf
    exact ⟨List.Pairwise.nil, by simp [drain], by simp [locAt, remoteAt]⟩
  | succ fuel ih =>
    simp only [drain]
    cases hn : j.next with
    | none =>
      obtain ⟨hl, hr⟩ := next_eq_none hn
      exact ⟨List.Pairwise.nil, by simp, by simp [locAt, remoteAt, hl, hr]⟩
    | some r =>
      obtain ⟨c, j'⟩ := r
      have hspec := next_spec hs hn
      have hsize := hspec.size
      obtain ⟨hasc, hsound, hcomp⟩ := ih j' hspec.sorted (by omega)
      have hup : ∀ d ∈ drain fuel j', c.handle < d.handle := by
        intro d hd
        obtain ⟨hdl, hdr, hsome⟩ := hsound d hd
        rcases hsome with hsome | hsome
        · rw [hdl, locAt, Option.isSome_map, List.find?_isSome] at hsome
          obtain ⟨e, he, heq⟩ := hsome
          rw [← of_decide_eq_true heq]
          exact hspec.above.1 e he
        · rw [hdr, remoteAt, List.find?_isSome] at hsome
          obtain ⟨i, hi, heq⟩ := hsome
          rw [← of_decide_eq_true heq]
          exact hspec.above.2 i hi
      refine ⟨List.pairwise_cons.mpr ⟨hup, hasc⟩, ?_, ?_⟩
      · intro d hd
        rcases List.mem_cons.mp hd with rfl | hd
        · exact ⟨hspec.loc, hspec.remote, hspec.some⟩
        · obtain ⟨hdl, hdr, hsome⟩ := hsound d hd
          have hne : d.handle ≠ c.handle := (hup d hd).ne'
          exact ⟨hdl.trans (hspec.locAt _ hne), hdr.trans (hspec.remoteAt _ hne), hsome⟩
      · intro h hh
        by_cases he : h = c.handle
        · subst he
          rw [← hspec.loc, ← hspec.remote]
          exact List.mem_cons_self
        · rw [← hspec.locAt h he, ← hspec.remoteAt h he] at hh ⊢
          exact List.mem_cons_of_mem _ (hcomp h hh)

/-- Calling `next` over and over yields these candidates, and then ends. -/
inductive Yields : Join → List Candidate → Prop
  | ends {j : Join} (hn : j.next = none) : Yields j []
  | next {j j' : Join} {c : Candidate} {cs : List Candidate} (hn : j.next = some (c, j'))
      (rest : Yields j' cs) : Yields j (c :: cs)

theorem Yields.unique {j : Join} {cs ds : List Candidate} (hc : Yields j cs) (hd : Yields j ds) :
    cs = ds := by
  induction hc generalizing ds with
  | ends hn =>
    cases hd with
    | ends => rfl
    | next hn' =>
      rw [hn] at hn'
      cases hn'
  | next hn _ ih =>
    cases hd with
    | ends hn' =>
      rw [hn] at hn'
      cases hn'
    | next hn' rest =>
      rw [hn] at hn'
      cases hn'
      rw [ih rest]

theorem drain_yields (fuel : ℕ) (j : Join) (hs : j.Sorted) (hf : j.size ≤ fuel) :
    Yields j (j.drain fuel) := by
  induction fuel generalizing j with
  | zero =>
    obtain ⟨locs, items⟩ := j
    simp only [size, Nat.le_zero, Nat.add_eq_zero_iff, List.length_eq_zero_iff] at hf
    obtain ⟨rfl, rfl⟩ := hf
    exact .ends rfl
  | succ fuel ih =>
    simp only [drain]
    cases hn : j.next with
    | none => exact .ends hn
    | some r =>
      obtain ⟨c, j'⟩ := r
      have hspec := next_spec hs hn
      have hsize := hspec.size
      exact .next hn (ih j' hspec.sorted (by omega))

/-- The join of an ordered map and of an ordered listing. -/
def new (loc : HandleMap ReplicaPlacement) (remote : List ReplicaRemoteItem) : Join :=
  ⟨loc.toList, remote⟩

theorem new_locAt (loc : HandleMap ReplicaPlacement) (remote : List ReplicaRemoteItem)
    (h : ReplicaHandle) : (new loc remote).locAt h = loc[h]? := OrderedMap.find_toList loc h

theorem new_remoteAt (loc : HandleMap ReplicaPlacement) {remote : List ReplicaRemoteItem}
    (hr : remote.Pairwise (fun a b => a.handle < b.handle)) {h : ReplicaHandle}
    {i : ReplicaRemoteItem} : (new loc remote).remoteAt h = some i ↔ i ∈ remote ∧ i.handle = h := by
  rw [remoteAt, new]
  constructor
  · intro hf
    exact ⟨List.mem_of_find?_eq_some hf, by simpa using List.find?_some hf⟩
  · rintro ⟨hi, rfl⟩
    exact (Listing.mem_iff_find (fun i => i.handle) hr i).mp hi

/-- The join walks each handle of either side once, in order, pairing what the sides hold of it. -/
theorem outer_join (loc : HandleMap ReplicaPlacement) (remote : List ReplicaRemoteItem)
    (hr : remote.Pairwise (fun a b => a.handle < b.handle)) :
    ∃ cs, Yields (new loc remote) cs ∧ (∀ ds, Yields (new loc remote) ds → ds = cs) ∧
      cs.Pairwise (fun a b => a.handle < b.handle) ∧
      (∀ h, (∃ c ∈ cs, c.handle = h) ↔ loc[h]?.isSome ∨ ∃ i ∈ remote, i.handle = h) ∧
      ∀ c ∈ cs, c.loc = loc[c.handle]? ∧
        ∀ i, c.remote = some i ↔ i ∈ remote ∧ i.handle = c.handle := by
  have hs : (new loc remote).Sorted := ⟨OrderedMap.toList_pairwise loc, hr⟩
  have hyields := drain_yields _ (new loc remote) hs le_rfl
  obtain ⟨hasc, hsound, hcomplete⟩ := drain_spec _ (new loc remote) hs le_rfl
  have hsides : ∀ h, ((new loc remote).locAt h).isSome ∨ ((new loc remote).remoteAt h).isSome ↔
      loc[h]?.isSome ∨ ∃ i ∈ remote, i.handle = h := by
    intro h
    rw [new_locAt, Option.isSome_iff_exists (x := (new loc remote).remoteAt h)]
    simp only [new_remoteAt loc hr]
  refine ⟨_, hyields, fun ds hd => hd.unique hyields, hasc, ?_, ?_⟩
  · intro h
    rw [← hsides]
    constructor
    · rintro ⟨c, hc, rfl⟩
      obtain ⟨hloc, hremote, hsome⟩ := hsound c hc
      rwa [hloc, hremote] at hsome
    · exact fun hh => ⟨_, hcomplete h hh, rfl⟩
  · intro c hc
    obtain ⟨hloc, hremote, -⟩ := hsound c hc
    refine ⟨hloc.trans (new_locAt loc remote c.handle), fun i => ?_⟩
    rw [hremote, new_remoteAt loc hr]

/-- Two stored rows, the second of them listed beside a member nobody stored. -/
theorem outer_join_of_listed :
    let item (h : ReplicaHandle) : ReplicaRemoteItem := ⟨h, .empty, none⟩
    let row (h : ReplicaHandle) : ReplicaPlacement := ReplicaSync.pulledPlacement ⟨"inbox"⟩ (item h)
    let loc : HandleMap ReplicaPlacement :=
      ((∅ : HandleMap ReplicaPlacement).insert ⟨"1"⟩ (row ⟨"1"⟩)).insert ⟨"2"⟩ (row ⟨"2"⟩)
    ∃ cs, Yields (new loc [item ⟨"2"⟩, item ⟨"3"⟩]) cs ∧
      cs.map (fun c => (c.handle, c.loc, c.remote)) =
        [(⟨"1"⟩, some (row ⟨"1"⟩), none), (⟨"2"⟩, some (row ⟨"2"⟩), some (item ⟨"2"⟩)),
          (⟨"3"⟩, none, some (item ⟨"3"⟩))] := by
  intro item row loc
  have hr : [item ⟨"2"⟩, item ⟨"3"⟩].Pairwise (fun a b => a.handle < b.handle) := by
    decide +kernel
  obtain ⟨cs, hyields, hunique, -⟩ := outer_join loc [item ⟨"2"⟩, item ⟨"3"⟩] hr
  refine ⟨cs, hyields, ?_⟩
  rw [← hunique _ (drain_yields 4 _ ⟨OrderedMap.toList_pairwise loc, hr⟩ (by decide +kernel))]
  decide +kernel

end Join
end IoReplica

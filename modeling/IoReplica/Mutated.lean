import IoReplica.Store
import IoReplica.Mutate

/-! A completed mutation: what it loaded, and what it stages of it. -/
namespace IoReplica

/-- A completed run of a mutation: what it loaded, and every exchange. -/
def Mutates (collection : ReplicaCollectionId) (mutation : ReplicaMutation) (loaded : ReplicaLoaded)
    (t : Transcript) : Prop :=
  ∃ rest, t = (.wantsLoad collection mutation.scope, .load loaded) :: rest ∧
    Coroutine.Runs ReplicaMutate.resume (.new collection mutation) none t (.ok ())

open ReplicaMutate in
/-- What a mutation stages: of the source it names, or of nothing where it adds one. -/
inductive Stages (collection : ReplicaCollectionId) (loaded : ReplicaLoaded) :
    ReplicaMutation → List ReplicaWriteOp → Prop
  | source {mutation : ReplicaMutation} {h : ReplicaHandle} {p : ReplicaPlacement}
      (names : mutation.handle = some h)
      (found : loaded.placements.find? (fun q => q.handle = h) = some p) :
      Stages collection loaded mutation ((new collection mutation).writes p)
  | add (handle : ReplicaHandle) (linkId : ReplicaLinkId) (flags : ReplicaFlags)
      (object : ReplicaObject) (body : List UInt8) (metadata : Option ReplicaMeta)
      (sortKey : ReplicaSortKey) (apart : collides linkId loaded.placements = false) :
      Stages collection loaded (.add handle linkId flags object body metadata sortKey)
        [.storeObject object (some body),
          .upsertPlacement (created collection handle linkId flags object metadata sortKey)]

/-- The rest of a mutation once it has asked to write. -/
theorem ReplicaMutate.ends_write {c : ReplicaMutate} {ops : List ReplicaWriteOp} {u : Transcript}
    (hc : c.state = .pendingWrite)
    (h : Coroutine.Ends ReplicaMutate.resume (c, .yielded (.wantsWrite ops)) u (.ok ())) :
    u = [(.wantsWrite ops, .write)] := by
  obtain ⟨b, v, rfl, hwrite⟩ := h
  cases b with
  | write =>
    have hends := hwrite.ends
    simp only [ReplicaMutate.resume, hc] at hends
    obtain ⟨rfl, -⟩ := hends
    rfl
  | enumerate | fetch | push | load | lookupObject =>
    have hends := hwrite.ends
    simp [ReplicaMutate.resume, hc, Coroutine.Ends] at hends

/-- A completed mutation loads once, and writes what it stages of that in one batch. -/
theorem Mutates.exchanges {collection : ReplicaCollectionId} {mutation : ReplicaMutation}
    {loaded : ReplicaLoaded} {t : Transcript} (h : Mutates collection mutation loaded t) :
    ∃ ops, Stages collection loaded mutation ops ∧
      t = [(.wantsLoad collection mutation.scope, .load loaded), (.wantsWrite ops, .write)] := by
  obtain ⟨rest, rfl, hruns⟩ := h
  obtain ⟨b, u, hsplit, hload⟩ := hruns.ends
  cases hsplit
  have hends := hload.ends
  simp only [ReplicaMutate.resume, ReplicaMutate.new] at hends
  cases hh : mutation.handle with
  | some handle =>
    rw [hh] at hends
    dsimp only at hends
    cases hfind : loaded.placements.find? (fun q => q.handle = handle) with
    | none =>
      rw [hfind] at hends
      exact absurd hends.2 (by simp)
    | some p =>
      rw [hfind] at hends
      have hrest : rest = [(.wantsWrite ((ReplicaMutate.new collection mutation).writes p), .write)] :=
        ReplicaMutate.ends_write rfl hends
      exact ⟨_, .source hh hfind, by rw [hrest]⟩
  | none =>
    cases mutation with
    | add handle linkId flags object body metadata sortKey =>
      simp only [ReplicaMutation.handle] at hends
      cases hc : ReplicaMutate.collides linkId loaded.placements with
      | true =>
        rw [hc] at hends
        exact absurd hends.2 (by simp)
      | false =>
        rw [hc] at hends
        have hrest : rest = [(.wantsWrite [.storeObject object (some body), .upsertPlacement
            (ReplicaMutate.created collection handle linkId flags object metadata sortKey)], .write)] :=
          ReplicaMutate.ends_write rfl hends
        exact ⟨_, .add handle linkId flags object body metadata sortKey hc, by rw [hrest]⟩
    | setFlags | remove | edit | copy | move => cases hh

/-- Every completed run is one of what it loaded. -/
theorem runs_mutates {collection : ReplicaCollectionId} {mutation : ReplicaMutation} {t : Transcript}
    (h : Coroutine.Runs ReplicaMutate.resume (.new collection mutation) none t (.ok ())) :
    ∃ loaded, Mutates collection mutation loaded t := by
  obtain ⟨b, u, rfl, hload⟩ := h.ends
  cases b with
  | load loaded => exact ⟨loaded, u, rfl, h⟩
  | enumerate | fetch | push | write | lookupObject => exact absurd hload.ends.2 (by simp)

theorem Mutates.stages {collection : ReplicaCollectionId} {mutation : ReplicaMutation}
    {loaded : ReplicaLoaded} {t : Transcript} (h : Mutates collection mutation loaded t) :
    Stages collection loaded mutation t.writes ∧ t.loaded = loaded.placements := by
  obtain ⟨ops, hstages, rfl⟩ := h.exchanges
  have hwrites : Transcript.writes [(.wantsLoad collection mutation.scope, .load loaded),
      (.wantsWrite ops, .write)] = ops := by simp [Transcript.writes]
  rw [hwrites]
  exact ⟨hstages, by simp [Transcript.loaded]⟩

/-- What a mutation stages of a load, a run of it writes. -/
theorem Stages.mutates {collection : ReplicaCollectionId} {mutation : ReplicaMutation}
    {loaded : ReplicaLoaded} {ops : List ReplicaWriteOp}
    (h : Stages collection loaded mutation ops) : Mutates collection mutation loaded
      [(.wantsLoad collection mutation.scope, .load loaded), (.wantsWrite ops, .write)] := by
  have hwritten : Coroutine.Runs ReplicaMutate.resume ⟨collection, mutation, .pendingWrite⟩
      (some .write) [] (.ok ()) := .done rfl
  refine ⟨_, rfl, .ask rfl (.ask ?_ hwritten)⟩
  cases h with
  | source names found =>
    simp only [ReplicaMutate.resume, ReplicaMutate.new, names, found]
    rfl
  | add handle linkId flags object body metadata sortKey apart =>
    simp [ReplicaMutate.resume, ReplicaMutate.new, ReplicaMutation.handle, apart,
      ReplicaMutate.createWrites]

end IoReplica

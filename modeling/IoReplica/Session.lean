import IoReplica.Calls

/-! Sessions of a client: its calls in any order, each succeeding or failing wherever it may, and
what every one of them keeps of the rows stored. -/
namespace IoReplica

section Session

variable {S R : Type} [ReplicaStorage S] [ReplicaRemote R]

/-- Calls one after the other, each returning. The remote moves as it likes from one to the next. -/
def Session : ReplicaClient S R → ReplicaClient S R → Prop :=
  Relation.ReflTransGen (fun client next => ∃ (remote : R) (call : ReplicaCall) (fuel : ℕ) (ok : Bool),
    call.run fuel { client with remote := remote } = some (next, ok))

end Session

namespace Stored

/-- One call over the store. -/
def Call (s s' : Stored) : Prop := ∃ (call : ReplicaCall) (ok : Bool), call.Leaves s ok s'

/-- A session of a client over a lawful storage is a sequence of calls over its store. -/
theorem session_calls {S R : Type} [ReplicaStorage S] [ReplicaRemote R] [LawfulStorage S]
    {client client' : ReplicaClient S R} (h : Session client client') :
    Relation.ReflTransGen Call client.stored client'.stored := by
  induction h with
  | refl => exact .refl
  | tail _ hcall ih =>
    obtain ⟨remote, call, fuel, ok, hrun⟩ := hcall
    have hleaves := ReplicaCall.run_leaves hrun
    exact ih.tail ⟨call, ok, hleaves⟩

/-- Every row stored has the property, beside the bodies indexed. -/
def All (P : Finset ReplicaHash → ReplicaPlacement → Prop) (s : Stored) : Prop :=
  ∀ (c : ReplicaCollectionId) (g : ReplicaHandle) (p : ReplicaPlacement),
    s.row c g = some p → P s.objects p

theorem objects_subset (s : Stored) (ops : List ReplicaWriteOp) :
    s.objects ⊆ (s.apply ops).objects := fun hash h => (s.mem_objects ops hash).mpr (Or.inl h)

theorem stores_mem (s : Stored) {ops : List ReplicaWriteOp} {object : ReplicaObject}
    {body : Option (List UInt8)} (h : .storeObject object body ∈ ops) :
    object.hash ∈ (s.apply ops).objects := (s.mem_objects ops _).mpr (Or.inr ⟨_, h, rfl⟩)

/-- A row a batch leaves was stored before it, or is one the batch wrote. -/
theorem row_apply {s : Stored} {ops : List ReplicaWriteOp} {c : ReplicaCollectionId}
    {g : ReplicaHandle} {q : ReplicaPlacement} (h : (s.apply ops).row c g = some q) :
    s.row c g = some q ∨ .upsertPlacement q ∈ ops := by
  rw [row, apply_rows] at h
  exact s.rows.apply_mem h

end Stored

open ReplicaMutate ReplicaUpgrade in
/-- A property of rows, beside the bodies indexed, that each row a verb makes of rows that have it
has too. -/
structure Kept (P : Finset ReplicaHash → ReplicaPlacement → Prop) : Prop where
  grows : ∀ {a b : Finset ReplicaHash} {p : ReplicaPlacement}, a ⊆ b → P a p → P b p
  synced : ∀ {s : Stored} {c opts snapshot t first rest},
    Syncs c opts ⟨(s.rows.rows c).placements, s.checkpoints c⟩ snapshot t → t.batches = first ++ rest →
      s.All P → (s.apply first.flatten).All P
  created : ∀ {objects object} c handle linkId flags metadata sortKey, object.hash ∈ objects →
    P objects (created c handle linkId flags object metadata sortKey)
  flagged : ∀ {objects p} flags, P objects p → P objects (flagged p flags)
  removed : ∀ {objects p}, P objects p → P objects (removed p)
  moved : ∀ {objects p} target, P objects p → P objects (movedAway p target)
  edited : ∀ {objects p hash} metadata sortKey, P objects p → hash ∈ objects →
    P objects (edited p hash metadata sortKey)
  copied : ∀ {objects p} target placeholder, P objects p → P objects (stagedCopy p target placeholder)
  linked : ∀ {objects p q hash}, P objects p → P objects q → q.object = some hash →
    P objects (linked p hash)
  fetched : ∀ {objects tier p item q}, P objects p → WrittenFrom tier p item q →
    (tier = .full → ∀ body, item.body = some body → (storedBody body).1.hash ∈ objects) → P objects q
  carried : ∀ {objects p} self item resolved, P objects p →
    P objects (ReplicaRekey.carry self p item resolved)
  fresh : ∀ {objects} self item resolved, P objects (ReplicaRekey.fresh self item resolved)
  unmatched : ∀ {objects p}, P objects p → P objects (ReplicaRekey.resurrected p)

/-- A property each row update of a sync keeps, every sync keeps, as far as it gets. -/
theorem synced_inherits {P : Finset ReplicaHash → ReplicaPlacement → Prop}
    (hgrows : ∀ {a b : Finset ReplicaHash} {p : ReplicaPlacement}, a ⊆ b → P a p → P b p)
    (hmerged : ∀ objects c, Inherits c (P objects))
    (hreverted : ∀ {objects p}, P objects p → P objects { p with status := .clean }) {s : Stored}
    {c : ReplicaCollectionId} {opts : ReplicaSyncOptions} {snapshot : ReplicaRemoteSnapshot}
    {t : Transcript} {first rest : List (List ReplicaWriteOp)}
    (hsync : Syncs c opts ⟨(s.rows.rows c).placements, s.checkpoints c⟩ snapshot t)
    (hbatches : t.batches = first ++ rest) (hs : s.All P) : (s.apply first.flatten).All P := by
  intro d g q hq
  rcases Stored.row_apply hq with hq | hq
  · exact hgrows (s.objects_subset _) (hs d g q hq)
  · have hwritten : .upsertPlacement q ∈ t.writes := by
      rw [← t.flatten_batches, hbatches, List.flatten_append]
      exact List.mem_append_left _ hq
    have hobey : (s.rows.rows c).Obey (P s.objects) :=
      ⟨hs c, fun g p hp _ => hreverted (hs c g p hp)⟩
    have hq' : P s.objects q := hsync.obeys rfl (hmerged _ c) hobey _ hwritten
    exact hgrows (s.objects_subset _) hq'

/-- Every load of an upgrade is of its own collection. -/
theorem Upgrades.loads_own {c d : ReplicaCollectionId} {handles : List ReplicaHandle}
    {tier : ReplicaTier} {loaded : ReplicaLoaded} {t : Transcript}
    (h : Upgrades c handles tier loaded t) {scope : ReplicaLoadScope} {a : ReplicaArg}
    (hmem : (.wantsLoad d scope, a) ∈ t) : d = c := by
  obtain ⟨rest, report, -, hruns⟩ := h
  have hself : (ReplicaUpgrade.new c handles tier).collection = c := rfl
  generalize ReplicaUpgrade.new c handles tier = self at hruns hself
  generalize (Except.ok report : Except ReplicaArgError ReplicaUpgradeReport) = r at hruns
  generalize (none : Option ReplicaArg) = a₀ at hruns
  induction hruns with
  | done => cases hmem
  | ask yields _ ih =>
    obtain ⟨-, hcoll, hasks⟩ := ReplicaUpgrade.resume_asks yields
    rcases List.mem_cons.mp hmem with heq | hmem
    · cases heq
      cases hasks
      exact hself
    · exact ih hmem (hcoll.trans hself)

/-- An upgrade over a store is served the rows of its collection. -/
theorem Upgrades.served {s : Stored} {c : ReplicaCollectionId} {handles : List ReplicaHandle}
    {tier : ReplicaTier} {loaded : ReplicaLoaded} {t : Transcript}
    (h : Upgrades c handles tier loaded t) (hreads : s.Reads t) : Serves (s.rows.rows c) t := by
  intro p hp
  obtain ⟨d, scope, more, hmem, hloads, hp⟩ := hreads.loaded hp
  cases h.loads_own hmem
  exact hloads.stored p hp

namespace ReplicaCall

variable {P : Finset ReplicaHash → ReplicaPlacement → Prop} {s : Stored}

theorem staged_kept (hP : Kept P) {c : ReplicaCollectionId} {mutation : ReplicaMutation}
    {loaded : ReplicaLoaded} {ops : List ReplicaWriteOp}
    (hloaded : ∀ p ∈ loaded.placements, P s.objects p) (hstages : Stages c loaded mutation ops) {q : ReplicaPlacement} (hq : .upsertPlacement q ∈ ops) :
    P (s.apply ops).objects q := by
  cases hstages with
  | add handle linkId flags object body metadata sortKey =>
    simp only [List.mem_cons, reduceCtorEq, false_or, List.not_mem_nil, or_false] at hq
    cases hq
    exact hP.created _ _ _ _ _ _ (s.stores_mem List.mem_cons_self)
  | @source _ g p names found =>
    have hp : P (s.apply ((ReplicaMutate.new c mutation).writes p)).objects p :=
      hP.grows (s.objects_subset _) (hloaded p (List.mem_of_find?_eq_some found))
    cases mutation with
    | add => cases names
    | setFlags g' flags =>
      cases List.mem_singleton.mp hq
      exact hP.flagged flags hp
    | remove g' =>
      cases List.mem_singleton.mp hq
      exact hP.removed hp
    | edit g' object body metadata sortKey =>
      simp only [ReplicaMutate.writes, ReplicaMutate.new, List.mem_cons, reduceCtorEq, false_or,
        List.not_mem_nil, or_false] at hq
      cases hq
      exact hP.edited metadata sortKey hp (s.stores_mem List.mem_cons_self)
    | copy g' target placeholder =>
      cases List.mem_singleton.mp hq
      exact hP.copied target placeholder hp
    | move g' target placeholder =>
      simp only [ReplicaMutate.writes, ReplicaMutate.new, List.mem_append, List.mem_singleton] at hq
      rcases hq with hq | hq
      · split at hq
        · cases List.mem_singleton.mp hq
          exact hP.copied target placeholder hp
        · cases hq
      · cases hq
        exact hP.moved target hp

theorem upgraded_kept (hP : Kept P) (hs : s.All P) {c : ReplicaCollectionId}
    {handles : List ReplicaHandle} {tier : ReplicaTier} {loaded : ReplicaLoaded} {t : Transcript}
    (hupgrades : Upgrades c handles tier loaded t) (hreads : s.Reads t) {q : ReplicaPlacement}
    (hq : .upsertPlacement q ∈ t.writes) : P (s.apply t.writes).objects q := by
  have hserves := hupgrades.served hreads
  have hkept : ∀ p ∈ t.loaded, P (s.apply t.writes).objects p := fun p hp =>
    hP.grows (s.objects_subset _) (hs c _ p (hserves p hp))
  rcases hupgrades.sources hserves hq with
    ⟨p, hp, hash, hhit, heq⟩ | ⟨item, hitem, p, hp, hh, hanswers, hwrites⟩
  · cases heq
    obtain ⟨link, -, hlink⟩ := Option.bind_eq_some_iff.mp (ReplicaUpgrade.of_hit hhit).2
    obtain ⟨links, known, hfinds, hknown⟩ := hreads.known hlink
    obtain ⟨-, d, g, r, hr, -, hobject⟩ := hfinds link hash hknown
    exact hP.linked (hkept p (hupgrades.mem_loaded hp))
      (hP.grows (s.objects_subset _) (hs d g r hr)) hobject
  · cases hwrites with
    | row _ written =>
      obtain ⟨-, -, -, hbody⟩ := hupgrades.answered hserves hitem hp hh hanswers
      exact hP.fetched (hkept p hp) written
        (fun hfull body hb => s.stores_mem (hbody hfull body hb))

/-- Every call keeps what each row update keeps. -/
theorem Leaves.kept {call : ReplicaCall} {ok : Bool} {s' : Stored} (h : call.Leaves s ok s')
    (hP : Kept P) (hs : s.All P) : s'.All P := by
  have hrows : ∀ ops : List ReplicaWriteOp,
      (∀ q, .upsertPlacement q ∈ ops → P (s.apply ops).objects q) → (s.apply ops).All P := by
    intro ops hops c g q hq
    rcases Stored.row_apply hq with hq | hq
    · exact hP.grows (s.objects_subset ops) (hs c g q hq)
    · exact hops q hq
  cases h with
  | failed | opened => exact hs
  | upgraded upgrades reads => exact hrows _ (fun q hq => upgraded_kept hP hs upgrades reads hq)
  | mutated loads stages =>
    have hloaded := fun p hp => hs _ _ p (loads.stored p hp)
    exact hrows _ (fun q hq => staged_kept hP hloaded stages hq)
  | synced syncs batches => exact hP.synced syncs batches hs
  | @rekeyed c loaded snapshot t loads rekeys =>
    refine hrows _ (fun q hq => ?_)
    have hloaded := fun p hp => hP.grows (s.objects_subset t.writes) (hs _ _ p (loads.stored p hp))
    cases rekeys.sources hq with
    | carried hp item resolved => exact hP.carried _ item resolved (hloaded _ hp)
    | fresh item resolved => exact hP.fresh _ item resolved
    | resurrected hp => exact hP.unmatched (hloaded _ hp)

end ReplicaCall

/-- Whatever each row update keeps, every session keeps of every row. -/
theorem Session.kept {S R : Type} [ReplicaStorage S] [ReplicaRemote R] [LawfulStorage S]
    {P : Finset ReplicaHash → ReplicaPlacement → Prop} (hP : Kept P)
    {client client' : ReplicaClient S R} (h : Session client client') (hs : client.stored.All P) :
    client'.stored.All P := by
  have hcalls := Stored.session_calls h
  generalize client'.stored = s' at hcalls ⊢
  induction hcalls with
  | refl => exact hs
  | tail _ hcall ih =>
    obtain ⟨call, ok, hleaves⟩ := hcall
    exact hleaves.kept hP ih

end IoReplica

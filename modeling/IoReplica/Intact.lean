import IoReplica.Session
import IoReplica.Sync.Derived

/-! No dangling pointer: every body a row points at is stored, and so is every body a change
names. -/
namespace IoReplica

/-- The bodies the row points at are indexed, and a full row has one. -/
structure Intact (objects : Finset ReplicaHash) (p : ReplicaPlacement) : Prop where
  object : ∀ o, p.object = some o → o ∈ objects
  base : ∀ o, p.baseObject = some o → o ∈ objects
  conflict : ∀ o, p.conflictObject = some o → o ∈ objects
  full : p.level = .full → p.object.isSome

variable {objects : Finset ReplicaHash} {p : ReplicaPlacement}

theorem Intact.grows {objects' : Finset ReplicaHash} (hp : Intact objects p)
    (h : objects ⊆ objects') : Intact objects' p :=
  ⟨fun o ho => h (hp.object o ho), fun o ho => h (hp.base o ho), fun o ho => h (hp.conflict o ho),
    hp.full⟩

theorem not_indexed {o : ReplicaHash} (h : (none : Option ReplicaHash) = some o) : o ∈ objects := by
  cases h

theorem base_none (hb : p.base = none) (o : ReplicaHash) (ho : p.baseObject = some o) :
    o ∈ objects := by
  rw [ReplicaPlacement.baseObject, hb] at ho
  cases ho

theorem Intact.inherits (c : ReplicaCollectionId) : Inherits c (Intact objects) where
  pulled item := ⟨fun o => not_indexed, fun o => not_indexed, fun o => not_indexed,
    fun h => (by cases h)⟩
  refreshed p item hp := by
    refine ⟨fun o => not_indexed, fun o ho => ?_, hp.conflict, fun h => (by cases h)⟩
    obtain ⟨base, hbase, hobject⟩ := Option.bind_eq_some_iff.mp ho
    obtain ⟨b, -, rfl⟩ := Option.map_eq_some_iff.mp hbase
    cases hobject
  conflicted p item hp := ⟨hp.object, hp.base, fun o => not_indexed, hp.full⟩
  reopened p revision hp := ⟨hp.object, hp.base, fun o => not_indexed, hp.full⟩
  forked p base o hp _ _ ho := by
    refine ⟨fun o' ho' => ?_, fun o' => base_none rfl o', fun o' => not_indexed, fun _ => rfl⟩
    cases ho'
    exact hp.object o ho
  flagged p flags hp := ⟨hp.object, hp.base, hp.conflict, hp.full⟩
  rebased p flags hp := ⟨hp.object, hp.base, hp.conflict, hp.full⟩
  resurrected p hp _ := ⟨hp.object, fun o => base_none rfl o, fun o => not_indexed, hp.full⟩
  contentRebased p revision hp := ⟨hp.object, hp.object, hp.conflict, hp.full⟩
  rekeyed p g revision hp _ := ⟨hp.object, hp.object, hp.conflict, hp.full⟩

theorem Intact.edited {hash : ReplicaHash} (hp : Intact objects p) (hh : hash ∈ objects)
    (metadata : Option ReplicaMeta) (sortKey : Option ReplicaSortKey) :
    Intact objects (ReplicaMutate.edited p hash metadata sortKey) := by
  let written : ReplicaPlacement :=
    { p with
      object := some hash
      level := .full
      metadata := metadata.or p.metadata
      sortKey := sortKey.getD p.sortKey }
  have hwritten : Intact objects written := by
    refine ⟨fun o ho => ?_, hp.base, hp.conflict, fun _ => rfl⟩
    cases ho
    exact hh
  have hresolved : Intact objects (ReplicaMutate.resolved written) :=
    ⟨hwritten.object, hwritten.conflict, fun o => not_indexed, hwritten.full⟩
  have hstaged : ∀ q, Intact objects q → Intact objects { q with status := .dirty } :=
    fun q hq => ⟨hq.object, hq.base, hq.conflict, hq.full⟩
  simp only [ReplicaMutate.edited]
  split
  · split
    · exact hstaged _ hresolved
    · exact hresolved
  · split
    · exact hstaged _ hwritten
    · exact hwritten

open ReplicaUpgrade in
/-- A body put in a row, and in the base beside it. -/
theorem Intact.filled {base : Option ReplicaBase} {hash : ReplicaHash} (hp : Intact objects p)
    (hh : hash ∈ objects) (f : ReplicaBase → ReplicaBase) (hf : ∀ b, (f b).object = some hash) :
    Intact objects { p with base := base.map f, object := some hash, level := .full } := by
  refine ⟨fun o ho => ?_, fun o ho => ?_, hp.conflict, fun _ => rfl⟩
  · cases ho
    exact hh
  · obtain ⟨b, hb, hobject⟩ := Option.bind_eq_some_iff.mp ho
    obtain ⟨b', -, rfl⟩ := Option.map_eq_some_iff.mp hb
    rw [hf] at hobject
    cases hobject
    exact hh

open ReplicaUpgrade in
theorem Intact.fetched {tier : ReplicaTier} {item : ReplicaFetchedItem} {q : ReplicaPlacement}
    (hp : Intact objects p) (hq : WrittenFrom tier p item q)
    (hbody : tier = .full → ∀ body, item.body = some body → (storedBody body).1.hash ∈ objects) :
    Intact objects q := by
  cases hq with
  | conflicted full conflict body hb =>
    refine ⟨hp.object, hp.base, fun o ho => ?_, hp.full⟩
    cases ho
    exact hbody full body hb
  | answered plain claimed =>
    have hpatched : ∀ link, Intact objects (summarised { p with linkId := link } item) :=
      fun link => ⟨hp.object, hp.base, hp.conflict, hp.full⟩
    have hmetadata : ∀ link,
        Intact objects { summarised { p with linkId := link } item with level := .metadata } :=
      fun link => ⟨hp.object, hp.base, hp.conflict, fun h => (by cases h)⟩
    simp only [answer]
    rw [identify_eq]
    split
    · rename_i body hb
      exact (hpatched _).filled (hbody rfl body hb) _ (fun _ => rfl)
    · exact hmetadata _

theorem intact_kept : Kept Intact where
  grows h hp := hp.grows h
  synced := synced_inherits (fun h hp => hp.grows h) (fun _ c => Intact.inherits c)
    (fun hp => ⟨hp.object, hp.base, hp.conflict, hp.full⟩)
  created c handle linkId flags metadata sortKey hh := by
    refine ⟨fun o ho => ?_, fun o => base_none rfl o, fun o => not_indexed, fun _ => rfl⟩
    cases ho
    exact hh
  flagged flags hp := ⟨hp.object, hp.base, hp.conflict, hp.full⟩
  removed hp := ⟨hp.object, hp.base, hp.conflict, hp.full⟩
  moved target hp := ⟨hp.object, hp.base, hp.conflict, hp.full⟩
  edited metadata sortKey hp hh := hp.edited hh metadata sortKey
  copied target placeholder hp :=
    ⟨hp.object, fun o => base_none rfl o, fun o => not_indexed, hp.full⟩
  linked hp hq ho := hp.filled (hq.object _ ho) _ (fun _ => rfl)
  fetched hp hq hbody := hp.fetched hq hbody
  carried self item resolved hp := by
    refine ⟨hp.object, hp.base, fun o ho => ?_, hp.full⟩
    exact hp.conflict o (Option.ite_none_right_eq_some.mp ho).2
  fresh self item resolved := by
    refine ⟨fun o => not_indexed, fun o => not_indexed, fun o => not_indexed, fun h => ?_⟩
    simp only [ReplicaRekey.fresh] at h
    split at h <;> cases h
  unmatched hp := ⟨hp.object, fun o => base_none rfl o, fun o => not_indexed, hp.full⟩

/-- In every session from intact rows the rows stay intact, and every body the next sync uploads is
stored. -/
theorem session_intact {S R : Type} [ReplicaStorage S] [ReplicaRemote R] [LawfulStorage S]
    {client client' : ReplicaClient S R} (h : Session client client')
    (hs : client.stored.All Intact) :
    client'.stored.All Intact ∧
      ∀ c opts snapshot t, Syncs c opts
          ⟨(client'.stored.rows.rows c).placements, client'.stored.checkpoints c⟩ snapshot t →
        ∀ k ∈ t.changes, ∀ o, k.kind.body = some o → o ∈ client'.stored.objects := by
  have hintact := Session.kept intact_kept h hs
  refine ⟨hintact, fun c opts snapshot t hsync k hk o ho => ?_⟩
  obtain ⟨p, hp, hderived⟩ := hsync.derived hk
  rw [CollectionRows.collect_placements] at hp
  exact (hintact c k.handle p hp).object o (hderived.body ho)

section Witness

/-- A message added to an empty replica, its network unplugged: the row is stored with its body. -/
theorem session_intact_added : ∃ client' : ReplicaClient MemStorage BrokenRemote,
    Session ⟨MemStorage.default, ⟨⟩⟩ client' ∧ client'.stored.All Intact ∧
      ∃ p, client'.stored.row ⟨"inbox"⟩ ⟨"a"⟩ = some p ∧ p.object = some ⟨"h"⟩ := by
  have hrun : ((ReplicaCall.mutate ⟨"inbox"⟩ (.add ⟨"a"⟩ ⟨"m"⟩ .empty ⟨⟨"h"⟩, 1⟩ [1] none .unknown)).run
      3 (⟨MemStorage.default, ⟨⟩⟩ : ReplicaClient MemStorage BrokenRemote)).map
        (fun out => (out.1.storage.placements.entries[(toLex (⟨"inbox"⟩, ⟨"a"⟩) : RowKey)]?.map
          (·.object))) = some (some (some ⟨"h"⟩)) := by
    decide +kernel
  obtain ⟨⟨client', ok⟩, hrun, hrow⟩ := Option.map_eq_some_iff.mp hrun
  have hsession : Session ⟨MemStorage.default, ⟨⟩⟩ client' := .single ⟨⟨⟩, _, 3, ok, hrun⟩
  have hempty : MemStorage.default.stored.All Intact := by
    intro c g p hp
    rw [MemStorage.stored_row] at hp
    simp [MemStorage.default, PlacementMap.empty] at hp
  refine ⟨client', hsession, (session_intact hsession hempty).1, ?_⟩
  obtain ⟨p, hp, hobject⟩ := Option.map_eq_some_iff.mp hrow
  exact ⟨p, (client'.storage.stored_row _ _).trans hp, hobject⟩

end Witness
end IoReplica

import IoReplica.MemRemote
import IoReplica.MemStorage
import IoReplica.Session
import IoReplica.Sync.Relisted

/-! Retention at the storage seam: a drop hides its row and keeps it, and no verb can tell. -/
namespace IoReplica

namespace PlacementMap

variable (m : PlacementMap)

/-- The placements but the hidden ones. -/
def without (hidden : Finset RowKey) : PlacementMap :=
  ⟨m.entries.filter (fun k _ => k ∉ hidden), fun k p h => by
    rw [Std.ExtTreeMap.getElem?_filter', Option.filter_eq_some_iff] at h
    exact m.keyed k p h.1⟩

theorem get_without (hidden : Finset RowKey) (k : RowKey) :
    (m.without hidden).entries[k]? = if k ∈ hidden then none else m.entries[k]? := by
  rw [without, Std.ExtTreeMap.getElem?_filter']
  by_cases hk : k ∈ hidden
  · simp [hk]
  · cases hp : m.entries[k]? <;> simp [hk]

theorem ext_entries {m n : PlacementMap}
    (h : ∀ k : RowKey, m.entries[k]? = n.entries[k]?) : m = n := by
  have hentries : m.entries = n.entries := by
    ext1 k
    exact h k
  cases m
  cases n
  simp only at hentries
  subst hentries
  rfl

theorem without_insert (hidden : Finset RowKey) (p : ReplicaPlacement) :
    (m.insert p).without (hidden.erase p.key) = (m.without hidden).insert p := by
  refine ext_entries (fun k => ?_)
  rw [get_without, insert, insert, OrderedMap.get_insert, OrderedMap.get_insert, get_without]
  by_cases hk : p.key = k
  · simp [hk]
  · simp [hk, Ne.symm hk]

theorem without_hide (hidden : Finset RowKey) (k : RowKey) :
    m.without (Insert.insert k hidden) = (m.without hidden).remove k := by
  refine ext_entries (fun k' => ?_)
  rw [get_without, remove, OrderedMap.get_erase, get_without]
  by_cases hk : k = k'
  · simp [hk]
  · simp [hk, Finset.mem_insert, Ne.symm hk]

end PlacementMap

theorem ReplicaLoadScope.filter_all (l : List ReplicaPlacement) :
    l.filter ReplicaLoadScope.all.names = l :=
  List.filter_eq_self.mpr (fun _ _ => rfl)

/-- A storage whose drop hides the row it keeps, and whose load skips hidden rows. -/
structure SoftDeleteStorage where
  placements : PlacementMap
  hidden : Finset RowKey
  objects : Std.ExtTreeMap ReplicaHash (ReplicaObject × List UInt8)
  checkpoints : Std.ExtTreeMap ReplicaCollectionId ReplicaCheckpoint

namespace SoftDeleteStorage

def default : SoftDeleteStorage := ⟨.empty, ∅, ∅, ∅⟩

variable (s : SoftDeleteStorage)

/-- Kept, but hidden. -/
def isRetained (c : ReplicaCollectionId) (h : ReplicaHandle) : Bool :=
  s.placements.entries[(toLex (c, h) : RowKey)]?.isSome && decide (toLex (c, h) ∈ s.hidden)

/-- Whatever the scope names, every row in sight is returned. -/
def load (c : ReplicaCollectionId) (_ : ReplicaLoadScope) : ReplicaLoaded :=
  ⟨(s.placements.entries.toList.filter (fun e => (ofLex e.1).1 = c ∧ e.1 ∉ s.hidden)).map (·.2),
    s.checkpoints[c]?⟩

def writeOp : ReplicaWriteOp → SoftDeleteStorage
  | .upsertPlacement p =>
    { s with hidden := s.hidden.erase p.key, placements := s.placements.insert p }
  | .dropPlacement c h _ => { s with hidden := insert (toLex (c, h)) s.hidden }
  | .storeObject object body =>
    { s with objects := s.objects.insert object.hash (object, body.getD []) }
  | .setCheckpoint c checkpoint => { s with checkpoints := s.checkpoints.insert c checkpoint }

def write (ops : List ReplicaWriteOp) : SoftDeleteStorage := ops.foldl writeOp s

/-- The storage that would have dropped what this one hides. -/
def visible : MemStorage := ⟨s.placements.without s.hidden, s.objects, s.checkpoints⟩

theorem visible_load (c : ReplicaCollectionId) (scope : ReplicaLoadScope) :
    s.load c scope = s.visible.load c .all := by
  simp only [load, visible, MemStorage.load, ReplicaLoadScope.filter_all, PlacementMap.rowsOf, PlacementMap.without,
    Std.ExtTreeMap.toList_filter, List.filter_filter]
  simp

theorem visible_writeOp (op : ReplicaWriteOp) : (s.writeOp op).visible = s.visible.writeOp op := by
  cases op with
  | upsertPlacement p =>
    simp only [visible, writeOp, MemStorage.writeOp, PlacementMap.without_insert]
  | dropPlacement c h reason =>
    simp only [visible, writeOp, MemStorage.writeOp, PlacementMap.without_hide]
  | storeObject | setCheckpoint => rfl

theorem visible_write (ops : List ReplicaWriteOp) : (s.write ops).visible = s.visible.write ops := by
  induction ops generalizing s with
  | nil => rfl
  | cons op ops ih =>
    rw [write, List.foldl_cons, ← write, ih, visible_writeOp]
    rfl

end SoftDeleteStorage

/-- It never fails. -/
instance : ReplicaStorage SoftDeleteStorage where
  Error := Empty
  load s c scope := .ok (s.load c scope)
  lookupObjects s links := .ok (s.placements.lookup links)
  write s ops := (s.write ops, .ok ())

namespace ReplicaClient

variable {R : Type} [ReplicaRemote R] {C T E : Type}

/-- The client over the storage that drops. -/
def visible (client : ReplicaClient SoftDeleteStorage R) : ReplicaClient MemStorage R :=
  ⟨client.storage.visible, client.remote⟩

/-- A request both storages take the coroutine on alike by: any of the remote, a write, and a load
whose rows out of scope it does not look at. -/
def Alike (resume : C → Option ReplicaArg → C × ReplicaCoroutineState ReplicaYield (Except E T))
    (c : C) : ReplicaYield → Prop
  | .wantsLookupObject _ => False
  | .wantsLoad _ scope => ∀ loaded : ReplicaLoaded, resume c (some (.load loaded)) =
      resume c (some (.load ⟨loaded.placements.filter scope.names, loaded.checkpoint⟩))
  | .wantsEnumerate .. | .wantsFetch .. | .wantsPush .. | .wantsWrite _ => True

theorem run_visible
    (resume : C → Option ReplicaArg → C × ReplicaCoroutineState ReplicaYield (Except E T))
    (hasks : ∀ c a c' y, resume c a = (c', .yielded y) → Alike resume c' y) (fuel : ℕ) (c : C)
    (a : Option ReplicaArg) (client : ReplicaClient SoftDeleteStorage R) :
    (run resume fuel c a client).map (fun o => (o.1.visible, o.2)) =
      run resume fuel c a client.visible := by
  rw [run_attempt, run_attempt, Option.map_map]
  have hsim := Coroutine.attempt_simulate resume (service (S := SoftDeleteStorage) (R := R) (E := E))
    (service (S := MemStorage) (R := R) (E := E)) visible ?_ fuel c a client
  · have hsettled := congrArg (Option.map (fun o => (o.1, settled (S := MemStorage) (R := R) o.2))) hsim
    rw [Option.map_map, Option.map_map] at hsettled
    have hsame : settled (S := MemStorage) (R := R) (E := E) (T := T) =
        settled (S := SoftDeleteStorage) (R := R) := by
      funext out
      cases out with
      | error => rfl
      | ok out => cases out <;> rfl
    refine Eq.trans ?_ hsettled
    rw [hsame]
    rfl
  intro c a c' y hy client
  have halike := hasks c a c' y hy
  cases y with
  | wantsEnumerate | wantsFetch | wantsPush => exact ⟨rfl, rfl⟩
  | wantsLookupObject => exact halike.elim
  | wantsLoad d scope =>
    refine ⟨rfl, congrArg Except.ok ?_⟩
    have hnarrow : client.storage.visible.load d scope =
        ⟨(client.storage.load d scope).placements.filter scope.names,
          (client.storage.load d scope).checkpoint⟩ := by
      rw [client.storage.visible_load, MemStorage.load, MemStorage.load, ReplicaLoadScope.filter_all]
    have hfilter := halike (client.storage.load d scope)
    rw [← hnarrow] at hfilter
    exact hfilter
  | wantsWrite ops =>
    have hwrite := client.storage.visible_write ops
    refine ⟨?_, rfl⟩
    exact congrArg (fun storage => (⟨storage, client.remote⟩ : ReplicaClient MemStorage R)) hwrite

theorem alike_load
    (resume : C → Option ReplicaArg → C × ReplicaCoroutineState ReplicaYield (Except E T)) (c : C)
    (d : ReplicaCollectionId) : Alike resume c (.wantsLoad d .all) := by
  intro loaded
  rw [ReplicaLoadScope.filter_all]

end ReplicaClient

open ReplicaClient (Alike alike_load)

theorem ReplicaOpen.asks_alike {self self' : ReplicaOpen} {a : Option ReplicaArg} {y : ReplicaYield}
    (h : self.resume a = (self', .yielded y)) : Alike ReplicaOpen.resume self' y := by
  simp only [resume] at h
  split at h <;> cases h
  exact alike_load _ _ _

namespace ReplicaMutate

/-- A link held by a live row is held by one in the scope of its own add. -/
theorem collides_scope (link : ReplicaLinkId) (placements : List ReplicaPlacement) :
    collides link (placements.filter (ReplicaLoadScope.links [link]).names) =
      collides link placements := by
  rw [collides, collides, List.any_filter]
  refine congrArg placements.any (funext fun p => ?_)
  by_cases hp : p.linkId = some link <;> simp [ReplicaLoadScope.names, hp]

theorem find_scope (handle : ReplicaHandle) (placements : List ReplicaPlacement) :
    (placements.filter (ReplicaLoadScope.handles [handle]).names).find? (fun p => p.handle = handle) =
      placements.find? (fun p => p.handle = handle) := by
  rw [List.find?_filter]
  refine congrArg (fun f => placements.find? f) (funext fun p => ?_)
  by_cases hp : p.handle = handle <;> simp [ReplicaLoadScope.names, hp]

/-- What a mutation makes of a load, it makes of the rows in its scope. -/
theorem resume_scope (self : ReplicaMutate) (hs : self.state = .pendingLoad) (loaded : ReplicaLoaded) :
    self.resume (some (.load loaded)) = self.resume
      (some (.load ⟨loaded.placements.filter self.mutation.scope.names, loaded.checkpoint⟩)) := by
  simp only [resume, hs]
  cases hm : self.mutation with
  | add handle link flags object body metadata sortKey =>
    simp only [ReplicaMutation.handle, ReplicaMutation.scope, collides_scope]
  | setFlags | remove | edit | copy | move =>
    simp only [ReplicaMutation.handle, ReplicaMutation.scope, find_scope]

theorem asks_alike {self self' : ReplicaMutate} {a : Option ReplicaArg} {y : ReplicaYield}
    (h : self.resume a = (self', .yielded y)) : Alike resume self' y := by
  simp only [resume] at h
  split at h
  · cases h
    exact resume_scope _ rfl
  · split at h
    · split at h
      · split at h <;> cases h
        trivial
      · cases h
    · split at h <;> cases h
      trivial
  · cases h
  · cases h
  · cases h

end ReplicaMutate

namespace ReplicaSync

theorem Asking.alike {self : ReplicaSync} {y : ReplicaYield} (h : Asking (self, .yielded y)) :
    Alike resume self y := by
  cases y with
  | wantsPush | wantsWrite => trivial
  | wantsEnumerate | wantsFetch | wantsLoad | wantsLookupObject => exact h.elim

theorem asks_alike {self self' : ReplicaSync} {a : Option ReplicaArg} {y : ReplicaYield}
    (h : self.resume a = (self', .yielded y)) : Alike resume self' y := by
  simp only [resume] at h
  split at h
  · cases h
    exact alike_load _ _ _
  · cases h
    trivial
  · refine Asking.alike ?_
    rw [← h]
    exact mergeLoop_asking _ _
  · refine Asking.alike ?_
    rw [← h]
    exact mergeLoop_asking _ _
  · cases h
    trivial
  · split at h
    · cases h
    · refine Asking.alike ?_
      rw [← h]
      exact step_asking _
  · cases h
  · cases h

end ReplicaSync

theorem ReplicaRekey.asks_alike {self self' : ReplicaRekey} {a : Option ReplicaArg}
    {y : ReplicaYield} (h : self.resume a = (self', .yielded y)) : Alike resume self' y := by
  simp only [resume] at h
  split at h
  · cases h
    exact alike_load _ _ _
  · cases h
    trivial
  · split at h <;> cases h <;> trivial
  · cases h
    trivial
  · cases h
  · cases h
  · cases h


/-- What every write keeps of a storage, a session keeps. -/
theorem Session.keeps {S R : Type} [ReplicaStorage S] [ReplicaRemote R] {P : S → Prop}
    (hwrite : ∀ s ops, P s → P (ReplicaStorage.write s ops).1) {client client' : ReplicaClient S R}
    (h : Session client client') (hs : P client.storage) : P client'.storage := by
  induction h with
  | refl => exact hs
  | tail _ hcall ih =>
    obtain ⟨remote, call, fuel, ok, hrun⟩ := hcall
    cases call <;>
    · obtain ⟨⟨next, out⟩, hverb, heq⟩ := Option.map_eq_some_iff.mp hrun
      cases heq
      exact ReplicaClient.run_keeps hwrite _ hverb ih

namespace SoftDeleteStorage

/-- A row once stored stays stored, in sight or not. -/
theorem write_keeps (k : RowKey) (s : SoftDeleteStorage) (ops : List ReplicaWriteOp)
    (hs : (s.placements.entries[k]?).isSome) :
    ((s.write ops).placements.entries[k]?).isSome := by
  induction ops generalizing s with
  | nil => exact hs
  | cons op ops ih =>
    refine ih (s.writeOp op) ?_
    cases op with
    | upsertPlacement p =>
      simp only [writeOp, PlacementMap.insert, OrderedMap.get_insert]
      split
      · rfl
      · exact hs
    | dropPlacement | storeObject | setCheckpoint => exact hs

theorem seen_or_retained (s : SoftDeleteStorage) (c : ReplicaCollectionId) (h : ReplicaHandle)
    (hs : (s.placements.entries[(toLex (c, h) : RowKey)]?).isSome) :
    (s.visible.placements.entries[(toLex (c, h) : RowKey)]?).isSome ∨ s.isRetained c h = true := by
  rw [visible, PlacementMap.get_without, isRetained, hs, Bool.true_and, decide_eq_true_eq]
  by_cases hk : toLex (c, h) ∈ s.hidden
  · exact Or.inr hk
  · rw [if_neg hk]
    exact Or.inl hs

end SoftDeleteStorage

open ReplicaClient in
/-- No verb but an upgrade can tell a storage that hides what it drops from one that drops it: each
returns the same over both, touches the remote alike, and leaves the same rows in sight. And no
session loses a row: what was stored stays in sight, or retained. -/
theorem retention_unseen {R : Type} [ReplicaRemote R] (client : ReplicaClient SoftDeleteStorage R) :
    (∀ fuel c, (client.open fuel c).map (fun o => (o.1.visible, o.2)) =
      client.visible.open fuel c) ∧
    (∀ fuel c mutation, (client.mutate fuel c mutation).map (fun o => (o.1.visible, o.2)) =
      client.visible.mutate fuel c mutation) ∧
    (∀ fuel c opts, (client.sync fuel c opts).map (fun o => (o.1.visible, o.2)) =
      client.visible.sync fuel c opts) ∧
    (∀ fuel c, (client.rekey fuel c).map (fun o => (o.1.visible, o.2)) =
      client.visible.rekey fuel c) ∧
    ∀ client', Session client client' → ∀ c h,
      (client.storage.placements.entries[(toLex (c, h) : RowKey)]?).isSome →
        (client'.storage.visible.placements.entries[(toLex (c, h) : RowKey)]?).isSome ∨
          client'.storage.isRetained c h = true := by
  refine ⟨fun fuel c => ?_, fun fuel c mutation => ?_, fun fuel c opts => ?_, fun fuel c => ?_, ?_⟩
  · exact run_visible _ (fun _ _ _ _ h => ReplicaOpen.asks_alike h) fuel _ _ client
  · exact run_visible _ (fun _ _ _ _ h => ReplicaMutate.asks_alike h) fuel _ _ client
  · exact run_visible _ (fun _ _ _ _ h => ReplicaSync.asks_alike h) fuel _ _ client
  · exact run_visible _ (fun _ _ _ _ h => ReplicaRekey.asks_alike h) fuel _ _ client
  · intro client' hsession c h hs
    refine client'.storage.seen_or_retained c h ?_
    exact hsession.keeps (SoftDeleteStorage.write_keeps (toLex (c, h))) hs

section Witness

/-- A server of one message. -/
def inboxServer : MemRemote := MemRemote.default.seed ⟨"inbox"⟩ ⟨"1"⟩ ⟨"m1"⟩ ∅ [98, 111, 100, 121]

def pulledInbox : Option (ReplicaClient SoftDeleteStorage MemRemote × Bool) :=
  (ReplicaCall.sync ⟨"inbox"⟩ .default).run 9 ⟨SoftDeleteStorage.default, inboxServer⟩

/-- A sync after the server expunged the message. -/
def expungedInbox (client : ReplicaClient SoftDeleteStorage MemRemote) :
    Option (ReplicaClient SoftDeleteStorage MemRemote × Bool) :=
  (ReplicaCall.sync ⟨"inbox"⟩ .default).run 9
    { client with remote := (client.remote.remove ⟨"inbox"⟩ ⟨"1"⟩).getD client.remote }

/-- A message pulled, then expunged, is retained. -/
theorem retention_unseen_expunged : ∃ client' : ReplicaClient SoftDeleteStorage MemRemote,
    Session ⟨SoftDeleteStorage.default, inboxServer⟩ client' ∧
      client'.storage.isRetained ⟨"inbox"⟩ ⟨"1"⟩ = true := by
  have hrun : pulledInbox.bind (fun o => (expungedInbox o.1).map (fun q =>
      ((o.1.storage.placements.entries[(toLex (⟨"inbox"⟩, ⟨"1"⟩) : RowKey)]?).isSome,
        (q.1.storage.visible.placements.entries[(toLex (⟨"inbox"⟩, ⟨"1"⟩) : RowKey)]?).isSome))) =
      some (true, false) := by decide +kernel
  obtain ⟨⟨client, ok⟩, hpulled, hrun⟩ := Option.bind_eq_some_iff.mp hrun
  obtain ⟨⟨client', ok'⟩, hexpunged, hrows⟩ := Option.map_eq_some_iff.mp hrun
  obtain ⟨hstored, hhidden⟩ := Prod.mk.inj hrows
  have hsession : Session client client' := .single ⟨_, _, 9, ok', hexpunged⟩
  refine ⟨client', .trans (.single ⟨inboxServer, _, 9, ok, hpulled⟩) hsession, ?_⟩
  obtain ⟨-, -, -, -, hkept⟩ := retention_unseen client
  rcases hkept client' hsession ⟨"inbox"⟩ ⟨"1"⟩ hstored with hseen | hretained
  · exact absurd (hhidden.symm.trans hseen) (by decide)
  · exact hretained

end Witness
end IoReplica

import IoReplica.Store
import IoReplica.Sync.Settle

/-! A merge is local: it writes, stashes and pushes under its own handle, a keep-both fork apart. -/
namespace IoReplica

/-- The handles a keep-both resolution of a row forks onto. -/
def Forks (h : ReplicaHandle) (object : Option ReplicaHash) (g : ReplicaHandle) : Prop :=
  ∃ o, object = some o ∧ g = ReplicaSync.keepBothHandle h o

/-- Everything awaited under `h` is a row of `h`. -/
structure Pending.Placed (h : ReplicaHandle) (p : Pending) : Prop where
  flags : ∀ q, p.flags = some q → q.handle = h
  content : ∀ q, p.content = some q → q.handle = h
  created : ∀ q, p.created = some q → q.handle = h

theorem Pending.Placed.none (h : ReplicaHandle) : Pending.none.Placed h := by
  constructor <;> intro q hq <;> cases hq

namespace ReplicaSync

theorem keepBothHandle_ne (h : ReplicaHandle) (o : ReplicaHash) : keepBothHandle h o ≠ h := by
  intro he
  have hlen := congrArg (fun x : ReplicaHandle => x.asStr.length) he
  have hsep : "\x01".length = 1 := by decide
  simp only [keepBothHandle, String.length_append] at hlen
  omega

/-- What a merge under `h` may do to a run: writes to `h` or a fork of it, and state kept under
`h` alone. -/
structure Local (h : ReplicaHandle) (object : Option ReplicaHash) (a b : ReplicaSync) : Prop where
  collection : b.collection = a.collection
  opts : b.opts = a.opts
  pushes : b.pushes = a.pushes
  writes : ∃ ops, b.writes = a.writes ++ ops ∧
    ∀ op ∈ ops, op.row = some h ∨ ∃ g, op.row = some g ∧ Forks h object g
  others : ∀ g, g ≠ h → b.pendingAt g = a.pendingAt g
  placed : (a.pendingAt h).Placed h → (b.pendingAt h).Placed h

variable {h : ReplicaHandle} {object : Option ReplicaHash} {a b c : ReplicaSync}

theorem Local.refl (h : ReplicaHandle) (object : Option ReplicaHash) (a : ReplicaSync) :
    Local h object a a :=
  ⟨rfl, rfl, rfl, ⟨[], by simp, by simp⟩, fun _ _ => rfl, id⟩

theorem Local.trans (hab : Local h object a b) (hbc : Local h object b c) :
    Local h object a c := by
  obtain ⟨ops, hops, hkeys⟩ := hab.writes
  obtain ⟨ops', hops', hkeys'⟩ := hbc.writes
  refine ⟨hbc.collection.trans hab.collection, hbc.opts.trans hab.opts,
    hbc.pushes.trans hab.pushes, ⟨ops ++ ops', ?_, ?_⟩, ?_, fun hp => hbc.placed (hab.placed hp)⟩
  · rw [hops', hops, List.append_assoc]
  · intro op hop
    rcases List.mem_append.mp hop with hop | hop
    · exact hkeys op hop
    · exact hkeys' op hop
  · intro g hg
    rw [hbc.others g hg, hab.others g hg]

theorem Local.write (hab : Local h object a b) {op : ReplicaWriteOp}
    (hop : op.row = some h ∨ ∃ g, op.row = some g ∧ Forks h object g) :
    Local h object a (b.write op) := by
  refine hab.trans ⟨rfl, rfl, rfl, ⟨[op], rfl, ?_⟩, fun _ _ => rfl, id⟩
  intro op' hop'
  rw [List.mem_singleton.mp hop']
  exact hop

theorem Local.upsert (hab : Local h object a b) {p : ReplicaPlacement} (hp : p.handle = h) :
    Local h object a (b.upsert p) := hab.write (Or.inl (congrArg some hp))

theorem Local.drop (hab : Local h object a b) (reason : ReplicaDropReason) :
    Local h object a (b.drop h reason) := hab.write (Or.inl rfl)

theorem Local.emit (hab : Local h object a b) (e : ReplicaEvent) :
    Local h object a (b.emit e) :=
  hab.trans ⟨rfl, rfl, rfl, ⟨[], by simp [ReplicaSync.emit], by simp⟩, fun _ _ => rfl, id⟩

theorem Local.countPulled (hab : Local h object a b) : Local h object a b.countPulled :=
  hab.trans ⟨rfl, rfl, rfl, ⟨[], by simp [ReplicaSync.countPulled], by simp⟩, fun _ _ => rfl, id⟩

theorem Local.countConflict (hab : Local h object a b) : Local h object a b.countConflict :=
  hab.trans ⟨rfl, rfl, rfl, ⟨[], by simp [ReplicaSync.countConflict], by simp⟩, fun _ _ => rfl, id⟩

theorem Local.countRefreshed (hab : Local h object a b) : Local h object a b.countRefreshed :=
  hab.trans ⟨rfl, rfl, rfl, ⟨[], by simp [ReplicaSync.countRefreshed], by simp⟩, fun _ _ => rfl, id⟩

theorem Local.panic (hab : Local h object a b) : Local h object a b.panic :=
  hab.trans ⟨rfl, rfl, rfl, ⟨[], by simp [ReplicaSync.panic], by simp⟩, fun _ _ => rfl, id⟩

theorem Local.stashFlags (hab : Local h object a b) {g : ReplicaHandle} {p : ReplicaPlacement}
    (hg : g = h) (hp : p.handle = h) : Local h object a (b.stashFlags g p) := by
  subst hg
  refine hab.trans ⟨rfl, rfl, rfl, ⟨[], by simp [ReplicaSync.stashFlags], by simp⟩, ?_, ?_⟩
  · intro g hg
    simp only [pendingAt, ReplicaSync.stashFlags, OrderedMap.get_insert_of_ne _ _ hg.symm]
  · intro hplaced
    refine ⟨?_, hplaced.content, hplaced.created⟩
    intro q hq
    simp only [pendingAt, ReplicaSync.stashFlags, OrderedMap.get_insert_self,
      Option.some.injEq] at hq
    rw [← hq, hp]

theorem Local.stashContent (hab : Local h object a b) {p : ReplicaPlacement} (hp : p.handle = h) :
    Local h object a (b.stashContent h p) := by
  refine hab.trans ⟨rfl, rfl, rfl, ⟨[], by simp [ReplicaSync.stashContent], by simp⟩, ?_, ?_⟩
  · intro g hg
    simp only [pendingAt, ReplicaSync.stashContent, OrderedMap.get_insert_of_ne _ _ hg.symm]
  · intro hplaced
    refine ⟨hplaced.flags, ?_, hplaced.created⟩
    intro q hq
    simp only [pendingAt, ReplicaSync.stashContent, OrderedMap.get_insert_self,
      Option.some.injEq] at hq
    rw [← hq, hp]

theorem Local.stashDrop (hab : Local h object a b) : Local h object a (b.stashDrop h) := by
  refine hab.trans ⟨rfl, rfl, rfl, ⟨[], by simp [ReplicaSync.stashDrop], by simp⟩, ?_, ?_⟩
  · intro g hg
    simp [pendingAt, ReplicaSync.stashDrop, awaitsDrop, hg]
  · exact fun hplaced => ⟨hplaced.flags, hplaced.content, hplaced.created⟩

theorem Local.stashCreate (hab : Local h object a b) {p : ReplicaPlacement} (hp : p.handle = h) :
    Local h object a (b.stashCreate h p) := by
  refine hab.trans ⟨rfl, rfl, rfl, ⟨[], by simp [ReplicaSync.stashCreate], by simp⟩, ?_, ?_⟩
  · intro g hg
    simp only [pendingAt, ReplicaSync.stashCreate, OrderedMap.get_insert_of_ne _ _ hg.symm]
  · intro hplaced
    refine ⟨hplaced.flags, hplaced.content, ?_⟩
    intro q hq
    simp only [pendingAt, ReplicaSync.stashCreate, OrderedMap.get_insert_self,
      Option.some.injEq] at hq
    rw [← hq, hp]

/-- A verdict that names nothing but its own handle. -/
def Names (h : ReplicaHandle) (change : Option ReplicaChangeKind) : Prop :=
  ∀ k, change = some k → k.handle = h

theorem Names.none (h : ReplicaHandle) : Names h none := fun _ hk => by cases hk

theorem Names.some {k : ReplicaChangeKind} (hk : k.handle = h) : Names h (some k) := by
  rintro k' ⟨⟩
  exact hk

def ContentOutcome.Names (h : ReplicaHandle) : ContentOutcome → Prop
  | .untouched => True
  | .rewritten p => p.handle = h
  | .push change => change.handle = h

variable {p : ReplicaPlacement} (item : ReplicaRemoteItem)

theorem Local.pullAdd (hab : Local h object a b) (hi : item.handle = h) :
    Local h object a (b.pullAdd item) := hab.upsert hi

theorem Local.pullContent (hab : Local h object a b) (hp : p.handle = h) :
    Local h object a (b.pullContent p item).1 ∧ (b.pullContent p item).2.handle = h := by
  have hup : Local h object a (b.upsert (refreshedPlacement p item)) := hab.upsert hp
  exact ⟨hup.countRefreshed.emit _, hp⟩

theorem Local.pullFlags (hab : Local h object a b) (hp : p.handle = h) (flags : ReplicaFlags) :
    Local h object a (b.pullFlags p flags) := hab.upsert hp

theorem Local.rebase (hab : Local h object a b) (hp : p.handle = h) (flags : ReplicaFlags) :
    Local h object a (b.rebase p flags) := hab.upsert hp

theorem Local.refuseDelete (hab : Local h object a b) (hp : p.handle = h) :
    Local h object a (b.refuseDelete p).1 ∧ Names h (b.refuseDelete p).2 := by
  cases hd : b.opts.delete with
  | revert =>
    simp only [ReplicaSync.refuseDelete, hd]
    exact ⟨hab.upsert hp, .none h⟩
  | keep =>
    simp only [ReplicaSync.refuseDelete, hd]
    exact ⟨hab, .none h⟩

theorem Local.markConflict (hab : Local h object a b) (hp : p.handle = h) :
    Local h object a (b.markConflict p item).1 ∧ (b.markConflict p item).2.Names h := by
  have hup : Local h object a (b.upsert (conflictedPlacement p item)) := hab.upsert hp
  exact ⟨hup.countConflict.emit _, hp⟩

theorem Local.stageConflictDup (hab : Local h p.object a b) (hp : p.handle = h) :
    Local h p.object a (b.stageConflictDup p) := by
  cases ho : p.object with
  | none =>
    rw [ho] at hab
    simp only [ReplicaSync.stageConflictDup, ho]
    exact hab.panic
  | some o =>
    rw [ho] at hab
    simp only [ReplicaSync.stageConflictDup, ho]
    exact hab.write (Or.inr ⟨_, rfl, o, rfl, by rw [forkedPlacement, hp]; rfl⟩)

theorem Local.pushContent (hab : Local h object a b) (hp : p.handle = h)
    (ifMatch : Option String) :
    Local h object a (b.pushContent p ifMatch).1 ∧ (b.pushContent p ifMatch).2.Names h := by
  have hs : Local h object a (b.stashContent p.handle p) := by
    rw [hp]
    exact hab.stashContent hp
  cases ho : p.object with
  | none =>
    simp only [ReplicaSync.pushContent, ho]
    exact ⟨hs.panic, trivial⟩
  | some o =>
    simp only [ReplicaSync.pushContent, ho]
    exact ⟨hs, hp⟩

theorem Local.resolveConflict (hab : Local h p.object a b) (hp : p.handle = h) :
    Local h p.object a (b.resolveConflict p item).1 ∧ (b.resolveConflict p item).2.Names h := by
  cases hc : b.opts.conflict with
  | manual =>
    simp only [ReplicaSync.resolveConflict, hc]
    exact hab.markConflict item hp
  | preferRemote =>
    simp only [ReplicaSync.resolveConflict, hc]
    exact hab.pullContent item hp
  | preferLocal =>
    cases hm : b.opts.mayContent with
    | false =>
      simp only [ReplicaSync.resolveConflict, hc, hm]
      exact hab.markConflict item hp
    | true =>
      simp only [ReplicaSync.resolveConflict, hc, hm]
      exact hab.pushContent hp _
  | keepBoth =>
    simp only [ReplicaSync.resolveConflict, hc]
    exact (hab.stageConflictDup hp).pullContent item hp

theorem Local.reconcileContent (hab : Local h p.object a b) (hp : p.handle = h) :
    Local h p.object a (b.reconcileContent p item).1 ∧
      (b.reconcileContent p item).2.Names h := by
  cases hb : p.base with
  | none =>
    simp only [ReplicaSync.reconcileContent, hb]
    split
    · exact hab.markConflict item hp
    · exact ⟨hab, trivial⟩
  | some base =>
    simp only [ReplicaSync.reconcileContent, hb]
    split
    · split
      · exact ⟨hab.upsert hp, hp⟩
      · exact ⟨hab, trivial⟩
    · cases localChanged p base <;> cases movedFrom item base.revision
      · exact ⟨hab, trivial⟩
      · exact hab.pullContent item hp
      · dsimp only
        split
        · exact ⟨hab, trivial⟩
        · exact hab.pushContent hp _
      · exact hab.resolveConflict item hp

theorem Local.reconcileFlags (hab : Local h object a b) (hp : p.handle = h) (allow : PushFlags) :
    Local h object a (b.reconcileFlags p item allow).1 ∧
      Names h (b.reconcileFlags p item allow).2 := by
  cases hb : p.baseFlags with
  | none =>
    simp only [ReplicaSync.reconcileFlags, hb]
    exact ⟨((hab.pullFlags hp _).countPulled).emit _, .none h⟩
  | some flags =>
    have hup : ∀ f, Local h object a
        (((b.upsert { p with flags := f }).countPulled).emit (.flagsChanged p.handle)) :=
      fun f => ((hab.upsert (p := { p with flags := f }) hp).countPulled).emit _
    have hst : ∀ d f, Local h object a d →
        Local h object a (d.stashFlags p.handle { p with flags := f }) :=
      fun d f hd => hd.stashFlags hp hp
    simp only [ReplicaSync.reconcileFlags, hb]
    cases decide (ReplicaFlags.merge flags p.flags item.flags ≠ p.flags) <;>
      cases decide (ReplicaFlags.merge flags p.flags item.flags ≠ item.flags)
    · dsimp only
      split
      · exact ⟨hab.rebase hp _, .none h⟩
      · exact ⟨hab, .none h⟩
    · dsimp only
      simp only [Bool.false_eq_true, if_false]
      split
      · exact ⟨hab, .none h⟩
      · exact ⟨hst _ _ hab, .some hp⟩
    · exact ⟨((hab.pullFlags hp _).countPulled).emit _, .none h⟩
    · dsimp only
      simp only [if_true]
      split
      · exact ⟨hup _, .none h⟩
      · exact ⟨hst _ _ (hup _), .some hp⟩

theorem Local.mergeTombstone (hab : Local h object a b) (hp : p.handle = h)
    (hi : item.handle = h) :
    Local h object a (b.mergeTombstone h p item).1 ∧
      Names h (b.mergeTombstone h p item).2 := by
  simp only [ReplicaSync.mergeTombstone]
  split
  · exact ⟨((hab.pullAdd item hi).countPulled).emit _, .none h⟩
  · split
    · split
      · exact hab.refuseDelete hp
      · cases p.object with
        | none => exact ⟨(hab.stashContent hp).panic, .none h⟩
        | some o => exact ⟨hab.stashContent hp, .some rfl⟩
    · split
      · exact hab.refuseDelete hp
      · exact ⟨hab.stashDrop, .some rfl⟩

theorem Local.pushAdd (hab : Local h object a b) (hp : p.handle = h) :
    Local h object a (b.pushAdd h p).1 ∧ Names h (b.pushAdd h p).2 :=
  ⟨hab.stashCreate hp, .some rfl⟩

theorem Local.mergeVanished (hab : Local h object a b) (hp : p.handle = h) :
    Local h object a (b.mergeVanished h p).1 ∧ Names h (b.mergeVanished h p).2 := by
  have hup : Local h object a (b.upsert (resurrectedPlacement p)) := hab.upsert hp
  simp only [ReplicaSync.mergeVanished]
  split
  · split
    · exact ⟨hup, .none h⟩
    · exact hup.pushAdd hp
  · exact ⟨((hab.drop _).countPulled).emit _, .none h⟩

theorem Local.mergePresent (hab : Local h p.object a b) (hp : p.handle = h) :
    Local h p.object a (b.mergePresent p item).1 ∧ Names h (b.mergePresent p item).2 := by
  have hc := hab.reconcileContent item hp
  simp only [ReplicaSync.mergePresent]
  cases ho : b.reconcileContent p item with
  | mk d outcome =>
    rw [ho] at hc
    cases outcome with
    | untouched => exact hc.1.reconcileFlags item hp _
    | rewritten q => exact hc.1.reconcileFlags item hc.2 _
    | push change => exact ⟨(hc.1.reconcileFlags item hp _).1, .some hc.2⟩

theorem Local.mergeCreate (hab : Local h object a b) (hp : p.handle = h) :
    Local h object a (b.mergeCreate h p).1 ∧ Names h (b.mergeCreate h p).2 := by
  simp only [ReplicaSync.mergeCreate]
  split
  · exact hab.pushAdd hp
  · exact ⟨hab, .none h⟩

end ReplicaSync

/-- A candidate pairs a row and an item of its own handle. -/
structure Candidate.Paired (c : Candidate) : Prop where
  loc : ∀ p, c.loc = some p → p.handle = c.handle
  remote : ∀ i, c.remote = some i → i.handle = c.handle

namespace ReplicaSync

theorem merge_local (self : ReplicaSync) {c : Candidate} (hc : c.Paired) :
    Local c.handle (c.loc.bind (·.object)) self (self.merge c).1 ∧
      Names c.handle (self.merge c).2 := by
  obtain ⟨h, loc, remote⟩ := c
  obtain ⟨hloc, hremote⟩ := hc
  have hself := Local.refl h (loc.bind (·.object)) self
  cases loc with
  | none =>
    cases remote with
    | none => exact ⟨hself, .none h⟩
    | some item => exact ⟨((hself.pullAdd item (hremote item rfl)).countPulled).emit _, .none h⟩
  | some p =>
    have hp : p.handle = h := hloc p rfl
    by_cases hs : p.status = .tombstone
    · rw [merge_tombstone _ _ hs]
      cases remote with
      | none => exact ⟨hself.drop _, .none h⟩
      | some item =>
        dsimp only
        split
        · exact hself.mergeTombstone item hp (hremote item rfl)
        · exact ⟨((hself.pullAdd item (hremote item rfl)).countPulled).emit _, .none h⟩
    · rw [merge_live _ _ hs]
      cases remote with
      | none =>
        dsimp only
        split
        · exact hself.mergeVanished hp
        · exact hself.mergeCreate hp
      | some item => exact hself.mergePresent item hp

end ReplicaSync
end IoReplica

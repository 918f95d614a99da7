import IoReplica.Sync.Append

/-! Recording push results: what an accepted one writes, and what it leaves pending. -/
namespace IoReplica

/-- What one handle awaits a push result with. -/
structure Pending where
  flags : Option ReplicaPlacement
  content : Option ReplicaPlacement
  dropped : Bool
  created : Option ReplicaPlacement

namespace Pending

def none : Pending := ⟨.none, .none, false, .none⟩

/-- The row an accepted flag push leaves: rebased onto the flags it carried. -/
def flagsRebased (p : ReplicaPlacement) : ReplicaPlacement :=
  { p with
    status := ReplicaSync.settledStatus p
    base := ReplicaSync.flagBase p p.flags }

/-- The writes recording an accepted create. -/
def recordCreate (collection : ReplicaCollectionId) (result : ReplicaPushResult)
    (p : ReplicaPlacement) : List ReplicaWriteOp :=
  .dropPlacement collection p.handle .superseded ::
    (result.assigned.map (fun assigned =>
      ReplicaWriteOp.upsertPlacement
        (ReplicaSync.rekeyedPlacement p assigned result.revision))).toList

/-- The writes recording an accepted result, in order. -/
def record (collection : ReplicaCollectionId) (pending : Pending) (result : ReplicaPushResult) :
    List ReplicaWriteOp :=
  (pending.flags.map (fun p => ReplicaWriteOp.upsertPlacement (flagsRebased p))).toList ++
    (pending.content.map (fun p => ReplicaWriteOp.upsertPlacement
      (ReplicaSync.contentRebased p result.revision))).toList ++
    (if pending.dropped then
      [ReplicaWriteOp.dropPlacement collection result.handle .deleted] else []) ++
    (pending.created.map (recordCreate collection result)).getD []

@[simp] theorem record_none (collection : ReplicaCollectionId) (result : ReplicaPushResult) :
    none.record collection result = [] := rfl

end Pending

namespace ReplicaSync

def awaitsDrop (drops : Finset ReplicaHandle) (h : ReplicaHandle) : Bool := decide (h ∈ drops)

@[simp] theorem awaitsDrop_iff (drops : Finset ReplicaHandle) (h : ReplicaHandle) :
    awaitsDrop drops h = true ↔ h ∈ drops := decide_eq_true_iff

@[simp] theorem awaitsDrop_erase (drops : Finset ReplicaHandle) (g h : ReplicaHandle) :
    awaitsDrop (drops.erase g) h = (decide (h ≠ g) && awaitsDrop drops h) := by
  simp [awaitsDrop]

/-- What a handle awaits a push result with. -/
def pendingAt (self : ReplicaSync) (h : ReplicaHandle) : Pending :=
  ⟨self.pendingFlagPushes[h]?, self.pendingContentPushes[h]?, awaitsDrop self.pendingDrops h,
    self.pendingCreates[h]?⟩

/-- What recording push results leaves alone. -/
structure Kept (a b : ReplicaSync) : Prop where
  collection : b.collection = a.collection
  pushes : b.pushes = a.pushes
  inFlight : b.inFlight = a.inFlight
  nextCheckpoint : b.nextCheckpoint = a.nextCheckpoint

theorem Kept.refl (a : ReplicaSync) : Kept a a := ⟨rfl, rfl, rfl, rfl⟩

theorem Kept.trans {a b c : ReplicaSync} (h : Kept a b) (h' : Kept b c) : Kept a c :=
  ⟨h'.collection.trans h.collection, h'.pushes.trans h.pushes, h'.inFlight.trans h.inFlight,
    h'.nextCheckpoint.trans h.nextCheckpoint⟩

/-- One part of an accepted result: the writes it appends and the pending state it leaves. -/
structure Records (a b : ReplicaSync) (ops : List ReplicaWriteOp) (h : ReplicaHandle)
    (left : Pending) : Prop where
  kept : Kept a b
  writes : b.writes = a.writes ++ ops
  pending : b.pendingAt h = left
  others : ∀ g, g ≠ h → b.pendingAt g = a.pendingAt g

theorem Records.trans {a b c : ReplicaSync} {ops ops' : List ReplicaWriteOp} {h : ReplicaHandle}
    {l l' : Pending} (r : Records a b ops h l) (r' : Records b c ops' h l') :
    Records a c (ops ++ ops') h l' := by
  refine ⟨r.kept.trans r'.kept, ?_, r'.pending, ?_⟩
  · rw [r'.writes, r.writes, List.append_assoc]
  · intro g hg
    rw [r'.others g hg, r.others g hg]

theorem settleFlags_records (self : ReplicaSync) (h : ReplicaHandle) :
    Records self (self.settleFlags h).1
      ((self.pendingAt h).flags.map (fun p => .upsertPlacement (Pending.flagsRebased p))).toList h
      { self.pendingAt h with flags := none } := by
  simp only [settleFlags]
  cases hp : self.pendingFlagPushes[h]? with
  | none =>
    refine ⟨.refl _, ?_, ?_, fun _ _ => rfl⟩
    · simp [pendingAt, hp]
    · simp [pendingAt, hp]
  | some p =>
    refine ⟨⟨rfl, rfl, rfl, rfl⟩, ?_, ?_, ?_⟩
    · simp [pendingAt, hp, emit, rebase, upsert, write, Pending.flagsRebased]
    · simp [pendingAt, emit, rebase, upsert, write]
    · intro g hg
      simp [pendingAt, emit, rebase, upsert, write, OrderedMap.get_erase_of_ne _ hg.symm]

theorem settleContent_records (self : ReplicaSync) (result : ReplicaPushResult) :
    Records self (self.settleContent result).1
      ((self.pendingAt result.handle).content.map (fun p => .upsertPlacement
        (contentRebased p result.revision))).toList result.handle
      { self.pendingAt result.handle with content := none } := by
  simp only [settleContent]
  cases hp : self.pendingContentPushes[result.handle]? with
  | none =>
    refine ⟨.refl _, ?_, ?_, fun _ _ => rfl⟩
    · simp [pendingAt, hp]
    · simp [pendingAt, hp]
  | some p =>
    refine ⟨⟨rfl, rfl, rfl, rfl⟩, ?_, ?_, ?_⟩
    · simp [pendingAt, hp, emit, rebaseContent, upsert, write]
    · simp [pendingAt, emit, rebaseContent, upsert, write]
    · intro g hg
      simp [pendingAt, emit, rebaseContent, upsert, write, OrderedMap.get_erase_of_ne _ hg.symm]

theorem settleDrop_records (self : ReplicaSync) (h : ReplicaHandle) :
    Records self (self.settleDrop h).1
      (if (self.pendingAt h).dropped then [.dropPlacement self.collection h .deleted] else []) h
      { self.pendingAt h with dropped := false } := by
  simp only [settleDrop]
  by_cases hp : h ∈ self.pendingDrops
  · refine ⟨?_, ?_, ?_, ?_⟩
    · simp only [hp, if_true]
      exact ⟨rfl, rfl, rfl, rfl⟩
    · simp [pendingAt, hp, emit, drop, write]
    · simp [pendingAt, hp, emit, drop, write]
    · intro g hg
      simp [pendingAt, hp, emit, drop, write, hg]
  · refine ⟨?_, ?_, ?_, ?_⟩
    · simp only [hp, if_false]
      exact .refl _
    · simp [pendingAt, hp]
    · simp [pendingAt, hp, awaitsDrop]
    · intro g _
      simp [pendingAt, hp]

theorem settleCreate_records (self : ReplicaSync) (result : ReplicaPushResult) :
    Records self (self.settleCreate result).1
      (((self.pendingAt result.handle).created.map
        (Pending.recordCreate self.collection result)).getD []) result.handle
      { self.pendingAt result.handle with created := none } := by
  simp only [settleCreate]
  cases hp : self.pendingCreates[result.handle]? with
  | none =>
    refine ⟨.refl _, ?_, ?_, fun _ _ => rfl⟩
    · simp [pendingAt, hp]
    · simp [pendingAt, hp]
  | some p =>
    cases ha : result.assigned with
    | none =>
      refine ⟨⟨rfl, rfl, rfl, rfl⟩, ?_, ?_, ?_⟩
      · simp [pendingAt, hp, emit, drop, write, Pending.recordCreate, ha]
      · simp [pendingAt, emit, drop, write]
      · intro g hg
        simp [pendingAt, emit, drop, write, OrderedMap.get_erase_of_ne _ hg.symm]
    | some assigned =>
      refine ⟨⟨rfl, rfl, rfl, rfl⟩, ?_, ?_, ?_⟩
      · simp [pendingAt, hp, emit, drop, write, rekeyCreate, upsert, Pending.recordCreate, ha]
      · simp [pendingAt, emit, drop, write, rekeyCreate, upsert]
      · intro g hg
        simp [pendingAt, emit, drop, write, rekeyCreate, upsert,
          OrderedMap.get_erase_of_ne _ hg.symm]

/-- A rejected result records nothing; an accepted one records its handle's pending state. -/
theorem settle_records (self : ReplicaSync) (result : ReplicaPushResult) :
    Records self (self.settle result)
      (match result.outcome with
        | .accepted => (self.pendingAt result.handle).record self.collection result
        | .rejected => [])
      result.handle
      (match result.outcome with
        | .accepted => .none
        | .rejected => self.pendingAt result.handle) := by
  cases ho : result.outcome with
  | rejected =>
    simp only [settle, ho]
    exact ⟨⟨rfl, rfl, rfl, rfl⟩, by simp [countRejected], rfl, fun _ _ => rfl⟩
  | accepted =>
    have hf := self.settleFlags_records result.handle
    have hc := (self.settleFlags result.handle).1.settleContent_records result
    have hd := ((self.settleFlags result.handle).1.settleContent result).1.settleDrop_records
      result.handle
    have hn := (((self.settleFlags result.handle).1.settleContent result).1.settleDrop
      result.handle).1.settleCreate_records result
    have hcoll := hf.kept.trans hc.kept
    rw [hd.pending, hc.pending, hf.pending, (hcoll.trans hd.kept).collection] at hn
    rw [hc.pending, hf.pending, hcoll.collection] at hd
    rw [hf.pending] at hc
    have h := ((hf.trans hc).trans hd).trans hn
    simp only [settle, ho]
    exact ⟨⟨h.kept.collection, h.kept.pushes, h.kept.inFlight, h.kept.nextCheckpoint⟩, h.writes,
      h.pending, h.others⟩

end ReplicaSync
end IoReplica

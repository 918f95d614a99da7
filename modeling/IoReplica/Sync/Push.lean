import IoReplica.Sync.Settle

/-! The push phase: chunk after chunk, each recorded before the next goes out. -/
namespace IoReplica

/-- What every handle awaits a push result with. -/
abbrev Outbox := ReplicaHandle → Pending

namespace Outbox

/-- Records one result: an accepted one is written and awaited no more. -/
def settle (collection : ReplicaCollectionId) (box : Outbox) (result : ReplicaPushResult) :
    Outbox × List ReplicaWriteOp :=
  match result.outcome with
  | .accepted =>
    (Function.update box result.handle .none, (box result.handle).record collection result)
  | .rejected => (box, [])

def settleAll (collection : ReplicaCollectionId) (box : Outbox) :
    List ReplicaPushResult → Outbox × List ReplicaWriteOp
  | [] => (box, [])
  | result :: results =>
    let (box, ops) := box.settle collection result
    let (box, rest) := settleAll collection box results
    (box, ops ++ rest)

/-- A serviced chunk's handles are awaited no more, reported on or not. -/
def forget (box : Outbox) (handles : List ReplicaHandle) : Outbox :=
  fun h => if h ∈ handles then .none else box h

/-- The writes recording every push serviced, in order. -/
def recordAll (collection : ReplicaCollectionId) (box : Outbox) :
    List PushExchange → List ReplicaWriteOp
  | [] => []
  | (changes, results) :: rest =>
    let (box, ops) := box.settleAll collection results
    ops ++ recordAll collection (box.forget (changes.map (·.handle))) rest

variable {collection : ReplicaCollectionId} {box : Outbox}

theorem settleAll_mem (collection : ReplicaCollectionId) (box : Outbox)
    (results : List ReplicaPushResult) :
    (∀ h, (box.settleAll collection results).1 h = box h ∨
        (box.settleAll collection results).1 h = .none) ∧
      ∀ op ∈ (box.settleAll collection results).2,
        ∃ r ∈ results, r.outcome = .accepted ∧ op ∈ (box r.handle).record collection r := by
  induction results generalizing box with
  | nil => exact ⟨fun h => Or.inl rfl, fun op hop => (by cases hop)⟩
  | cons r results ih =>
    simp only [settleAll, settle]
    cases ho : r.outcome with
    | rejected =>
      obtain ⟨hleft, hops⟩ := ih box
      refine ⟨hleft, ?_⟩
      intro op hop
      obtain ⟨r', hr', hop⟩ := hops op hop
      exact ⟨r', List.mem_cons_of_mem _ hr', hop⟩
    | accepted =>
      obtain ⟨hleft, hops⟩ := ih (Function.update box r.handle .none)
      have hnext : ∀ h, Function.update box r.handle .none h = box h ∨
          Function.update box r.handle .none h = .none := by
        intro h
        by_cases hh : h = r.handle
        · exact Or.inr (by rw [hh, Function.update_self])
        · exact Or.inl (Function.update_of_ne hh _ _)
      refine ⟨?_, ?_⟩
      · intro h
        rcases hleft h with hl | hl
        · rw [hl]
          exact hnext h
        · exact Or.inr hl
      · intro op hop
        rcases List.mem_append.mp hop with hop | hop
        · exact ⟨r, List.mem_cons_self, ho, hop⟩
        · obtain ⟨r', hr', hacc, hop⟩ := hops op hop
          rcases hnext r'.handle with hn | hn
          · rw [hn] at hop
            exact ⟨r', List.mem_cons_of_mem _ hr', hacc, hop⟩
          · rw [hn, Pending.record_none] at hop
            cases hop

/-- A handle no result accepts awaits what it awaited. -/
theorem settleAll_unaccepted (collection : ReplicaCollectionId) (box : Outbox)
    (results : List ReplicaPushResult) {h : ReplicaHandle}
    (hh : ∀ r ∈ results, r.outcome = .accepted → r.handle ≠ h) :
    (box.settleAll collection results).1 h = box h := by
  induction results generalizing box with
  | nil => rfl
  | cons r results ih =>
    have hr := hh r List.mem_cons_self
    simp only [settleAll]
    rw [ih _ (fun x hx => hh x (List.mem_cons_of_mem _ hx))]
    simp only [settle]
    cases ho : r.outcome with
    | rejected => rfl
    | accepted => exact Function.update_of_ne (Ne.symm (hr ho)) _ _

/-- Every write recording a push is one accepted result's, of what its handle awaited. -/
theorem recordAll_mem (es : List PushExchange) {op : ReplicaWriteOp}
    (hop : op ∈ box.recordAll collection es) :
    ∃ r, (∃ e ∈ es, r ∈ e.2) ∧ r.outcome = .accepted ∧
      op ∈ (box r.handle).record collection r := by
  induction es generalizing box with
  | nil => cases hop
  | cons e es ih =>
    obtain ⟨hleft, hops⟩ := settleAll_mem collection box e.2
    simp only [recordAll] at hop
    rcases List.mem_append.mp hop with hop | hop
    · obtain ⟨r, hr, hacc, hop⟩ := hops op hop
      exact ⟨r, ⟨e, List.mem_cons_self, hr⟩, hacc, hop⟩
    · obtain ⟨r, ⟨e', he', hr⟩, hacc, hop⟩ := ih hop
      refine ⟨r, ⟨e', List.mem_cons_of_mem _ he', hr⟩, hacc, ?_⟩
      simp only [forget] at hop
      split at hop
      · rw [Pending.record_none] at hop
        cases hop
      · rcases hleft r.handle with hl | hl
        · rw [hl] at hop
          exact hop
        · rw [hl, Pending.record_none] at hop
          cases hop

end Outbox

namespace ReplicaSync

theorem settle_spec (self : ReplicaSync) (result : ReplicaPushResult) :
    Kept self (self.settle result) ∧
      (self.settle result).writes =
        self.writes ++ (Outbox.settle self.collection self.pendingAt result).2 ∧
      (self.settle result).pendingAt = (Outbox.settle self.collection self.pendingAt result).1 := by
  have h := self.settle_records result
  cases ho : result.outcome with
  | rejected =>
    simp only [ho] at h
    simp only [Outbox.settle, ho]
    refine ⟨h.kept, h.writes, ?_⟩
    funext g
    by_cases hg : g = result.handle
    · rw [hg, h.pending]
    · exact h.others g hg
  | accepted =>
    simp only [ho] at h
    simp only [Outbox.settle, ho]
    refine ⟨h.kept, h.writes, ?_⟩
    funext g
    by_cases hg : g = result.handle
    · rw [hg, h.pending, Function.update_self]
    · rw [Function.update_of_ne hg]
      exact h.others g hg

theorem settleAll_spec (self : ReplicaSync) (results : List ReplicaPushResult) :
    Kept self (results.foldl settle self) ∧
      (results.foldl settle self).writes =
        self.writes ++ (Outbox.settleAll self.collection self.pendingAt results).2 ∧
      (results.foldl settle self).pendingAt =
        (Outbox.settleAll self.collection self.pendingAt results).1 := by
  induction results generalizing self with
  | nil => exact ⟨.refl _, by simp [Outbox.settleAll], rfl⟩
  | cons result results ih =>
    obtain ⟨hk, hw, hp⟩ := self.settle_spec result
    obtain ⟨hk', hw', hp'⟩ := ih (self.settle result)
    rw [hk.collection, hp] at hw' hp'
    refine ⟨hk.trans hk', ?_, hp'⟩
    rw [List.foldl_cons, hw', hw, List.append_assoc]
    rfl

theorem forget_pendingAt (self : ReplicaSync) (h g : ReplicaHandle) :
    (self.forget h).pendingAt g = if g = h then .none else self.pendingAt g := by
  by_cases hg : g = h
  · subst hg
    simp [pendingAt, forget, awaitsDrop, Pending.none]
  · simp [pendingAt, forget, awaitsDrop, hg, OrderedMap.get_erase_of_ne _ (Ne.symm hg)]

theorem forgetAll_spec (self : ReplicaSync) (handles : List ReplicaHandle) :
    Kept self (handles.foldl forget self) ∧ (handles.foldl forget self).writes = self.writes ∧
      (handles.foldl forget self).pendingAt = Outbox.forget self.pendingAt handles := by
  induction handles generalizing self with
  | nil => exact ⟨.refl _, rfl, by funext g; simp [Outbox.forget]⟩
  | cons h handles ih =>
    obtain ⟨hk, hw, hp⟩ := ih (self.forget h)
    have hf : Kept self (self.forget h) := ⟨rfl, rfl, rfl, rfl⟩
    refine ⟨hf.trans hk, hw, ?_⟩
    rw [List.foldl_cons, hp]
    funext g
    simp only [Outbox.forget, forget_pendingAt, List.mem_cons]
    by_cases hg : g = h <;> simp [hg]

/-- What recording one serviced chunk leaves. -/
theorem settleChunk_spec (self : ReplicaSync) (results : List ReplicaPushResult) :
    (self.settleChunk results).collection = self.collection ∧
      (self.settleChunk results).pushes = self.pushes ∧
      (self.settleChunk results).nextCheckpoint = self.nextCheckpoint ∧
      (self.settleChunk results).writes =
        self.writes ++ (Outbox.settleAll self.collection self.pendingAt results).2 ∧
      (self.settleChunk results).pendingAt =
        Outbox.forget (Outbox.settleAll self.collection self.pendingAt results).1
          self.inFlight := by
  obtain ⟨hk, hw, hp⟩ := self.settleAll_spec results
  obtain ⟨hk', hw', hp'⟩ := (results.foldl settle self).forgetAll_spec
    (results.foldl settle self).inFlight
  have hkept := hk.trans hk'
  refine ⟨hkept.collection, hkept.pushes, hkept.nextCheckpoint, hw'.trans hw, ?_⟩
  rw [hp, hk.inFlight] at hp'
  rw [← hp', ← hk.inFlight]
  rfl

/-- The checkpoint a run ends its last batch with. -/
def closing (self : ReplicaSync) : List ReplicaWriteOp :=
  (self.nextCheckpoint.map (ReplicaWriteOp.setCheckpoint self.collection)).toList

theorem batch_last (self : ReplicaSync) (hp : self.pushes = []) :
    self.batch = ({ self with writes := [], nextCheckpoint := none },
      self.writes ++ self.closing) := by
  cases hc : self.nextCheckpoint with
  | none =>
    simp only [batch, hp, hc, List.isEmpty_nil, if_true, closing, Option.map_none,
      Option.toList_none, List.append_nil]
  | some checkpoint => simp [batch, hp, hc, closing]

theorem batch_pending (self : ReplicaSync) (hp : self.pushes ≠ []) :
    self.batch = ({ self with writes := [] }, self.writes) := by
  have hempty : self.pushes.isEmpty = false := by simpa using hp
  simp only [batch, hempty, Bool.false_eq_true, if_false]

theorem batch_unclosed {self : ReplicaSync} (hk : self.nextCheckpoint = none) :
    self.batch = ({ self with writes := [] }, self.writes) := by
  by_cases hp : self.pushes = []
  · rw [batch_last _ hp]
    simp [closing, hk]
  · exact batch_pending _ hp

/-- What a run asks for and writes from its pushes on. -/
structure PushSpec (a : ReplicaSync) (t : Transcript) : Prop where
  pushes : (t.pushes.map (·.1)).flatten = a.pushes
  writes : t.writes = a.writes ++
    (Outbox.recordAll a.collection a.pendingAt t.pushes ++ a.closing)

abbrev Ends := Coroutine.Ends resume

/-- A run that completes had its writes serviced. -/
theorem answered_write {self : ReplicaSync} {b : ReplicaArg} {t : Transcript}
    {report : ReplicaSyncReport} (h : Coroutine.Runs resume self (some b) t (.ok report))
    (hs : self.state = .pendingWrite ∨ self.state = .merging) : b = .write := by
  have he := h.ends
  cases b with
  | write => rfl
  | enumerate | fetch | push | load | lookupObject =>
    rcases hs with hs | hs <;>
    · simp only [resume, hs] at he
      exact absurd he.2 (by simp)

/-- A serviced write with nothing left to push ends the run with what it reports. -/
theorem ends_lastWrite {self : ReplicaSync} {b : ReplicaArg} {t : Transcript}
    {report : ReplicaSyncReport} (h : Coroutine.Runs resume self (some b) t (.ok report))
    (hs : self.state = .pendingWrite) (hp : self.pushes = []) :
    t = [] ∧ self.report = report := by
  obtain rfl := answered_write h (Or.inl hs)
  have he := h.ends
  simp only [resume, hs, hp, List.isEmpty_nil, if_true] at he
  exact ⟨he.1, Except.ok.inj he.2⟩

theorem ends_nextWrite {self : ReplicaSync} {b : ReplicaArg} {t : Transcript}
    {report : ReplicaSyncReport} (h : Coroutine.Runs resume self (some b) t (.ok report))
    (hs : self.state = .pendingWrite) (hp : self.pushes ≠ []) :
    Ends self.step t (.ok report) := by
  obtain rfl := answered_write h (Or.inl hs)
  have hempty : self.pushes.isEmpty = false := by simpa using hp
  have he := h.ends
  simpa only [resume, hs, hempty, Bool.false_eq_true, if_false] using he

theorem ends_pushed {self : ReplicaSync} {b : ReplicaArg} {t : Transcript}
    {report : ReplicaSyncReport} (h : Coroutine.Runs resume self (some b) t (.ok report))
    (hs : self.state = .pendingPush) :
    ∃ results, b = .push results ∧
      Ends (resume self (some (.push results))) t (.ok report) := by
  have he := h.ends
  cases b with
  | push results => exact ⟨results, rfl, he⟩
  | enumerate | fetch | write | load | lookupObject =>
    simp only [resume, hs] at he
    exact absurd he.2 (by simp)

theorem step_last (self : ReplicaSync) (hp : self.pushes = []) :
    self.step = ({ self with state := .pendingWrite, writes := [], nextCheckpoint := none },
      .yielded (.wantsWrite (self.writes ++ self.closing))) := by
  have hb : ({ self with state := .pendingWrite } : ReplicaSync).batch = _ := batch_last _ hp
  have hempty : self.pushes.isEmpty = true := by rw [hp]; rfl
  simp only [step, hempty, if_true, hb]
  rfl

/-- The run with its next chunk of pushes in flight. -/
def sent (self : ReplicaSync) : ReplicaSync :=
  { self with
    pushes := self.pushes.drop PUSH_CHUNK
    inFlight := (self.pushes.take PUSH_CHUNK).map (fun change => change.handle)
    state := .pendingPush }

theorem step_chunk {self : ReplicaSync} (hp : self.pushes ≠ []) :
    self.step = (self.sent,
      .yielded (.wantsPush self.collection (self.pushes.take PUSH_CHUNK))) := by
  have hempty : self.pushes.isEmpty = false := by simpa using hp
  simp only [step, hempty, Bool.false_eq_true, if_false]
  rfl

/-- The run with a chunk's results recorded, about to be written. -/
def recorded (self : ReplicaSync) (results : List ReplicaPushResult) : ReplicaSync :=
  { self.sent.settleChunk results with state := .pendingWrite }

theorem resume_sent (self : ReplicaSync) (results : List ReplicaPushResult) :
    self.sent.resume (some (.push results)) = ((self.recorded results).batch.1,
      .yielded (.wantsWrite (self.recorded results).batch.2)) := rfl

theorem recorded_spec (self : ReplicaSync) (results : List ReplicaPushResult) :
    (self.recorded results).collection = self.collection ∧
      (self.recorded results).pushes = self.pushes.drop PUSH_CHUNK ∧
      (self.recorded results).nextCheckpoint = self.nextCheckpoint ∧
      (self.recorded results).writes =
        self.writes ++ (Outbox.settleAll self.collection self.pendingAt results).2 ∧
      (self.recorded results).pendingAt =
        Outbox.forget (Outbox.settleAll self.collection self.pendingAt results).1
          ((self.pushes.take PUSH_CHUNK).map (fun change => change.handle)) :=
  self.sent.settleChunk_spec results

/-- A run from its pushes on: nothing queued, or chunk after chunk, each recorded by the write
right after it and the last of them with the checkpoint. -/
inductive Drains (report : ReplicaSyncReport) : ReplicaSync → Transcript → Prop
  | idle {a : ReplicaSync} (pushes : a.pushes = []) (reported : a.report = report) :
      Drains report a [(.wantsWrite (a.writes ++ a.closing), .write)]
  | last {a : ReplicaSync} (results : List ReplicaPushResult) (pushes : a.pushes ≠ [])
      (drained : a.pushes.drop PUSH_CHUNK = []) (reported : (a.recorded results).report = report) :
      Drains report a [(.wantsPush a.collection (a.pushes.take PUSH_CHUNK), .push results),
        (.wantsWrite ((a.recorded results).writes ++ a.closing), .write)]
  | chunk {a : ReplicaSync} {t : Transcript} (results : List ReplicaPushResult)
      (more : a.pushes.drop PUSH_CHUNK ≠ [])
      (rest : Drains report { a.recorded results with writes := [] } t) :
      Drains report a ((.wantsPush a.collection (a.pushes.take PUSH_CHUNK), .push results) ::
        (.wantsWrite (a.recorded results).writes, .write) :: t)

theorem recorded_closing (self : ReplicaSync) (results : List ReplicaPushResult) :
    (self.recorded results).closing = self.closing := by
  obtain ⟨hcoll, -, hck, -, -⟩ := self.recorded_spec results
  rw [closing, closing, hck, hcoll]

theorem step_drains_idle {self : ReplicaSync} {t : Transcript} {report : ReplicaSyncReport}
    (hp : self.pushes = []) (h : Ends self.step t (.ok report)) : Drains report self t := by
  rw [step_last _ hp] at h
  obtain ⟨b, u, rfl, hruns⟩ := h
  obtain rfl := answered_write hruns (Or.inl rfl)
  obtain ⟨rfl, hreport⟩ := ends_lastWrite hruns rfl hp
  exact .idle hp hreport

theorem drains_of_length (n : ℕ) (self : ReplicaSync) (t : Transcript) (report : ReplicaSyncReport)
    (hn : self.pushes.length ≤ n) (h : Ends self.step t (.ok report)) : Drains report self t := by
  induction n generalizing self t with
  | zero =>
    have hp : self.pushes = [] := List.eq_nil_of_length_eq_zero (Nat.le_zero.mp hn)
    exact step_drains_idle hp h
  | succ n ih =>
    by_cases hp : self.pushes = []
    · exact step_drains_idle hp h
    rw [step_chunk hp] at h
    obtain ⟨b, u, rfl, hruns⟩ := h
    obtain ⟨results, rfl, hends⟩ := ends_pushed hruns rfl
    obtain ⟨-, hpushes, -, -, -⟩ := self.recorded_spec results
    have hlen : 0 < self.pushes.length := List.length_pos_of_ne_nil hp
    rw [resume_sent] at hends
    by_cases hrest : self.pushes.drop PUSH_CHUNK = []
    · rw [batch_last _ (hpushes.trans hrest), recorded_closing] at hends
      obtain ⟨b', v, rfl, hruns'⟩ := hends
      obtain rfl := answered_write hruns' (Or.inl rfl)
      obtain ⟨rfl, hreport⟩ := ends_lastWrite hruns' rfl (hpushes.trans hrest)
      exact .last results hp hrest hreport
    · have hmore : (self.recorded results).pushes ≠ [] := by rwa [hpushes]
      rw [batch_pending _ hmore] at hends
      obtain ⟨b', v, rfl, hruns'⟩ := hends
      obtain rfl := answered_write hruns' (Or.inl rfl)
      refine .chunk results hrest (ih _ v ?_ (ends_nextWrite hruns' rfl hmore))
      dsimp only
      rw [hpushes, List.length_drop]
      simp only [PUSH_CHUNK]
      omega

/-- A run drains its pushes. -/
theorem step_drains {self : ReplicaSync} {t : Transcript} {report : ReplicaSyncReport}
    (h : Ends self.step t (.ok report)) : Drains report self t :=
  drains_of_length _ self t report le_rfl h

/-- Every chunk is recorded before the next goes out. -/
theorem Drains.spec {report : ReplicaSyncReport} {self : ReplicaSync} {t : Transcript}
    (h : Drains report self t) : PushSpec self t := by
  induction h with
  | idle pushes =>
    refine ⟨pushes.symm, ?_⟩
    simp [Transcript.writes, Transcript.pushes, Outbox.recordAll]
  | @last a results pushes drained reported =>
    obtain ⟨-, -, -, hwrites, -⟩ := a.recorded_spec results
    refine ⟨?_, ?_⟩
    · have htake := List.take_append_drop PUSH_CHUNK a.pushes
      rw [drained, List.append_nil] at htake
      simpa [Transcript.pushes] using htake
    · simp [Transcript.writes, Transcript.pushes, Outbox.recordAll, hwrites]
  | @chunk a t results more rest ih =>
    obtain ⟨hcoll, hpushes, -, hwrites, hpend⟩ := a.recorded_spec results
    obtain ⟨hrestPushes, hrestWrites⟩ := ih
    refine ⟨?_, ?_⟩
    · have htake := List.take_append_drop PUSH_CHUNK a.pushes
      dsimp only at hrestPushes
      rw [hpushes] at hrestPushes
      rw [← hrestPushes] at htake
      exact htake
    · have hpendEq : pendingAt { a.recorded results with writes := [] } =
          (a.recorded results).pendingAt := rfl
      have hclosingEq : closing { a.recorded results with writes := [] } =
          (a.recorded results).closing := rfl
      rw [hpendEq, hclosingEq, hpend, a.recorded_closing] at hrestWrites
      dsimp only at hrestWrites
      rw [hcoll] at hrestWrites
      simp only [Transcript.writes, List.flatMap_cons, List.nil_append] at hrestWrites ⊢
      rw [hrestWrites, hwrites]
      simp only [Transcript.pushes, List.filterMap_cons, Outbox.recordAll, List.append_assoc]

end ReplicaSync
end IoReplica

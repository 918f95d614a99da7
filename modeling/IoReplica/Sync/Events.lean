import IoReplica.Sync.Assigned
import IoReplica.Sync.Ledger
import IoReplica.Sync.Relisted

/-! What a run reports: every counter is the number of events of its kind, and each event tells of one
candidate merged or one push accepted. -/
namespace IoReplica

namespace ReplicaEvent

/-- An outcome pulled from the remote. -/
def isPull : ReplicaEvent → Bool
  | .added _ | .flagsChanged _ | .vanished _ => true
  | .contentChanged _ | .conflicted _ | .created _ => false

def isRefresh : ReplicaEvent → Bool
  | .contentChanged _ => true
  | .added _ | .flagsChanged _ | .vanished _ | .conflicted _ | .created _ => false

def isConflict : ReplicaEvent → Bool
  | .conflicted _ => true
  | .added _ | .flagsChanged _ | .contentChanged _ | .vanished _ | .created _ => false

/-- The handle an accepted create was reported under. -/
def created? : ReplicaEvent → Option ReplicaHandle
  | .created handle => some handle
  | .added _ | .flagsChanged _ | .contentChanged _ | .vanished _ | .conflicted _ => none

end ReplicaEvent

/-- A row in sync whose member the remote no longer holds, and that keeps no edit of it. -/
def Candidate.Gone (c : Candidate) : Prop :=
  ∃ p, c.loc = some p ∧ c.remote = none ∧ p.base.isSome ∧ p.status ≠ .tombstone ∧
    ReplicaSync.editedAgainstDelete p = false

namespace ReplicaSync

section Merging
variable {a b d : ReplicaSync} {es fs : List ReplicaEvent} {h : ReplicaHandle}
  {p : ReplicaPlacement} {item : ReplicaRemoteItem}

/-- What merging reports: events, each counted by its kind. -/
structure Counts (a b : ReplicaSync) (es : List ReplicaEvent) : Prop where
  events : b.report.events = a.report.events ++ es
  pulled : b.report.pulled = a.report.pulled + es.countP (·.isPull)
  refreshed : b.report.refreshed = a.report.refreshed + es.countP (·.isRefresh)
  conflicts : b.report.conflicts = a.report.conflicts + es.countP (·.isConflict)
  pushed : b.report.pushed = a.report.pushed

theorem Counts.silent (hr : b.report = a.report) : Counts a b [] := by
  constructor <;> simp [hr]

theorem Counts.trans (hab : Counts a b es) (hbd : Counts b d fs) : Counts a d (es ++ fs) := by
  constructor
  · rw [hbd.events, hab.events, List.append_assoc]
  · rw [hbd.pulled, hab.pulled, List.countP_append, Nat.add_assoc]
  · rw [hbd.refreshed, hab.refreshed, List.countP_append, Nat.add_assoc]
  · rw [hbd.conflicts, hab.conflicts, List.countP_append, Nat.add_assoc]
  · rw [hbd.pushed, hab.pushed]

theorem Counts.pull (hr : b.report = a.report) {e : ReplicaEvent} (he : e.isPull = true) :
    Counts a (b.countPulled.emit e) [e] := by
  have hkinds : e.isRefresh = false ∧ e.isConflict = false := by
    cases e <;> first | exact ⟨rfl, rfl⟩ | cases he
  constructor <;> simp [emit, countPulled, hr, he, hkinds.1, hkinds.2]

theorem Counts.refresh (hr : b.report = a.report) (h : ReplicaHandle) :
    Counts a (b.countRefreshed.emit (.contentChanged h)) [.contentChanged h] := by
  constructor <;> simp [emit, countRefreshed, hr, ReplicaEvent.isPull, ReplicaEvent.isRefresh,
    ReplicaEvent.isConflict]

theorem Counts.conflict (hr : b.report = a.report) (h : ReplicaHandle) :
    Counts a (b.countConflict.emit (.conflicted h)) [.conflicted h] := by
  constructor <;> simp [emit, countConflict, hr, ReplicaEvent.isPull, ReplicaEvent.isRefresh,
    ReplicaEvent.isConflict]

/-- Neither a removal nor a create. -/
def Stays (e : ReplicaEvent) : Prop :=
  ∃ h, e = .contentChanged h ∨ e = .conflicted h ∨ e = .flagsChanged h

theorem reconcileFlags_counts (d : ReplicaSync) (p : ReplicaPlacement) (item : ReplicaRemoteItem)
    (allow : PushFlags) :
    ∃ es, Counts d (d.reconcileFlags p item allow).1 es ∧ ∀ e ∈ es, Stays e := by
  have hone : ∀ e ∈ [ReplicaEvent.flagsChanged p.handle], Stays e := by
    intro e he
    exact ⟨p.handle, Or.inr (Or.inr (List.mem_singleton.mp he))⟩
  have hpull : ∀ q : ReplicaPlacement, Counts d (((d.upsert q).countPulled).emit
      (.flagsChanged p.handle)) [.flagsChanged p.handle] := by
    intro q
    have hr : (d.upsert q).report = d.report := rfl
    exact .pull hr rfl
  cases hb : p.baseFlags with
  | none =>
    simp only [reconcileFlags, hb]
    exact ⟨_, hpull _, hone⟩
  | some flags =>
    simp only [reconcileFlags, hb]
    cases decide (ReplicaFlags.merge flags p.flags item.flags ≠ p.flags) <;>
      cases decide (ReplicaFlags.merge flags p.flags item.flags ≠ item.flags)
    · dsimp only
      split <;> exact ⟨[], .silent rfl, by simp⟩
    · dsimp only
      simp only [Bool.false_eq_true, if_false]
      split <;> exact ⟨[], .silent rfl, by simp⟩
    · exact ⟨_, hpull _, hone⟩
    · dsimp only
      simp only [if_true]
      split
      · exact ⟨_, hpull _, hone⟩
      · let merged : ReplicaPlacement := { p with flags := .merge flags p.flags item.flags }
        exact ⟨_, (hpull merged).trans (.silent (b := stashFlags _ p.handle merged) rfl), hone⟩

theorem pushContent_counts (d : ReplicaSync) (p : ReplicaPlacement) (ifMatch : Option String) :
    Counts d (d.pushContent p ifMatch).1 [] := by
  simp only [pushContent]
  cases p.object <;> exact .silent rfl

theorem reconcileContent_counts (d : ReplicaSync) (p : ReplicaPlacement)
    (item : ReplicaRemoteItem) :
    ∃ es, Counts d (d.reconcileContent p item).1 es ∧ ∀ e ∈ es, Stays e := by
  have hnone : ∀ b : ReplicaSync, Counts d b [] → ∃ es, Counts d b es ∧ ∀ e ∈ es, Stays e :=
    fun b hb => ⟨[], hb, by simp⟩
  have hmark : ∃ es, Counts d (d.markConflict p item).1 es ∧ ∀ e ∈ es, Stays e := by
    have hr : (d.upsert (conflictedPlacement p item)).report = d.report := rfl
    exact ⟨_, .conflict hr p.handle,
      fun e he => ⟨p.handle, Or.inr (Or.inl (List.mem_singleton.mp he))⟩⟩
  have hpull : ∀ b : ReplicaSync, b.report = d.report →
      ∃ es, Counts d (b.pullContent p item).1 es ∧ ∀ e ∈ es, Stays e := by
    intro b hb
    have hr : (b.upsert (refreshedPlacement p item)).report = d.report := hb
    exact ⟨_, .refresh hr p.handle, fun e he => ⟨p.handle, Or.inl (List.mem_singleton.mp he)⟩⟩
  cases hb : p.base with
  | none =>
    simp only [reconcileContent, hb]
    split
    · exact hmark
    · exact hnone d (.silent rfl)
  | some base =>
    simp only [reconcileContent, hb]
    split
    · split <;> exact hnone _ (.silent rfl)
    · cases localChanged p base <;> cases movedFrom item base.revision
      · exact hnone d (.silent rfl)
      · exact hpull d rfl
      · dsimp only
        split
        · exact hnone d (.silent rfl)
        · exact hnone _ (pushContent_counts d p base.revision)
      · dsimp only
        cases hpolicy : d.opts.conflict with
        | manual =>
          simp only [resolveConflict, hpolicy]
          exact hmark
        | preferRemote =>
          simp only [resolveConflict, hpolicy]
          exact hpull d rfl
        | preferLocal =>
          simp only [resolveConflict, hpolicy]
          split
          · exact hmark
          · exact hnone _ (pushContent_counts d p item.revision)
        | keepBoth =>
          simp only [resolveConflict, hpolicy]
          refine hpull (d.stageConflictDup p) ?_
          simp only [stageConflictDup]
          cases p.object <;> rfl

theorem mergePresent_counts (d : ReplicaSync) (p : ReplicaPlacement) (item : ReplicaRemoteItem) :
    ∃ es, Counts d (d.mergePresent p item).1 es ∧ ∀ e ∈ es, Stays e := by
  obtain ⟨es, hes, hstays⟩ := d.reconcileContent_counts p item
  have hjoin : ∀ (b : ReplicaSync) (q : ReplicaPlacement) (allow : PushFlags), Counts d b es →
      ∃ es, Counts d (b.reconcileFlags q item allow).1 es ∧ ∀ e ∈ es, Stays e := by
    intro b q allow hb
    obtain ⟨fs, hfs, hstays'⟩ := b.reconcileFlags_counts q item allow
    refine ⟨es ++ fs, hb.trans hfs, fun e he => ?_⟩
    rcases List.mem_append.mp he with he | he
    · exact hstays e he
    · exact hstays' e he
  simp only [mergePresent]
  cases hc : d.reconcileContent p item with
  | mk b outcome =>
    rw [hc] at hes
    cases outcome <;> exact hjoin b _ _ hes

theorem refuseDelete_counts (d : ReplicaSync) (p : ReplicaPlacement) :
    Counts d (d.refuseDelete p).1 [] := by
  cases hpolicy : d.opts.delete with
  | revert =>
    simp only [refuseDelete, hpolicy]
    exact .silent rfl
  | keep =>
    simp only [refuseDelete, hpolicy]
    exact .silent rfl

theorem pullAdd_counts (d : ReplicaSync) (item : ReplicaRemoteItem) (h : ReplicaHandle) :
    Counts d (((d.pullAdd item).countPulled).emit (.added h)) [.added h] := by
  have hr : (d.pullAdd item).report = d.report := rfl
  exact .pull hr rfl

theorem mergeTombstone_counts (d : ReplicaSync) (h : ReplicaHandle) (p : ReplicaPlacement)
    (item : ReplicaRemoteItem) : ∃ es, Counts d (d.mergeTombstone h p item).1 es ∧
      ∀ e ∈ es, e = .added h := by
  simp only [mergeTombstone]
  split
  · exact ⟨_, pullAdd_counts d item h, fun e he => List.mem_singleton.mp he⟩
  · refine ⟨[], ?_, by simp⟩
    split
    · split
      · exact refuseDelete_counts d p
      · cases p.object <;> exact .silent rfl
    · split
      · exact refuseDelete_counts d p
      · exact .silent rfl

/-- What merging reports of a candidate: no create, and a removal of a member gone alone. -/
structure Tells (c : Candidate) (es : List ReplicaEvent) : Prop where
  uncreated : ∀ h, .created h ∉ es
  vanished : ∀ h, .vanished h ∈ es ↔ h = c.handle ∧ c.Gone

theorem Tells.stays {c : Candidate} (hc : ¬ c.Gone)
    (hes : ∀ e ∈ es, Stays e ∨ e = .added c.handle) : Tells c es := by
  refine ⟨fun h he => ?_, fun h => iff_of_false (fun he => ?_) (fun hg => hc hg.2)⟩
  · rcases hes _ he with ⟨g, hg | hg | hg⟩ | hg <;> cases hg
  · rcases hes _ he with ⟨g, hg | hg | hg⟩ | hg <;> cases hg

theorem merge_counts (d : ReplicaSync) (c : Candidate) :
    ∃ es, Counts d (d.merge c).1 es ∧ Tells c es := by
  obtain ⟨h, loc, remote⟩ := c
  cases loc with
  | none =>
    have hstays : ¬ Candidate.Gone ⟨h, none, remote⟩ := fun ⟨p, hp, _⟩ => (by cases hp)
    cases remote with
    | none => exact ⟨[], .silent rfl, .stays hstays (by simp)⟩
    | some item =>
      exact ⟨_, pullAdd_counts d item h, .stays hstays
        (fun e he => Or.inr (List.mem_singleton.mp he))⟩
  | some p =>
    by_cases hs : p.status = .tombstone
    · have hstays : ¬ Candidate.Gone ⟨h, some p, remote⟩ := by
        rintro ⟨q, hq, -, -, hlive, -⟩
        cases hq
        exact hlive hs
      rw [merge_tombstone _ _ hs]
      cases remote with
      | none => exact ⟨[], .silent rfl, .stays hstays (by simp)⟩
      | some item =>
        dsimp only
        split
        · obtain ⟨es, hes, hadded⟩ := d.mergeTombstone_counts h p item
          exact ⟨es, hes, .stays hstays (fun e he => Or.inr (hadded e he))⟩
        · exact ⟨_, pullAdd_counts d item h, .stays hstays
            (fun e he => Or.inr (List.mem_singleton.mp he))⟩
    · rw [merge_live _ _ hs]
      cases remote with
      | some item =>
        have hstays : ¬ Candidate.Gone ⟨h, some p, some item⟩ := fun ⟨_, _, hr, _⟩ => (by cases hr)
        obtain ⟨es, hes, hkept⟩ := d.mergePresent_counts p item
        exact ⟨es, hes, .stays hstays (fun e he => Or.inl (hkept e he))⟩
      | none =>
        dsimp only
        split
        · rename_i hb
          simp only [mergeVanished]
          cases he : editedAgainstDelete p with
          | true =>
            have hstays : ¬ Candidate.Gone ⟨h, some p, none⟩ := by
              rintro ⟨q, hq, -, -, -, hkept⟩
              cases hq
              rw [he] at hkept
              cases hkept
            simp only [if_true]
            refine ⟨[], ?_, .stays hstays (by simp)⟩
            split <;> exact .silent rfl
          | false =>
            simp only [Bool.false_eq_true, if_false]
            have hr : (d.drop h .deleted).report = d.report := rfl
            refine ⟨_, .pull hr (e := .vanished h) rfl, by simp, fun g => ?_⟩
            simp only [List.mem_singleton, ReplicaEvent.vanished.injEq]
            exact ⟨fun hg => ⟨hg, p, rfl, rfl, hb, hs, he⟩, fun hg => hg.1⟩
        · rename_i hb
          have hstays : ¬ Candidate.Gone ⟨h, some p, none⟩ := by
            rintro ⟨q, hq, -, hbased, -⟩
            cases hq
            exact hb hbased
          simp only [mergeCreate]
          refine ⟨[], ?_, .stays hstays (by simp)⟩
          split <;> exact .silent rfl

/-- Merging candidates reports each of them. -/
theorem mergeAll_counts (cs : List Candidate) (d : ReplicaSync) :
    ∃ es, Counts d (d.mergeAll cs) es ∧ (∀ h, .created h ∉ es) ∧
      ∀ h, .vanished h ∈ es ↔ ∃ c ∈ cs, c.handle = h ∧ c.Gone := by
  induction cs generalizing d with
  | nil => exact ⟨[], .silent rfl, by simp, by simp⟩
  | cons c cs ih =>
    obtain ⟨es, hes, huncreated, hvanished⟩ := d.merge_counts c
    have hcandidate : Counts d (d.mergeCandidate c) es := by
      simp only [mergeCandidate]
      cases hm : d.merge c with
      | mk b change =>
        rw [hm] at hes
        cases change with
        | none => exact hes
        | some kind => exact ⟨hes.events, hes.pulled, hes.refreshed, hes.conflicts, hes.pushed⟩
    obtain ⟨fs, hfs, huncreated', hvanished'⟩ := ih (d.mergeCandidate c)
    refine ⟨es ++ fs, hcandidate.trans hfs, fun h he => ?_, fun h => ?_⟩
    · rcases List.mem_append.mp he with he | he
      · exact huncreated h he
      · exact huncreated' h he
    · rw [List.mem_append, hvanished, hvanished', List.exists_mem_cons_iff, eq_comm]

end Merging

end ReplicaSync

namespace Pending

/-- The events recording an accepted result, in order. -/
def announce (p : Pending) (r : ReplicaPushResult) : List ReplicaEvent :=
  (if p.flags.isSome then [.flagsChanged r.handle] else []) ++
    (if p.content.isSome then [.contentChanged r.handle] else []) ++
    (if p.dropped then [.vanished r.handle] else []) ++
    (if p.created.isSome then [.created (r.assigned.getD r.handle)] else [])

end Pending

namespace ReplicaSync

section Settling
variable {a b d : ReplicaSync} {es fs : List ReplicaEvent}

/-- What recording a part of an accepted result reports: its events, and no count. -/
structure Emits (a b : ReplicaSync) (es : List ReplicaEvent) : Prop where
  events : b.report.events = a.report.events ++ es
  pulled : b.report.pulled = a.report.pulled
  refreshed : b.report.refreshed = a.report.refreshed
  conflicts : b.report.conflicts = a.report.conflicts

theorem Emits.trans (hab : Emits a b es) (hbd : Emits b d fs) : Emits a d (es ++ fs) := by
  refine ⟨?_, hbd.pulled.trans hab.pulled, hbd.refreshed.trans hab.refreshed,
    hbd.conflicts.trans hab.conflicts⟩
  rw [hbd.events, hab.events, List.append_assoc]

theorem Emits.silent (hr : b.report = a.report) : Emits a b [] := by
  constructor <;> simp [hr]

theorem settleFlags_emits (a : ReplicaSync) (h : ReplicaHandle) : Emits a (a.settleFlags h).1
    (if (a.pendingAt h).flags.isSome then [.flagsChanged h] else []) := by
  have hflags : (a.pendingAt h).flags = a.pendingFlagPushes[h]? := rfl
  rw [hflags]
  cases hp : a.pendingFlagPushes[h]? with
  | none =>
    simp only [settleFlags, hp]
    exact .silent rfl
  | some p =>
    simp only [settleFlags, hp]
    exact ⟨rfl, rfl, rfl, rfl⟩

theorem settleContent_emits (a : ReplicaSync) (r : ReplicaPushResult) :
    Emits a (a.settleContent r).1
      (if (a.pendingAt r.handle).content.isSome then [.contentChanged r.handle] else []) := by
  have hcontent : (a.pendingAt r.handle).content = a.pendingContentPushes[r.handle]? := rfl
  rw [hcontent]
  cases hp : a.pendingContentPushes[r.handle]? with
  | none =>
    simp only [settleContent, hp]
    exact .silent rfl
  | some p =>
    simp only [settleContent, hp]
    exact ⟨rfl, rfl, rfl, rfl⟩

theorem settleDrop_emits (a : ReplicaSync) (h : ReplicaHandle) : Emits a (a.settleDrop h).1
    (if (a.pendingAt h).dropped then [.vanished h] else []) := by
  have hdropped : (a.pendingAt h).dropped = true ↔ h ∈ a.pendingDrops :=
    awaitsDrop_iff a.pendingDrops h
  simp only [settleDrop]
  by_cases hd : h ∈ a.pendingDrops
  · rw [if_pos hd, if_pos (hdropped.mpr hd)]
    exact ⟨rfl, rfl, rfl, rfl⟩
  · rw [if_neg hd, if_neg (fun hc => hd (hdropped.mp hc))]
    exact .silent rfl

theorem settleCreate_emits (a : ReplicaSync) (r : ReplicaPushResult) :
    Emits a (a.settleCreate r).1 (if (a.pendingAt r.handle).created.isSome then
      [.created (r.assigned.getD r.handle)] else []) := by
  have hcreated : (a.pendingAt r.handle).created = a.pendingCreates[r.handle]? := rfl
  rw [hcreated]
  cases hp : a.pendingCreates[r.handle]? with
  | none =>
    simp only [settleCreate, hp]
    exact .silent rfl
  | some p =>
    simp only [settleCreate, hp]
    cases r.assigned <;> exact ⟨rfl, rfl, rfl, rfl⟩

/-- A result reports what its handle awaited, if it accepts it. -/
theorem settle_emits (a : ReplicaSync) (r : ReplicaPushResult) : Emits a (a.settle r)
    (if r.outcome = .accepted then (a.pendingAt r.handle).announce r else []) := by
  cases ho : r.outcome with
  | rejected =>
    simp only [settle, ho]
    exact ⟨by simp [countRejected], rfl, rfl, rfl⟩
  | accepted =>
    let b := (a.settleFlags r.handle).1
    let c := (b.settleContent r).1
    let d := (c.settleDrop r.handle).1
    have hf := a.settleFlags_records r.handle
    have hc := b.settleContent_records r
    have hd := c.settleDrop_records r.handle
    have ef := a.settleFlags_emits r.handle
    have ec := b.settleContent_emits r
    have ed := c.settleDrop_emits r.handle
    have en := d.settleCreate_emits r
    rw [hd.pending, hc.pending, hf.pending] at en
    rw [hc.pending, hf.pending] at ed
    rw [hf.pending] at ec
    have hall := ((ef.trans ec).trans ed).trans en
    have hreport : (a.settle r).report =
        { (d.settleCreate r).1.report with pushed := (a.settle r).report.pushed } := by
      simp only [settle, ho]
      rfl
    rw [if_pos rfl]
    constructor
    · rw [hreport]
      exact hall.events
    · rw [hreport]
      exact hall.pulled
    · rw [hreport]
      exact hall.refreshed
    · rw [hreport]
      exact hall.conflicts

end Settling
end ReplicaSync

namespace Outbox
variable (collection : ReplicaCollectionId) {box : Outbox}

/-- The results of a chunk that accept something awaited, each with what its handle awaited. -/
def acknowledgeAll (box : Outbox) : List ReplicaPushResult → List (ReplicaPushResult × Pending)
  | [] => []
  | r :: rs =>
    (if r.outcome = .accepted ∧ (box r.handle).awaits = true then [(r, box r.handle)] else []) ++
      acknowledgeAll (box.settle collection r).1 rs

/-- The results of a push phase that accept something awaited, in order. -/
def acknowledged (box : Outbox) : List PushExchange → List (ReplicaPushResult × Pending)
  | [] => []
  | (changes, results) :: rest =>
    box.acknowledgeAll collection results ++
      acknowledged ((box.settleAll collection results).1.forget (changes.map (·.handle))) rest

theorem settle_box (box : Outbox) (r : ReplicaPushResult) (h : ReplicaHandle) :
    (box.settle collection r).1 h = if r.confirms h then .none else box h := by
  cases ho : r.outcome with
  | rejected => simp [settle, ho, ReplicaPushResult.confirms]
  | accepted =>
    by_cases hr : r.handle = h
    · simp [settle, ho, ReplicaPushResult.confirms, hr]
    · simp [settle, ho, ReplicaPushResult.confirms, hr, Function.update_of_ne (Ne.symm hr)]

theorem settleAll_box (box : Outbox) (rs : List ReplicaPushResult) (h : ReplicaHandle) :
    (box.settleAll collection rs).1 h =
      if (rs.find? (fun r => r.confirms h)).isSome then .none else box h := by
  induction rs generalizing box with
  | nil => rfl
  | cons r rs ih =>
    rw [settleAll, List.find?_cons]
    dsimp only
    rw [ih, settle_box]
    cases r.confirms h <;> simp

variable {collection}

theorem mem_acknowledgeAll {rs : List ReplicaPushResult} {r : ReplicaPushResult} {p : Pending} :
    (r, p) ∈ box.acknowledgeAll collection rs ↔
      rs.find? (fun q => q.confirms r.handle) = some r ∧ p = box r.handle ∧ p.awaits = true := by
  induction rs generalizing box with
  | nil => simp [acknowledgeAll]
  | cons q rs ih =>
    rw [acknowledgeAll, List.mem_append, ih, settle_box, List.find?_cons]
    cases hq : q.confirms r.handle with
    | true =>
      obtain ⟨ho, hh⟩ := of_decide_eq_true hq
      simp only [if_true, Option.some.injEq]
      constructor
      · rintro (hhead | ⟨-, rfl, hawaits⟩)
        · split at hhead
          · rename_i hacc
            cases List.mem_singleton.mp hhead
            exact ⟨rfl, rfl, hacc.2⟩
          · cases hhead
        · cases hawaits
      · rintro ⟨rfl, rfl, hawaits⟩
        exact Or.inl (by rw [if_pos ⟨ho, hawaits⟩]; exact List.mem_singleton_self _)
    | false =>
      simp only [Bool.false_eq_true, if_false]
      refine or_iff_right (fun hhead => ?_)
      split at hhead
      · rename_i hacc
        cases List.mem_singleton.mp hhead
        rw [ReplicaPushResult.confirms, decide_eq_false_iff_not] at hq
        exact hq ⟨hacc.1, rfl⟩
      · cases hhead

/-- A handle that awaits nothing records nothing. -/
theorem record_idle {p : Pending} (hp : p.awaits = false) (r : ReplicaPushResult) :
    p.record collection r = [] := by
  simp only [Pending.awaits, Bool.or_eq_false_iff, Option.isSome_eq_false_iff,
    Option.isNone_iff_eq_none] at hp
  obtain ⟨⟨⟨hflags, hcontent⟩, hdropped⟩, hcreated⟩ := hp
  simp [Pending.record, hflags, hcontent, hdropped, hcreated]

theorem settleAll_acknowledged (box : Outbox) (rs : List ReplicaPushResult) :
    (box.settleAll collection rs).2 =
      (box.acknowledgeAll collection rs).flatMap (fun x => x.2.record collection x.1) := by
  induction rs generalizing box with
  | nil => rfl
  | cons r rs ih =>
    have hcons : (box.settleAll collection (r :: rs)).2 = (box.settle collection r).2 ++
        ((box.settle collection r).1.settleAll collection rs).2 := rfl
    rw [hcons, ih, acknowledgeAll, List.flatMap_append]
    congr 1
    cases ho : r.outcome with
    | rejected => simp [settle, ho]
    | accepted =>
      cases ha : (box r.handle).awaits with
      | true => simp [settle, ho]
      | false => simp [settle, ho, record_idle ha]

/-- What a push phase writes is the record of what it acknowledges. -/
theorem recordAll_acknowledged (box : Outbox) (es : List PushExchange) :
    box.recordAll collection es =
      (box.acknowledged collection es).flatMap (fun x => x.2.record collection x.1) := by
  induction es generalizing box with
  | nil => rfl
  | cons e es ih =>
    obtain ⟨changes, results⟩ := e
    have hcons : box.recordAll collection ((changes, results) :: es) =
        (box.settleAll collection results).2 ++
          ((box.settleAll collection results).1.forget (changes.map (·.handle))).recordAll
            collection es := rfl
    rw [hcons, ih, acknowledged, List.flatMap_append, settleAll_acknowledged]

/-- A handle is acknowledged with its confirmation. -/
theorem mem_acknowledged {es : List PushExchange} {r : ReplicaPushResult} {p : Pending} :
    (r, p) ∈ box.acknowledged collection es ↔
      confirmation r.handle es = some r ∧ p = box r.handle ∧ p.awaits = true := by
  induction es generalizing box with
  | nil => simp [acknowledged, confirmation, awaited]
  | cons e es ih =>
    obtain ⟨changes, results⟩ := e
    have hconf : confirmation r.handle ((changes, results) :: es) =
        (if r.handle ∈ changes.map (fun k => k.handle) then results
          else results ++ awaited r.handle es).find? (fun q => q.confirms r.handle) := rfl
    rw [acknowledged, List.mem_append, ih, mem_acknowledgeAll, forget, settleAll_box, hconf]
    cases hf : results.find? (fun q => q.confirms r.handle) with
    | some q =>
      have hfound : (if r.handle ∈ changes.map (fun k => k.handle) then results
          else results ++ awaited r.handle es).find? (fun q => q.confirms r.handle) = some q := by
        split
        · exact hf
        · rw [List.find?_append, hf]
          rfl
      rw [hfound]
      refine or_iff_left ?_
      rintro ⟨-, rfl, hawaits⟩
      simp only [Option.isSome_some, if_true, ite_self] at hawaits
      cases hawaits
    | none =>
      simp only [reduceCtorEq, false_and, false_or, Option.isSome_none, Bool.false_eq_true, if_false]
      by_cases hin : r.handle ∈ changes.map (fun k => k.handle)
      · rw [if_pos hin, if_pos hin, hf]
        refine iff_of_false ?_ (by simp)
        rintro ⟨-, rfl, hawaits⟩
        cases hawaits
      · rw [if_neg hin, if_neg hin, List.find?_append, hf]
        exact Iff.rfl

theorem acknowledgeAll_nodup (box : Outbox) (rs : List ReplicaPushResult) :
    ((box.acknowledgeAll collection rs).map (fun x => x.1.handle)).Nodup := by
  induction rs generalizing box with
  | nil => exact List.nodup_nil
  | cons r rs ih =>
    rw [acknowledgeAll]
    split
    · rename_i hacc
      rw [List.singleton_append, List.map_cons, List.nodup_cons]
      refine ⟨fun hin => ?_, ih _⟩
      obtain ⟨⟨r', p⟩, hmem, hh⟩ := List.mem_map.mp hin
      obtain ⟨-, rfl, hawaits⟩ := mem_acknowledgeAll.mp hmem
      have hconfirms : r.confirms r'.handle = true := decide_eq_true ⟨hacc.1, hh.symm⟩
      rw [settle_box, if_pos hconfirms] at hawaits
      cases hawaits
    · exact ih _

/-- No handle is acknowledged twice. -/
theorem acknowledged_nodup (box : Outbox) (es : List PushExchange) :
    ((box.acknowledged collection es).map (fun x => x.1.handle)).Nodup := by
  induction es generalizing box with
  | nil => exact List.nodup_nil
  | cons e es ih =>
    obtain ⟨changes, results⟩ := e
    rw [acknowledged, List.map_append, List.nodup_append]
    refine ⟨acknowledgeAll_nodup box results, ih _, ?_⟩
    intro h hhead g htail heq
    subst heq
    obtain ⟨⟨r, p⟩, hmem, rfl⟩ := List.mem_map.mp hhead
    obtain ⟨⟨r', p'⟩, hmem', hh⟩ := List.mem_map.mp htail
    obtain ⟨hfind, -, -⟩ := mem_acknowledgeAll.mp hmem
    obtain ⟨-, rfl, hawaits⟩ := mem_acknowledged.mp hmem'
    dsimp only at hh hfind
    rw [hh, forget, settleAll_box, hfind] at hawaits
    simp only [Option.isSome_some, if_true, ite_self] at hawaits
    cases hawaits

end Outbox

namespace ReplicaSync

/-- A handle that awaits nothing announces nothing. -/
theorem announce_idle {p : Pending} (hp : p.awaits = false) (r : ReplicaPushResult) :
    p.announce r = [] := by
  simp only [Pending.awaits, Bool.or_eq_false_iff] at hp
  obtain ⟨⟨⟨hflags, hcontent⟩, hdropped⟩, hcreated⟩ := hp
  simp [Pending.announce, hflags, hcontent, hdropped, hcreated]

/-- What push results make of a report: an event or more of each one acknowledged, counted once. -/
structure Acknowledges (a : ReplicaSyncReport) (acks : List (ReplicaPushResult × Pending))
    (b : ReplicaSyncReport) : Prop where
  events : b.events = a.events ++ acks.flatMap (fun x => x.2.announce x.1)
  pushed : b.pushed = a.pushed + acks.length
  pulled : b.pulled = a.pulled
  refreshed : b.refreshed = a.refreshed
  conflicts : b.conflicts = a.conflicts

theorem Acknowledges.nothing (a : ReplicaSyncReport) : Acknowledges a [] a := by
  constructor <;> simp

theorem Acknowledges.trans {a b c : ReplicaSyncReport} {xs ys : List (ReplicaPushResult × Pending)}
    (hab : Acknowledges a xs b) (hbc : Acknowledges b ys c) : Acknowledges a (xs ++ ys) c := by
  refine ⟨?_, ?_, hbc.pulled.trans hab.pulled, hbc.refreshed.trans hab.refreshed,
    hbc.conflicts.trans hab.conflicts⟩
  · rw [hbc.events, hab.events, List.flatMap_append, List.append_assoc]
  · rw [hbc.pushed, hab.pushed, List.length_append, Nat.add_assoc]

theorem settleAll_acknowledges (a : ReplicaSync) (rs : List ReplicaPushResult) :
    Acknowledges a.report (Outbox.acknowledgeAll a.collection a.pendingAt rs)
      (rs.foldl settle a).report := by
  induction rs generalizing a with
  | nil => exact .nothing _
  | cons r rs ih =>
    obtain ⟨hkept, -, hpend⟩ := a.settle_spec r
    have hrest := ih (a.settle r)
    rw [hkept.collection, hpend] at hrest
    rw [List.foldl_cons]
    refine Acknowledges.trans ?_ hrest
    obtain ⟨-, hpushed⟩ := a.settle_report r
    obtain ⟨hevents, hpulled, hrefreshed, hconflicts⟩ := a.settle_emits r
    refine ⟨?_, ?_, hpulled, hrefreshed, hconflicts⟩
    · rw [hevents]
      by_cases ho : r.outcome = .accepted
      · cases ha : (a.pendingAt r.handle).awaits with
        | true => simp [ho]
        | false => simp [ho, announce_idle ha]
      · simp [ho]
    · rw [hpushed]
      split <;> rfl

/-- From its pushes on, a run reports what their results acknowledge. -/
theorem Drains.acknowledges {report : ReplicaSyncReport} {self : ReplicaSync} {t : Transcript}
    (h : Drains report self t) : Acknowledges self.report
      (Outbox.acknowledged self.collection self.pendingAt t.pushes) report := by
  have hchunk : ∀ (a : ReplicaSync) results, Acknowledges a.report
      (Outbox.acknowledgeAll a.collection a.pendingAt results) (a.recorded results).report := by
    intro a results
    have hrecorded : (a.recorded results).report = (results.foldl settle a.sent).report :=
      settleChunk_report a.sent results
    rw [hrecorded]
    exact a.sent.settleAll_acknowledges results
  induction h with
  | idle _ reported =>
    rw [← reported]
    exact .nothing _
  | @last a results pushes drained reported =>
    rw [← reported]
    exact (hchunk a results).trans (.nothing _)
  | @chunk a t results more rest ih =>
    obtain ⟨hcoll, -, -, -, hpend⟩ := a.recorded_spec results
    have hpendEq : pendingAt { a.recorded results with writes := [] } =
        (a.recorded results).pendingAt := rfl
    rw [hpendEq, hpend] at ih
    dsimp only at ih
    rw [hcoll] at ih
    exact (hchunk a results).trans ih

/-- However the merge is batched, a run reports every candidate merged, then its pushes. -/
theorem Batches.acknowledges {report : ReplicaSyncReport} {self : ReplicaSync} {m : Merge}
    {t : Transcript} (h : Batches report self m t) (hpaired : ∀ c ∈ m.candidates, c.Paired) :
    Acknowledges (self.mergeAll m.candidates).report
      (Outbox.acknowledged self.collection (self.mergeAll m.candidates).pendingAt t.pushes)
      report := by
  induction h with
  | @close a m t drains =>
    have hdone := drains.acknowledges
    have hcoll : ((a.mergeAll m.candidates).closed m.checkpoint).collection = a.collection :=
      a.mergeAll_collection hpaired
    rw [hcoll] at hdone
    exact hdone
  | @flush a m m' t group cut checkpoint full rest ih =>
    rw [cut] at hpaired
    have hrest := ih (fun c hc => hpaired c (List.mem_append_right _ hc))
    have hcoll : (a.mergeAll group).flushed.collection = a.collection :=
      a.mergeAll_collection (fun c hc => hpaired c (List.mem_append_left _ hc))
    rw [hcoll] at hrest
    rw [cut, a.mergeAll_flushed]
    exact hrest

end ReplicaSync

end IoReplica

import IoReplica.Sync.Protocol

/-! What a run awaits push results with: each merge leaves its change in the map of its kind, and
each result takes one out. -/
namespace IoReplica

/-- The maps a sync run keeps its pending changes in. -/
inductive PendingMap
  | flags | content | drops | creates
  deriving DecidableEq

/-- The map a change awaits its result in. -/
def ReplicaChangeKind.awaitedIn : ReplicaChangeKind → PendingMap
  | .setFlags .. => .flags
  | .update .. => .content
  | .remove .. => .drops
  | .add .. => .creates

namespace Pending

/-- Does the map hold the handle? -/
def holds (p : Pending) : PendingMap → Bool
  | .flags => p.flags.isSome
  | .content => p.content.isSome
  | .drops => p.dropped
  | .creates => p.created.isSome

/-- What a handle awaits is the change derived for it, in the map of its kind alone. -/
def Owes (p : Pending) (change : Option ReplicaChangeKind) : Prop :=
  ∀ m, p.holds m = true ↔ change.map (·.awaitedIn) = some m

/-- Does the handle await anything? -/
def awaits (p : Pending) : Bool :=
  p.flags.isSome || p.content.isSome || p.dropped || p.created.isSome

theorem awaits_iff (p : Pending) : p.awaits = true ↔ ∃ m, p.holds m = true := by
  simp only [awaits, Bool.or_eq_true]
  constructor
  · rintro (((h | h) | h) | h)
    · exact ⟨.flags, h⟩
    · exact ⟨.content, h⟩
    · exact ⟨.drops, h⟩
    · exact ⟨.creates, h⟩
  · rintro ⟨m, h⟩
    cases m with
    | flags => exact Or.inl (Or.inl (Or.inl h))
    | content => exact Or.inl (Or.inl (Or.inr h))
    | drops => exact Or.inl (Or.inr h)
    | creates => exact Or.inr h

theorem Owes.none : Pending.none.Owes .none := by
  intro m
  cases m <;> simp [holds, Pending.none]

end Pending

namespace ReplicaSync

/-- The handle is a key of the map. -/
def Holds (self : ReplicaSync) : PendingMap → ReplicaHandle → Prop
  | .flags, h => h ∈ self.pendingFlagPushes
  | .content, h => h ∈ self.pendingContentPushes
  | .drops, h => h ∈ self.pendingDrops
  | .creates, h => h ∈ self.pendingCreates

theorem holds_iff (self : ReplicaSync) (m : PendingMap) (h : ReplicaHandle) :
    self.Holds m h ↔ (self.pendingAt h).holds m = true := by
  cases m <;> simp [Holds, Pending.holds, pendingAt]

section Merging
variable {d : ReplicaSync} {h : ReplicaHandle} {p : ReplicaPlacement} {item : ReplicaRemoteItem}

/-- Merging one handle: what it awaits then is what was derived for it. -/
def Balanced (h : ReplicaHandle) (out : ReplicaSync × Option ReplicaChangeKind) : Prop :=
  (out.1.pendingAt h).Owes out.2

theorem balanced_silent (hd : d.pendingAt h = .none) : Balanced h (d, none) := by
  rw [Balanced, hd]
  exact .none

theorem balanced_refuseDelete (hd : d.pendingAt h = .none) : Balanced h (d.refuseDelete p) := by
  cases hpolicy : d.opts.delete <;> simp only [refuseDelete, hpolicy] <;> exact balanced_silent hd

theorem balanced_stashContent (hd : d.pendingAt h = .none) (g : ReplicaHandle) (o : ReplicaHash)
    (ifMatch : Option String) :
    Balanced h (d.stashContent h p, some (.update g o ifMatch)) := by
  simp only [pendingAt, Pending.none, Pending.mk.injEq] at hd
  intro m
  cases m <;> simp [Pending.holds, pendingAt, stashContent, ReplicaChangeKind.awaitedIn, hd]

theorem balanced_stashDrop (hd : d.pendingAt h = .none) (dest : Option ReplicaCollectionId)
    (link : Option ReplicaLinkId) (ifMatch : Option String) :
    Balanced h (d.stashDrop h, some (.remove h dest link ifMatch)) := by
  simp only [pendingAt, Pending.none, Pending.mk.injEq] at hd
  intro m
  cases m <;> simp [Pending.holds, pendingAt, stashDrop, ReplicaChangeKind.awaitedIn, hd]

theorem balanced_pushAdd (hd : d.pendingAt h = .none) : Balanced h (d.pushAdd h p) := by
  simp only [pendingAt, Pending.none, Pending.mk.injEq] at hd
  intro m
  cases m <;>
    simp [pushAdd, Pending.holds, pendingAt, stashCreate, ReplicaChangeKind.awaitedIn, hd]

theorem balanced_reconcileFlags (hd : d.pendingAt p.handle = .none) (allow : PushFlags) :
    Balanced p.handle (d.reconcileFlags p item allow) := by
  cases hb : p.base with
  | none =>
    simp only [reconcileFlags, ReplicaPlacement.baseFlags, hb, Option.map_none]
    exact balanced_silent hd
  | some base =>
    obtain ⟨-, hpend, hchange⟩ := d.reconcileFlags_spec hb item allow
    rw [Balanced, hpend, hchange, hd]
    split
    · intro m
      cases m <;> simp [Pending.holds, Pending.none, ReplicaChangeKind.awaitedIn]
    · exact .none

/-- The content axis awaits the body it pushes, and nothing else. -/
def ContentBalanced (h : ReplicaHandle) (out : ReplicaSync × ContentOutcome) : Prop :=
  match out.2 with
  | .push change => Balanced h (out.1, some change)
  | .untouched | .rewritten _ => out.1.pendingAt h = .none

theorem contentBalanced_push (hd : d.pendingAt p.handle = .none) {base : ReplicaBase}
    (hl : localChanged p base = true) (ifMatch : Option String) :
    ContentBalanced p.handle (d.pushContent p ifMatch) := by
  simp only [localChanged, Bool.and_eq_true] at hl
  obtain ⟨o, ho⟩ := Option.isSome_iff_exists.mp hl.1.2
  simp only [pushContent, ho]
  exact balanced_stashContent hd _ _ _

theorem reconcileContent_balanced (hd : d.pendingAt p.handle = .none) :
    ContentBalanced p.handle (d.reconcileContent p item) := by
  have hfork : (d.stageConflictDup p).pendingAt p.handle = .none := by
    cases ho : p.object <;> simp only [stageConflictDup, ho] <;> exact hd
  cases hb : p.base with
  | none =>
    simp only [reconcileContent, hb]
    split
    · exact hd
    · exact hd
  | some base =>
    by_cases hc : p.status = .conflict
    · simp only [reconcileContent, hb, if_pos hc]
      split
      · exact hd
      · exact hd
    · simp only [reconcileContent, hb, if_neg hc]
      cases hl : localChanged p base <;> cases hm : movedFrom item base.revision
      · exact hd
      · exact hd
      · cases hmay : d.opts.mayContent with
        | false => exact hd
        | true => exact contentBalanced_push hd hl base.revision
      · cases hpolicy : d.opts.conflict with
        | manual =>
          simp only [resolveConflict, hpolicy]
          exact hd
        | preferRemote =>
          simp only [resolveConflict, hpolicy]
          exact hd
        | keepBoth =>
          simp only [resolveConflict, hpolicy]
          exact hfork
        | preferLocal =>
          cases hmay : d.opts.mayContent with
          | false =>
            simp only [resolveConflict, hpolicy, hmay, Bool.not_false, if_true]
            exact hd
          | true =>
            simp only [resolveConflict, hpolicy, hmay, Bool.not_true, Bool.false_eq_true, if_false]
            exact contentBalanced_push hd hl item.revision

theorem balanced_mergePresent (hd : d.pendingAt p.handle = .none) :
    Balanced p.handle (d.mergePresent p item) := by
  have howes : ContentBalanced p.handle (d.reconcileContent p item) := reconcileContent_balanced hd
  have hnames := ((Local.refl p.handle p.object d).reconcileContent item rfl).2
  simp only [mergePresent]
  cases hc : d.reconcileContent p item with
  | mk e outcome =>
    rw [hc] at howes hnames
    cases outcome with
    | untouched => exact balanced_reconcileFlags howes .derive
    | rewritten q =>
      have hq : q.handle = p.handle := hnames
      rw [← hq] at howes ⊢
      exact balanced_reconcileFlags howes .derive
    | push change =>
      obtain ⟨-, hbased, -⟩ := d.reconcileContent_push (by rw [hc])
      obtain ⟨base, hb⟩ := Option.isSome_iff_exists.mp hbased
      have hpend := (e.reconcileFlags_spec hb item .withhold).2.1
      have hno : pushesFlags e.opts base p item .withhold = false := by simp [pushesFlags]
      simp only [hno, Bool.false_eq_true, if_false] at hpend
      simp only [Balanced, hpend]
      exact howes

theorem balanced_mergeTombstone (hd : d.pendingAt h = .none) :
    Balanced h (d.mergeTombstone h p item) := by
  simp only [mergeTombstone]
  split
  · exact balanced_silent hd
  · split
    · rename_i hstaged
      split
      · exact balanced_refuseDelete hd
      · cases ho : p.object with
        | none => simp [ReplicaPlacement.stagedEdit, ho] at hstaged
        | some object => exact balanced_stashContent hd _ _ _
    · split
      · exact balanced_refuseDelete hd
      · exact balanced_stashDrop hd _ _ _

/-- Merging a candidate leaves its handle awaiting what was derived for it. -/
theorem merge_balanced (self : ReplicaSync) {c : Candidate} (hc : c.Paired)
    (hidle : self.pendingAt c.handle = .none) : Balanced c.handle (self.merge c) := by
  obtain ⟨h, loc, remote⟩ := c
  obtain ⟨hloc, -⟩ := hc
  cases loc with
  | none =>
    cases remote with
    | none => exact balanced_silent hidle
    | some item => exact balanced_silent hidle
  | some p =>
    have hp : p.handle = h := hloc p rfl
    by_cases hs : p.status = .tombstone
    · rw [merge_tombstone _ _ hs]
      cases remote with
      | none => exact balanced_silent hidle
      | some item =>
        dsimp only
        split
        · exact balanced_mergeTombstone hidle
        · exact balanced_silent hidle
    · rw [merge_live _ _ hs]
      cases remote with
      | some item =>
        subst hp
        exact balanced_mergePresent hidle
      | none =>
        dsimp only
        split
        · simp only [mergeVanished]
          split
          · split
            · exact balanced_silent hidle
            · exact balanced_pushAdd hidle
          · exact balanced_silent hidle
        · simp only [mergeCreate]
          split
          · exact balanced_pushAdd hidle
          · exact balanced_silent hidle

end Merging

section Accounts
variable {a b : ReplicaSync} {ks : List ReplicaChange}

/-- The maps hold the handles of these changes, each in the map of its kind, and no other. -/
def Balances (a : ReplicaSync) (ks : List ReplicaChange) : Prop :=
  ∀ m h, (a.pendingAt h).holds m = true ↔ ∃ k ∈ ks, k.handle = h ∧ k.kind.awaitedIn = m

theorem Balances.congr (ha : Balances a ks) (hp : b.pendingAt = a.pendingAt) : Balances b ks := by
  intro m h
  rw [hp]
  exact ha m h

theorem Balances.nil (ha : ∀ h, a.pendingAt h = .none) : Balances a [] := by
  intro m h
  rw [ha h]
  simpa using (Pending.Owes.none m).not

/-- A handle of none of the changes awaits nothing. -/
theorem Balances.idle (ha : Balances a ks) {h : ReplicaHandle}
    (hh : h ∉ ks.map (fun k => k.handle)) : a.pendingAt h = .none := by
  have hno : ∀ m, (a.pendingAt h).holds m = false := by
    intro m
    rw [Bool.eq_false_iff, ne_eq, ha m h]
    rintro ⟨k, hk, rfl, -⟩
    exact hh (List.mem_map_of_mem hk)
  have hflags := hno .flags
  have hcontent := hno .content
  have hdrops := hno .drops
  have hcreates := hno .creates
  simp only [Pending.holds, Option.isSome_eq_false_iff, Option.isNone_iff_eq_none] at *
  have hp : a.pendingAt h = ⟨(a.pendingAt h).flags, (a.pendingAt h).content,
      (a.pendingAt h).dropped, (a.pendingAt h).created⟩ := rfl
  rw [hp, hflags, hcontent, hdrops, hcreates]
  rfl

/-- A change of the list is awaited. -/
theorem Balances.awaited (ha : Balances a ks) {k : ReplicaChange} (hk : k ∈ ks) :
    a.pendingAt k.handle ≠ .none := by
  intro hnone
  have hholds := (ha k.kind.awaitedIn k.handle).mpr ⟨k, hk, rfl, rfl⟩
  rw [hnone] at hholds
  exact absurd ((Pending.Owes.none k.kind.awaitedIn).mp hholds) (by simp)

/-- Merging a handle nothing is awaited for adds its change to the accounts. -/
theorem Balances.merge (ha : Balances a a.pushes) {c : Candidate} (hc : c.Paired)
    (hidle : c.handle ∉ a.pushes.map (fun k => k.handle)) :
    Balances (a.mergeCandidate c) (a.mergeCandidate c).pushes ∧
      ∃ ks, (a.mergeCandidate c).pushes = a.pushes ++ ks ∧ (ks.map (fun k => k.handle)).Nodup ∧
        ∀ k ∈ ks, k.handle = c.handle := by
  have howes := a.merge_balanced hc (ha.idle hidle)
  obtain ⟨hlocal, hnames⟩ := a.merge_local hc
  have hothers := hlocal.others
  have hpushes := hlocal.pushes
  simp only [mergeCandidate]
  cases hm : a.merge c with
  | mk d change =>
    rw [hm] at howes hothers hpushes hnames
    have hold : ∀ h, h ≠ c.handle → ∀ m, (d.pendingAt h).holds m = true ↔
        ∃ k ∈ a.pushes, k.handle = h ∧ k.kind.awaitedIn = m := by
      intro h hh m
      rw [hothers h hh]
      exact ha m h
    have hfresh : ∀ k ∈ a.pushes, k.handle ≠ c.handle :=
      fun k hk he => hidle (he ▸ List.mem_map_of_mem hk)
    cases change with
    | none =>
      refine ⟨?_, [], by rw [List.append_nil]; exact hpushes, List.nodup_nil, by simp⟩
      intro m h
      dsimp only at hpushes ⊢
      rw [hpushes]
      by_cases hh : h = c.handle
      · subst hh
        refine iff_of_false ?_ ?_
        · rw [howes m]
          simp
        · rintro ⟨k, hk, he, -⟩
          exact hfresh k hk he
      · exact hold h hh m
    | some kind =>
      have hkind : (ReplicaChange.new d.collection kind).handle = c.handle := by
        rw [ReplicaChange.new_handle]
        exact hnames kind rfl
      refine ⟨?_, [ReplicaChange.new d.collection kind], congrArg (· ++ _) hpushes,
        List.nodup_singleton _, fun k hk => by rw [List.mem_singleton.mp hk, hkind]⟩
      intro m h
      dsimp only at hpushes ⊢
      rw [hpushes]
      by_cases hh : h = c.handle
      · subst hh
        refine (howes m).trans ⟨fun he => ?_, ?_⟩
        · exact ⟨_, List.mem_append_right _ List.mem_cons_self, hkind,
            by rw [ReplicaChange.new_kind]; exact Option.some.inj he⟩
        · rintro ⟨k, hk, he, hm⟩
          rcases List.mem_append.mp hk with hk | hk
          · exact absurd he (hfresh k hk)
          · rw [List.mem_singleton.mp hk, ReplicaChange.new_kind] at hm
            exact congrArg some hm
      · refine (hold h hh m).trans ⟨?_, ?_⟩
        · rintro ⟨k, hk, he⟩
          exact ⟨k, List.mem_append_left _ hk, he⟩
        · rintro ⟨k, hk, he, hm⟩
          rcases List.mem_append.mp hk with hk | hk
          · exact ⟨k, hk, he, hm⟩
          · rw [List.mem_singleton.mp hk, hkind] at he
            exact absurd he.symm hh

/-- A serviced chunk whose results accept no queued change leaves the queued ones accounted for. -/
theorem Balances.serviced {flying queued : List ReplicaChange}
    (ha : Balances a (flying ++ queued))
    (hnodup : ((flying ++ queued).map (fun k => k.handle)).Nodup)
    {results : List ReplicaPushResult}
    (hspare : ∀ r ∈ results, r.outcome = .accepted → r.handle ∉ queued.map (fun k => k.handle))
    (hb : b.pendingAt = Outbox.forget (Outbox.settleAll a.collection a.pendingAt results).1
      (flying.map (fun k => k.handle))) : Balances b queued := by
  rw [List.map_append, List.nodup_append] at hnodup
  obtain ⟨-, -, hapart⟩ := hnodup
  intro m h
  rw [hb, Outbox.forget]
  by_cases hf : h ∈ flying.map (fun k => k.handle)
  · rw [if_pos hf, Pending.Owes.none m]
    refine iff_of_false (by simp) ?_
    rintro ⟨k, hk, rfl, -⟩
    exact hapart k.handle hf k.handle (List.mem_map_of_mem hk) rfl
  · rw [if_neg hf]
    by_cases hq : h ∈ queued.map (fun k => k.handle)
    · have hkept := Outbox.settleAll_unaccepted a.collection a.pendingAt results (h := h)
        (fun r hr ho he => hspare r hr ho (he ▸ hq))
      rw [hkept, ha m h]
      constructor
      · rintro ⟨k, hk, he, hm⟩
        rcases List.mem_append.mp hk with hk | hk
        · exact absurd (he ▸ List.mem_map_of_mem hk) hf
        · exact ⟨k, hk, he, hm⟩
      · rintro ⟨k, hk, he⟩
        exact ⟨k, List.mem_append_right _ hk, he⟩
    · have hidle : a.pendingAt h = .none := by
        refine ha.idle ?_
        rw [List.map_append, List.mem_append]
        exact fun he => he.elim hf hq
      have hnone : (Outbox.settleAll a.collection a.pendingAt results).1 h = .none := by
        rcases (Outbox.settleAll_mem a.collection a.pendingAt results).1 h with hl | hl
        · rw [hl, hidle]
        · exact hl
      rw [hnone, Pending.Owes.none m]
      refine iff_of_false (by simp) ?_
      rintro ⟨k, hk, rfl, -⟩
      exact hq (List.mem_map_of_mem hk)

end Accounts

section Counts

theorem reconcileFlags_pushed (d : ReplicaSync) (p : ReplicaPlacement) (item : ReplicaRemoteItem)
    (allow : PushFlags) : (d.reconcileFlags p item allow).1.report.pushed = d.report.pushed := by
  cases hb : p.baseFlags with
  | none =>
    simp only [reconcileFlags, hb]
    rfl
  | some flags =>
    simp only [reconcileFlags, hb]
    cases decide (ReplicaFlags.merge flags p.flags item.flags ≠ p.flags) <;>
      cases decide (ReplicaFlags.merge flags p.flags item.flags ≠ item.flags)
    · dsimp only
      split <;> rfl
    · dsimp only
      simp only [Bool.false_eq_true, if_false]
      split <;> rfl
    · rfl
    · dsimp only
      simp only [if_true]
      split <;> rfl

theorem pushContent_pushed (d : ReplicaSync) (p : ReplicaPlacement) (ifMatch : Option String) :
    (d.pushContent p ifMatch).1.report.pushed = d.report.pushed := by
  simp only [pushContent]
  cases p.object <;> rfl

theorem stageConflictDup_pushed (d : ReplicaSync) (p : ReplicaPlacement) :
    (d.stageConflictDup p).report.pushed = d.report.pushed := by
  simp only [stageConflictDup]
  cases p.object <;> rfl

theorem resolveConflict_pushed (d : ReplicaSync) (p : ReplicaPlacement)
    (item : ReplicaRemoteItem) :
    (d.resolveConflict p item).1.report.pushed = d.report.pushed := by
  cases hpolicy : d.opts.conflict with
  | manual =>
    simp only [resolveConflict, hpolicy]
    rfl
  | preferRemote =>
    simp only [resolveConflict, hpolicy]
    rfl
  | preferLocal =>
    simp only [resolveConflict, hpolicy]
    split
    · rfl
    · exact pushContent_pushed d p item.revision
  | keepBoth =>
    simp only [resolveConflict, hpolicy]
    exact stageConflictDup_pushed d p

theorem reconcileContent_pushed (d : ReplicaSync) (p : ReplicaPlacement)
    (item : ReplicaRemoteItem) :
    (d.reconcileContent p item).1.report.pushed = d.report.pushed := by
  cases hb : p.base with
  | none =>
    simp only [reconcileContent, hb]
    split <;> rfl
  | some base =>
    simp only [reconcileContent, hb]
    split
    · split <;> rfl
    · cases localChanged p base <;> cases movedFrom item base.revision
      · rfl
      · rfl
      · dsimp only
        split
        · rfl
        · exact pushContent_pushed d p base.revision
      · exact resolveConflict_pushed d p item

theorem refuseDelete_pushed (d : ReplicaSync) (p : ReplicaPlacement) :
    (d.refuseDelete p).1.report.pushed = d.report.pushed := by
  cases hpolicy : d.opts.delete with
  | revert =>
    simp only [refuseDelete, hpolicy]
    rfl
  | keep => simp only [refuseDelete, hpolicy]

theorem mergeTombstone_pushed (d : ReplicaSync) (h : ReplicaHandle) (p : ReplicaPlacement)
    (item : ReplicaRemoteItem) :
    (d.mergeTombstone h p item).1.report.pushed = d.report.pushed := by
  simp only [mergeTombstone]
  split
  · rfl
  · split
    · split
      · exact refuseDelete_pushed d p
      · cases p.object <;> rfl
    · split
      · exact refuseDelete_pushed d p
      · rfl

/-- Merging counts no push. -/
theorem merge_pushed (d : ReplicaSync) (c : Candidate) :
    (d.merge c).1.report.pushed = d.report.pushed := by
  obtain ⟨h, loc, remote⟩ := c
  cases loc with
  | none => cases remote <;> rfl
  | some p =>
    by_cases hs : p.status = .tombstone
    · rw [merge_tombstone _ _ hs]
      cases remote with
      | none => rfl
      | some item =>
        dsimp only
        split
        · exact mergeTombstone_pushed d h p item
        · rfl
    · rw [merge_live _ _ hs]
      cases remote with
      | some item =>
        have hcontent := reconcileContent_pushed d p item
        simp only [mergePresent]
        cases hc : d.reconcileContent p item with
        | mk e outcome =>
          rw [hc] at hcontent
          cases outcome <;> exact (reconcileFlags_pushed e _ item _).trans hcontent
      | none =>
        dsimp only
        split
        · simp only [mergeVanished]
          split
          · split <;> rfl
          · rfl
        · simp only [mergeCreate]
          split <;> rfl

theorem mergeCandidate_pushed (d : ReplicaSync) (c : Candidate) :
    (d.mergeCandidate c).report.pushed = d.report.pushed := by
  have hmerge := d.merge_pushed c
  simp only [mergeCandidate]
  cases hm : d.merge c with
  | mk e change =>
    rw [hm] at hmerge
    cases change <;> exact hmerge

end Counts

section Replies
variable {a : ReplicaSync}

/-- An accepted result of a handle nothing is awaited for is counted and recorded nowhere. -/
theorem settle_idle {r : ReplicaPushResult} (ho : r.outcome = .accepted)
    (hidle : a.pendingAt r.handle = .none) : a.settle r = a := by
  simp only [pendingAt, Pending.none, Pending.mk.injEq] at hidle
  obtain ⟨hflags, hcontent, hdrop, hcreate⟩ := hidle
  have hdrop' : r.handle ∉ a.pendingDrops := by simpa [awaitsDrop] using hdrop
  simp [settle, ho, settleFlags, hflags, settleContent, hcontent, settleDrop, hdrop', settleCreate,
    hcreate, countPushed]

/-- A part of an accepted result counts nothing itself, and says whether it matched. -/
structure Matches (a : ReplicaSync) (out : ReplicaSync × Bool) (matched : Bool) : Prop where
  pushed : out.1.report.pushed = a.report.pushed
  rejected : out.1.report.rejected = a.report.rejected
  matched : out.2 = matched

theorem settleFlags_matches (a : ReplicaSync) (h : ReplicaHandle) :
    Matches a (a.settleFlags h) (a.pendingAt h).flags.isSome := by
  simp only [settleFlags, pendingAt]
  cases a.pendingFlagPushes[h]? <;> exact ⟨rfl, rfl, rfl⟩

theorem settleContent_matches (a : ReplicaSync) (r : ReplicaPushResult) :
    Matches a (a.settleContent r) (a.pendingAt r.handle).content.isSome := by
  simp only [settleContent, pendingAt]
  cases a.pendingContentPushes[r.handle]? <;> exact ⟨rfl, rfl, rfl⟩

theorem settleDrop_matches (a : ReplicaSync) (h : ReplicaHandle) :
    Matches a (a.settleDrop h) (a.pendingAt h).dropped := by
  simp only [settleDrop, pendingAt]
  by_cases hd : h ∈ a.pendingDrops
  · rw [if_pos hd]
    exact ⟨rfl, rfl, ((awaitsDrop_iff a.pendingDrops h).mpr hd).symm⟩
  · rw [if_neg hd]
    exact ⟨rfl, rfl, (Bool.eq_false_iff.mpr (mt (awaitsDrop_iff a.pendingDrops h).mp hd)).symm⟩

theorem settleCreate_matches (a : ReplicaSync) (r : ReplicaPushResult) :
    Matches a (a.settleCreate r) (a.pendingAt r.handle).created.isSome := by
  simp only [settleCreate, pendingAt]
  cases a.pendingCreates[r.handle]? with
  | none => exact ⟨rfl, rfl, rfl⟩
  | some p => cases r.assigned <;> exact ⟨rfl, rfl, rfl⟩

/-- A result counts the change it accepts, if one awaits it, or its rejection. -/
theorem settle_report (a : ReplicaSync) (r : ReplicaPushResult) :
    (a.settle r).report.rejected =
        a.report.rejected + (if r.outcome = .rejected then 1 else 0) ∧
      (a.settle r).report.pushed = a.report.pushed +
        (if r.outcome = .accepted ∧ (a.pendingAt r.handle).awaits = true then 1 else 0) := by
  cases ho : r.outcome with
  | rejected => simp [settle, ho, countRejected]
  | accepted =>
    let b := (a.settleFlags r.handle).1
    let c := (b.settleContent r).1
    let d := (c.settleDrop r.handle).1
    have hf := a.settleFlags_records r.handle
    have hc := b.settleContent_records r
    have hd := c.settleDrop_records r.handle
    have mf := a.settleFlags_matches r.handle
    have mc := b.settleContent_matches r
    have md := c.settleDrop_matches r.handle
    have mn := d.settleCreate_matches r
    rw [hd.pending, hc.pending, hf.pending] at mn
    rw [hc.pending, hf.pending] at md
    rw [hf.pending] at mc
    have hout : a.settle r = (d.settleCreate r).1.countPushed
        (if (a.settleFlags r.handle).2 || (b.settleContent r).2 || (c.settleDrop r.handle).2 ||
          (d.settleCreate r).2 then 1 else 0) := by
      simp only [settle, ho]
      rfl
    rw [hout, mf.matched, mc.matched, md.matched, mn.matched]
    have hpushed : (d.settleCreate r).1.report.pushed = a.report.pushed :=
      mn.pushed.trans (md.pushed.trans (mc.pushed.trans mf.pushed))
    have hrejected : (d.settleCreate r).1.report.rejected = a.report.rejected :=
      mn.rejected.trans (md.rejected.trans (mc.rejected.trans mf.rejected))
    refine ⟨?_, ?_⟩
    · simpa [countPushed] using hrejected
    · simp only [countPushed, hpushed, Pending.awaits, true_and]

theorem settleAll_rejected (a : ReplicaSync) (results : List ReplicaPushResult) :
    (results.foldl settle a).report.rejected =
      a.report.rejected + results.countP (fun r => decide (r.outcome = .rejected)) := by
  induction results generalizing a with
  | nil => rfl
  | cons r results ih =>
    rw [List.foldl_cons, ih, (a.settle_report r).1, List.countP_cons]
    simp only [decide_eq_true_eq]
    omega

/-- Results of handles nothing is awaited for are as good as not reported, but for rejections. -/
theorem settleAll_filter (a : ReplicaSync) (named : ReplicaPushResult → Bool)
    (results : List ReplicaPushResult) (hidle : ∀ r ∈ results, named r = false →
      r.outcome = .accepted ∧ a.pendingAt r.handle = .none) :
    results.foldl settle a = (results.filter named).foldl settle a := by
  induction results generalizing a with
  | nil => rfl
  | cons r results ih =>
    have hrest := hidle r List.mem_cons_self
    cases hn : named r with
    | false =>
      obtain ⟨ho, hnone⟩ := hrest hn
      rw [List.filter_cons_of_neg (by simp [hn]), List.foldl_cons, settle_idle ho hnone]
      exact ih a (fun x hx => hidle x (List.mem_cons_of_mem _ hx))
    | true =>
      rw [List.filter_cons_of_pos hn, List.foldl_cons, List.foldl_cons]
      refine ih (a.settle r) (fun x hx hx' => ?_)
      obtain ⟨ho, hnone⟩ := hidle x (List.mem_cons_of_mem _ hx) hx'
      refine ⟨ho, ?_⟩
      have hrecords := a.settle_records r
      by_cases hxr : x.handle = r.handle
      · rw [hxr, hrecords.pending]
        cases r.outcome with
        | accepted => rfl
        | rejected => rw [← hxr, hnone]
      · rw [hrecords.others x.handle hxr, hnone]

/-- Settling a handle takes it off the accounts. -/
theorem Balances.settle {ks : List ReplicaChange} (ha : Balances a ks) (r : ReplicaPushResult) :
    Balances (a.settle r) (if r.outcome = .accepted then
      ks.filter (fun k => !decide (k.handle = r.handle)) else ks) := by
  have hrecords := a.settle_records r
  cases ho : r.outcome with
  | rejected =>
    refine ha.congr (funext fun h => ?_)
    by_cases hh : h = r.handle
    · rw [hh, hrecords.pending, ho]
    · exact hrecords.others h hh
  | accepted =>
    intro m h
    by_cases hh : h = r.handle
    · rw [hh, hrecords.pending, ho, Pending.Owes.none m]
      refine iff_of_false (by simp) ?_
      rintro ⟨k, hk, hkh, -⟩
      rw [if_pos rfl, List.mem_filter] at hk
      simp [hkh] at hk
    · rw [hrecords.others h hh, ha m h]
      constructor
      · rintro ⟨k, hk, rfl, hm⟩
        exact ⟨k, List.mem_filter.mpr ⟨hk, by simpa using hh⟩, rfl, hm⟩
      · rintro ⟨k, hk, hkh⟩
        exact ⟨k, (List.mem_filter.mp hk).1, hkh⟩

/-- Every change awaited is counted when a result of the reply accepts it, once. -/
theorem settleAll_pushed (results : List ReplicaPushResult) (a : ReplicaSync)
    {ks : List ReplicaChange} (ha : Balances a ks) (hnodup : (ks.map (fun k => k.handle)).Nodup) :
    (results.foldl settle a).report.pushed =
      a.report.pushed + ks.countP (fun k => results.any (fun r => r.confirms k.handle)) := by
  induction results generalizing a ks with
  | nil => simp
  | cons r results ih =>
    have hnext := ha.settle r
    rw [List.foldl_cons]
    cases ho : r.outcome with
    | rejected =>
      have hconfirms : ∀ k : ReplicaChange, r.confirms k.handle = false := by
        intro k
        simp [ReplicaPushResult.confirms, ho]
      rw [ho, if_neg (by decide)] at hnext
      rw [ih (a.settle r) hnext hnodup, (a.settle_report r).2]
      simp [ho, hconfirms]
    | accepted =>
      rw [ho, if_pos rfl] at hnext
      have hsub : ((ks.filter (fun k => !decide (k.handle = r.handle))).map
          (fun k => k.handle)).Nodup := hnodup.sublist (List.filter_sublist.map _)
      have hawaits : (a.pendingAt r.handle).awaits = true ↔
          r.handle ∈ ks.map (fun k => k.handle) := by
        rw [Pending.awaits_iff, List.mem_map]
        constructor
        · rintro ⟨m, hm⟩
          obtain ⟨k, hk, hkh, -⟩ := (ha m r.handle).mp hm
          exact ⟨k, hk, hkh⟩
        · rintro ⟨k, hk, hkh⟩
          exact ⟨_, (ha k.kind.awaitedIn r.handle).mpr ⟨k, hk, hkh, rfl⟩⟩
      have hself : ∀ k : ReplicaChange, r.confirms k.handle = decide (k.handle = r.handle) := by
        intro k
        simp [ReplicaPushResult.confirms, ho, eq_comm]
      have hhere : ks.countP (fun k => decide (k.handle = r.handle)) =
          if r.handle ∈ ks.map (fun k => k.handle) then 1 else 0 := by
        rw [← hnodup.count, List.count, List.countP_map]
        exact List.countP_congr (fun k _ => by simp)
      have hsplit := ks.countP_eq_countP_filter_add
        (fun k => (r :: results).any (fun r => r.confirms k.handle))
        (fun k => decide (k.handle = r.handle))
      have hnamed : (ks.filter (fun k => decide (k.handle = r.handle))).countP
          (fun k => (r :: results).any (fun r => r.confirms k.handle)) =
            ks.countP (fun k => decide (k.handle = r.handle)) := by
        rw [List.countP_filter]
        refine List.countP_congr (fun k _ => ?_)
        simp only [List.any_cons, hself, Bool.and_eq_true, Bool.or_eq_true, decide_eq_true_eq]
        exact ⟨fun h => h.2, fun h => ⟨Or.inl h, h⟩⟩
      have hothers : (ks.filter (fun k => !decide (k.handle = r.handle))).countP
          (fun k => (r :: results).any (fun r => r.confirms k.handle)) =
            (ks.filter (fun k => !decide (k.handle = r.handle))).countP
              (fun k => results.any (fun r => r.confirms k.handle)) := by
        refine List.countP_congr (fun k hk => ?_)
        have hne : k.handle ≠ r.handle := by simpa using (List.mem_filter.mp hk).2
        simp [hself, hne]
      rw [ih (a.settle r) hnext hsub, (a.settle_report r).2, hsplit, hnamed, hothers, hhere]
      simp only [ho, hawaits, true_and]
      omega

end Replies

end ReplicaSync
end IoReplica

import IoReplica.Sync.Balance
import IoReplica.Sync.Derived
import IoReplica.Sync.Survives

/-! The rows with a base are the members both sides know: which a run bases, which it unbases, and
what of the remote it goes by. -/
namespace IoReplica

/-- No character of the identity is the separator a keep-both fork is named with. -/
def ReplicaId.Plain {kind : IdKind} (id : ReplicaId kind) : Prop := '\x01' ∉ id.asStr.toList

/-- The row a write leaves under the handle it writes. -/
def ReplicaWriteOp.leaves : ReplicaWriteOp → Option ReplicaPlacement
  | .upsertPlacement p => some p
  | .dropPlacement .. | .storeObject .. | .setCheckpoint .. => none

/-- A row stands, and has a base. -/
def Based (row : Option ReplicaPlacement) : Prop := ∃ p, row = some p ∧ p.base.isSome

theorem not_based_none : ¬ Based none := by
  rintro ⟨p, hp, -⟩
  cases hp

theorem based_some (p : ReplicaPlacement) : Based (some p) ↔ p.base.isSome := by
  constructor
  · rintro ⟨q, hq, hb⟩
    cases hq
    exact hb
  · exact fun hb => ⟨p, rfl, hb⟩

/-- A row is what stood, or what the last of the writes to it leaves. -/
theorem rowAfter_cases (h : ReplicaHandle) (init : Option ReplicaPlacement)
    (ops : List ReplicaWriteOp) :
    (∀ op ∈ ops, op.row ≠ some h) ∧ rowAfter h init ops = init ∨
      ∃ pre op post, ops = pre ++ op :: post ∧ op.row = some h ∧
        (∀ o ∈ post, o.row ≠ some h) ∧ rowAfter h init ops = op.leaves := by
  induction ops using List.reverseRecOn with
  | nil => exact Or.inl ⟨fun op hop => (by cases hop), rfl⟩
  | append_singleton ops op ih =>
    by_cases hop : op.row = some h
    · refine Or.inr ⟨ops, op, [], rfl, hop, fun o ho => (by cases ho), ?_⟩
      rw [rowAfter_append]
      cases op with
      | upsertPlacement p => exact if_pos (Option.some.inj hop)
      | dropPlacement c g r => exact if_pos (Option.some.inj hop)
      | storeObject | setCheckpoint => cases hop
    · have hlast : rowAfter h (rowAfter h init ops) [op] = rowAfter h init ops :=
        rowAfter_of_ne _ (List.forall_mem_singleton.mpr hop)
      rw [rowAfter_append, hlast]
      rcases ih with ⟨hnone, hinit⟩ | ⟨pre, o, post, rfl, ho, hpost, hrow⟩
      · refine Or.inl ⟨fun o ho => ?_, hinit⟩
        rcases List.mem_append.mp ho with ho | ho
        · exact hnone o ho
        · exact List.mem_singleton.mp ho ▸ hop
      · refine Or.inr ⟨pre, o, post ++ [op], by simp, ho, fun x hx => ?_, hrow⟩
        rcases List.mem_append.mp hx with hx | hx
        · exact hpost x hx
        · exact List.mem_singleton.mp hx ▸ hop

namespace ReplicaSync

/-- What the content axis hands on of a row. -/
inductive ContentRow (p : ReplicaPlacement) (item : ReplicaRemoteItem) : ReplicaPlacement → Prop
  | untouched : ContentRow p item p
  | conflicted : ContentRow p item (conflictedPlacement p item)
  | reopened (conflict : p.status = .conflict) (based : p.base.isSome) :
      ContentRow p item { p with conflictRevision := item.revision, conflictObject := none }
  | refreshed (based : p.base.isSome) : ContentRow p item (refreshedPlacement p item)

/-- What merging a row against an item may store. -/
inductive MergedRow (collection : ReplicaCollectionId) (p : ReplicaPlacement)
    (item : ReplicaRemoteItem) : ReplicaPlacement → Prop
  | content {q : ReplicaPlacement} (handed : ContentRow p item q) : MergedRow collection p item q
  | forked (object : ReplicaHash) :
      MergedRow collection p item (forkedPlacement collection p object)
  | flagged {q : ReplicaPlacement} (handed : ContentRow p item q) (based : q.base.isSome)
      (flags : ReplicaFlags) : MergedRow collection p item { q with flags := flags }
  | settled {q : ReplicaPlacement} (handed : ContentRow p item q) (flags : ReplicaFlags) :
      MergedRow collection p item (settledRow q flags)
  | reverted (deleted : p.status = .tombstone) (based : p.base.isSome) :
      MergedRow collection p item { p with status := .clean }
  | pulled : MergedRow collection p item (pulledPlacement collection item)

/-- Every write queued in between stores such a row. -/
def MergesRows (p : ReplicaPlacement) (item : ReplicaRemoteItem) (a b : ReplicaSync) : Prop :=
  ∀ op ∈ b.writes, op ∈ a.writes ∨
    ∃ q, op = .upsertPlacement q ∧ MergedRow a.collection p item q

variable {h : ReplicaHandle} {a b c self : ReplicaSync} {p : ReplicaPlacement}
  {item : ReplicaRemoteItem}

theorem MergesRows.refl (p : ReplicaPlacement) (item : ReplicaRemoteItem) (a : ReplicaSync) :
    MergesRows p item a a := fun _ hop => Or.inl hop

theorem MergesRows.upsert (hab : MergesRows p item a b) {q : ReplicaPlacement}
    (hq : MergedRow a.collection p item q) : MergesRows p item a (b.upsert q) := by
  intro op hop
  rcases List.mem_append.mp hop with hop | hop
  · exact hab op hop
  · exact Or.inr ⟨q, List.mem_singleton.mp hop, hq⟩

theorem MergesRows.congr (hab : MergesRows p item a b) (hw : c.writes = b.writes) :
    MergesRows p item a c := by
  intro op hop
  exact hab op (hw ▸ hop)

/-- The content axis stores rows it may hand on, and hands one on. -/
structure ContentRows (p : ReplicaPlacement) (item : ReplicaRemoteItem) (a : ReplicaSync)
    (out : ReplicaSync × ContentOutcome) : Prop where
  rows : MergesRows p item a out.1
  handed : ∀ q, out.2 = .rewritten q → ContentRow p item q

theorem contentRows_untouched (self : ReplicaSync) (p : ReplicaPlacement)
    (item : ReplicaRemoteItem) : ContentRows p item self (self, .untouched) :=
  ⟨.refl p item self, fun q hq => by cases hq⟩

theorem contentRows_rewritten {q : ReplicaPlacement} (hab : MergesRows p item a b)
    (hq : ContentRow p item q) (hc : c.writes = (b.upsert q).writes) :
    ContentRows p item a (c, .rewritten q) := by
  refine ⟨(hab.upsert (.content hq)).congr hc, fun r hr => ?_⟩
  cases hr
  exact hq

theorem contentRows_push (self : ReplicaSync) (p : ReplicaPlacement) (item : ReplicaRemoteItem)
    (ifMatch : Option String) : ContentRows p item self (self.pushContent p ifMatch) := by
  have hrefl := MergesRows.refl p item self
  cases ho : p.object with
  | none =>
    simp only [pushContent, ho]
    exact ⟨hrefl.congr rfl, fun q hq => by cases hq⟩
  | some o =>
    simp only [pushContent, ho]
    exact ⟨hrefl.congr rfl, fun q hq => by cases hq⟩

theorem resolveConflict_rows (self : ReplicaSync) (hb : p.base.isSome) (item : ReplicaRemoteItem) :
    ContentRows p item self (self.resolveConflict p item) := by
  have hrefl := MergesRows.refl p item self
  cases hc : self.opts.conflict with
  | manual =>
    simp only [resolveConflict, hc]
    exact contentRows_rewritten hrefl .conflicted rfl
  | preferRemote =>
    simp only [resolveConflict, hc]
    exact contentRows_rewritten hrefl (.refreshed hb) rfl
  | preferLocal =>
    simp only [resolveConflict, hc]
    split
    · exact contentRows_rewritten hrefl .conflicted rfl
    · exact self.contentRows_push p item _
  | keepBoth =>
    simp only [resolveConflict, hc]
    have hdup : MergesRows p item self (self.stageConflictDup p) := by
      cases ho : p.object with
      | none =>
        simp only [stageConflictDup, ho]
        exact hrefl.congr rfl
      | some o =>
        simp only [stageConflictDup, ho]
        exact hrefl.upsert (.forked o)
    exact contentRows_rewritten hdup (.refreshed hb) rfl

theorem reconcileContent_rows (self : ReplicaSync) (p : ReplicaPlacement)
    (item : ReplicaRemoteItem) : ContentRows p item self (self.reconcileContent p item) := by
  have hrefl := MergesRows.refl p item self
  have hstill := self.contentRows_untouched p item
  cases hb : p.base with
  | none =>
    simp only [reconcileContent, hb]
    split
    · exact contentRows_rewritten hrefl .conflicted rfl
    · exact hstill
  | some base =>
    have hbased : p.base.isSome := Option.isSome_of_eq_some hb
    simp only [reconcileContent, hb]
    split
    · rename_i hconflict
      split
      · have hreopened := @ContentRow.reopened _ item hconflict hbased
        rw [hb] at hreopened
        exact contentRows_rewritten hrefl hreopened rfl
      · exact hstill
    · cases localChanged p base <;> cases movedFrom item base.revision
      · exact hstill
      · exact contentRows_rewritten hrefl (.refreshed hbased) rfl
      · dsimp only
        split
        · exact hstill
        · exact self.contentRows_push p item _
      · exact self.resolveConflict_rows hbased item

theorem MergesRows.reconcileFlags (hab : MergesRows p item a b) {q : ReplicaPlacement}
    (hq : ContentRow p item q) (allow : PushFlags) :
    MergesRows p item a (b.reconcileFlags q item allow).1 := by
  cases hb : q.base with
  | none =>
    simp only [ReplicaSync.reconcileFlags, ReplicaPlacement.baseFlags, hb]
    exact (hab.upsert (.settled hq item.flags)).congr rfl
  | some base =>
    have hbased : q.base.isSome := Option.isSome_of_eq_some hb
    obtain ⟨hwrites, -, -⟩ := b.reconcileFlags_spec hb item allow
    have hrows : ∀ r, flagRow base q item = some r → MergedRow a.collection p item r := by
      intro r hr
      simp only [flagRow] at hr
      split at hr
      · split at hr
        · cases hr
          exact .settled hq _
        · cases hr
      · split at hr
        · cases hr
          exact .flagged hq hbased _
        · cases hr
    cases hrow : flagRow base q item with
    | none =>
      rw [hrow] at hwrites
      exact hab.congr (hwrites.trans (List.append_nil _))
    | some r =>
      rw [hrow] at hwrites
      exact (hab.upsert (hrows r hrow)).congr hwrites

theorem mergePresent_rows (self : ReplicaSync) (p : ReplicaPlacement) (item : ReplicaRemoteItem) :
    MergesRows p item self (self.mergePresent p item).1 := by
  obtain ⟨hrows, hhanded⟩ := self.reconcileContent_rows p item
  simp only [mergePresent]
  cases hc : self.reconcileContent p item with
  | mk d outcome =>
    rw [hc] at hrows hhanded
    cases outcome with
    | untouched => exact hrows.reconcileFlags .untouched .derive
    | rewritten q => exact hrows.reconcileFlags (hhanded q rfl) .derive
    | push change => exact hrows.reconcileFlags .untouched .withhold

theorem mergeTombstone_rows (self : ReplicaSync) (h : ReplicaHandle) (hs : p.status = .tombstone)
    (hb : p.base.isSome) (item : ReplicaRemoteItem) :
    MergesRows p item self (self.mergeTombstone h p item).1 := by
  have hrefl := MergesRows.refl p item self
  have hrefuse : MergesRows p item self (self.refuseDelete p).1 := by
    cases hd : self.opts.delete with
    | revert =>
      simp only [refuseDelete, hd]
      exact hrefl.upsert (.reverted hs hb)
    | keep =>
      simp only [refuseDelete, hd]
      exact hrefl
  simp only [mergeTombstone]
  split
  · exact (hrefl.upsert .pulled).congr rfl
  · split
    · split
      · exact hrefuse
      · cases p.object <;> exact hrefl.congr rfl
    · split
      · exact hrefuse
      · exact hrefl.congr rfl

/-- A row with no base that the remote shows is joined to it: a base is stored last, over the
conflict a body on both sides is. -/
theorem mergePresent_joins (self : ReplicaSync) (hb : p.base = none) (item : ReplicaRemoteItem) :
    ∃ q flags, ContentRow p item q ∧ (self.mergePresent p item).1.writes =
      self.writes ++ (if p.object.isSome && item.revision.isSome then
        [.upsertPlacement (conflictedPlacement p item)] else []) ++
          [.upsertPlacement (settledRow q flags)] := by
  by_cases hcollides : (p.object.isSome && item.revision.isSome) = true
  · refine ⟨conflictedPlacement p item, item.flags, .conflicted, ?_⟩
    have hnone : (conflictedPlacement p item).base = none := hb
    simp only [mergePresent, reconcileContent, hb, if_pos hcollides, markConflict, reconcileFlags,
      ReplicaPlacement.baseFlags, hnone]
    rfl
  · refine ⟨p, item.flags, .untouched, ?_⟩
    simp only [mergePresent, reconcileContent, hb, if_neg hcollides, reconcileFlags,
      ReplicaPlacement.baseFlags, List.append_nil]
    rfl

/-- The row with a base, a fork of it, or the row with none where it had none. -/
inductive Rebases (h : ReplicaHandle) (base : Option ReplicaBase) (q : ReplicaPlacement) : Prop
  | based (own : q.handle = h) (some : q.base.isSome)
  | collided (own : q.handle = h) (none : q.base = none) (stood : base = .none)
  | forked (other : ¬ q.handle.Plain) (none : q.base = .none)

/-- A row rewritten in place keeps the base it has, or the lack of one. -/
theorem Rebases.kept {q : ReplicaPlacement} (hh : q.handle = p.handle)
    (hb : q.base.isSome = p.base.isSome) : Rebases p.handle p.base q := by
  cases hp : p.base with
  | none =>
    rw [hp] at hb
    exact .collided hh (Option.isNone_iff_eq_none.mp (by simpa using hb)) rfl
  | some base =>
    rw [hp] at hb
    exact .based hh hb

theorem not_plain_keepBothHandle (h : ReplicaHandle) (o : ReplicaHash) :
    ¬ (keepBothHandle h o).Plain := by
  rw [ReplicaId.Plain, keepBothHandle]
  simp

theorem ContentRow.in_place {q : ReplicaPlacement} (hq : ContentRow p item q) :
    q.handle = p.handle ∧ q.base.isSome = p.base.isSome := by
  cases hq with
  | untouched | conflicted | reopened => exact ⟨rfl, rfl⟩
  | refreshed => exact ⟨rfl, Option.isSome_map⟩

theorem MergedRow.rebases {collection : ReplicaCollectionId} {q : ReplicaPlacement}
    (hq : MergedRow collection p item q) (hi : item.handle = p.handle) :
    Rebases p.handle p.base q := by
  cases hq with
  | content handed => exact .kept handed.in_place.1 handed.in_place.2
  | forked object => exact .forked (not_plain_keepBothHandle p.handle object) rfl
  | flagged handed based flags => exact .based handed.in_place.1 based
  | settled handed flags => exact .based handed.in_place.1 rfl
  | reverted deleted based => exact .based rfl based
  | pulled => exact .based hi rfl

/-- What merging a row the remote shows writes. -/
theorem merge_rows (collection : ReplicaCollectionId) (opts : ReplicaSyncOptions)
    (h : ReplicaHandle) (p : ReplicaPlacement) (item : ReplicaRemoteItem) :
    ∀ op ∈ (effect collection opts ⟨h, some p, some item⟩).1.writes,
      ∃ q, op = .upsertPlacement q ∧ MergedRow collection p item q := by
  have hnew : ∀ {out : ReplicaSync}, MergesRows p item (new collection opts) out →
      ∀ op ∈ out.writes, ∃ q, op = .upsertPlacement q ∧ MergedRow collection p item q := by
    intro out hout op hop
    rcases hout op hop with hold | hnew
    · cases hold
    · exact hnew
  have hrefl := MergesRows.refl p item (new collection opts)
  by_cases hs : p.status = .tombstone
  · simp only [effect, merge_tombstone _ _ hs]
    split
    · rename_i hb
      exact hnew (mergeTombstone_rows _ h hs hb item)
    · exact hnew ((hrefl.upsert .pulled).congr rfl)
  · simp only [effect, merge_live _ _ hs]
    exact hnew (mergePresent_rows _ p item)

/-- What merging a candidate the remote shows writes, and how it ends where the row had no base. -/
theorem merge_shown (collection : ReplicaCollectionId) (opts : ReplicaSyncOptions)
    {loc : Option ReplicaPlacement} {item : ReplicaRemoteItem}
    (hc : (⟨h, loc, some item⟩ : Candidate).Paired) :
    (∀ op ∈ (effect collection opts ⟨h, loc, some item⟩).1.writes,
        ∃ q, op = .upsertPlacement q ∧ Rebases h (loc.bind (·.base)) q) ∧
      (¬ Based loc → ∃ ops q, (effect collection opts ⟨h, loc, some item⟩).1.writes =
        ops ++ [.upsertPlacement q] ∧ q.handle = h ∧ q.base.isSome) := by
  have hi : item.handle = h := hc.remote item rfl
  have hadded : ((new collection opts).mergeAdded h item).1.writes =
      [.upsertPlacement (pulledPlacement collection item)] := rfl
  cases loc with
  | none =>
    simp only [effect, merge_added, hadded]
    refine ⟨fun op hop => ⟨_, List.mem_singleton.mp hop, .based hi rfl⟩, fun _ => ?_⟩
    exact ⟨[], _, rfl, hi, rfl⟩
  | some p =>
    have hp : p.handle = h := hc.loc p rfl
    subst hp
    refine ⟨fun op hop => ?_, fun hb => ?_⟩
    · obtain ⟨q, hq, hrow⟩ := merge_rows collection opts p.handle p item op hop
      exact ⟨q, hq, hrow.rebases hi⟩
    · rw [based_some, Option.not_isSome_iff_eq_none] at hb
      by_cases hs : p.status = .tombstone
      · simp only [effect, merge_tombstone _ _ hs, hb, Option.isSome_none, Bool.false_eq_true, if_false,
          hadded]
        exact ⟨[], _, rfl, hi, rfl⟩
      · obtain ⟨q, flags, hq, hwrites⟩ := mergePresent_joins (new collection opts) hb item
        simp only [effect, merge_live _ _ hs]
        exact ⟨_, _, hwrites, hq.in_place.1, rfl⟩

/-- What merging a row the remote does not show writes: it drops the row, or takes its base away. -/
theorem merge_unshown (collection : ReplicaCollectionId) (opts : ReplicaSyncOptions)
    {loc : Option ReplicaPlacement} (hc : (⟨h, loc, none⟩ : Candidate).Paired) :
    (∀ op ∈ (effect collection opts ⟨h, loc, none⟩).1.writes,
        op.row = some h ∧ ¬ Based op.leaves) ∧
      (Based loc → (effect collection opts ⟨h, loc, none⟩).1.writes ≠ []) := by
  cases loc with
  | none =>
    simp only [effect, merge_absent]
    exact ⟨fun op hop => (by cases hop), fun hb => absurd hb not_based_none⟩
  | some p =>
    have hp : p.handle = h := hc.loc p rfl
    have hdrop : ∀ reason, ∀ op ∈ ((new collection opts).drop h reason).writes,
        op.row = some h ∧ ¬ Based op.leaves := by
      intro reason op hop
      rw [List.mem_singleton.mp hop]
      exact ⟨rfl, not_based_none⟩
    rw [based_some]
    by_cases hs : p.status = .tombstone
    · simp only [effect, merge_tombstone _ _ hs]
      exact ⟨hdrop _, fun _ => List.cons_ne_nil _ _⟩
    · simp only [effect, merge_live _ _ hs]
      have hcreate : ((new collection opts).mergeCreate h p).1.writes = [] := by
        simp only [mergeCreate]
        split <;> rfl
      split
      · have hresurrected : ∀ op ∈ ((new collection opts).upsert (resurrectedPlacement p)).writes,
            op.row = some h ∧ ¬ Based op.leaves := by
          intro op hop
          rw [List.mem_singleton.mp hop]
          refine ⟨congrArg some hp, ?_⟩
          rw [ReplicaWriteOp.leaves, based_some]
          exact Bool.false_ne_true
        simp only [mergeVanished]
        split
        · split
          · exact ⟨hresurrected, fun _ => List.cons_ne_nil _ _⟩
          · exact ⟨hresurrected, fun _ => List.cons_ne_nil _ _⟩
        · exact ⟨hdrop _, fun _ => List.cons_ne_nil _ _⟩
      · rename_i hbased
        rw [hcreate]
        exact ⟨fun op hop => (by cases hop), fun hb => absurd hb hbased⟩

/-- What a merge leaves a handle awaiting is the change it derived for it. -/
theorem effect_awaits (collection : ReplicaCollectionId) (opts : ReplicaSyncOptions) {c : Candidate}
    (hc : c.Paired) {m : PendingMap}
    (hm : ((effect collection opts c).1.pendingAt c.handle).holds m = true) :
    ∃ kind p, (effect collection opts c).2 = some kind ∧ kind.awaitedIn = m ∧
      c.loc = some p ∧ Derived opts p c.remote kind := by
  have howes := merge_balanced (new collection opts) hc (new_pendingAt collection opts c.handle)
  obtain ⟨kind, hkind, hin⟩ := Option.map_eq_some_iff.mp ((howes m).mp hm)
  obtain ⟨p, hp, hderived⟩ := merge_derived hkind
  exact ⟨kind, p, hkind, hin, hp, hderived⟩

end ReplicaSync
end IoReplica

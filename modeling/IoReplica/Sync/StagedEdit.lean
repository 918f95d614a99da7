import IoReplica.Sync.Present
import IoReplica.Sync.Seam

/-! What a sync run makes of a staged content edit its remote did not move under. -/
namespace IoReplica

/-- A Dirty placement whose body its base does not hold, and the item the run reads for it, no
content moved on the remote. -/
structure StagedEdit (p : ReplicaPlacement) (base : ReplicaBase) (object : ReplicaHash)
    (item : ReplicaRemoteItem) : Prop where
  dirty : p.status = .dirty
  based : p.base = some base
  body : p.object = some object
  edited : base.object ≠ some object
  unmoved : item.revision = none ∨ item.revision = base.revision

/-- The run merges this row with this item. -/
def Reads (s : CollectionRows) (snapshot : ReplicaRemoteSnapshot) (p : ReplicaPlacement)
    (item : ReplicaRemoteItem) : Prop :=
  Merge.candidateAt s.rows snapshot p.handle = some ⟨p.handle, some p, some item⟩

/-- A listed item is read, unless the snapshot is a delta reporting the handle vanished too. -/
theorem reads_of_listed {s : CollectionRows} {snapshot : ReplicaRemoteSnapshot}
    {p : ReplicaPlacement} {item : ReplicaRemoteItem} (hp : s.rows[p.handle]? = some p)
    (hi : snapshot.reported p.handle = some item)
    (hv : snapshot.complete = true ∨ p.handle ∉ snapshot.vanished) : Reads s snapshot p item := by
  have hsome : s.rows[p.handle]?.isSome ∨ (snapshot.reported p.handle).isSome := by simp [hp]
  rw [Reads, Merge.candidateAt, if_pos hsome, hp, hi]
  rcases hv with hv | hv
  · simp [Merge.select, Merge.between, hv]
  · cases hc : snapshot.complete <;> simp [Merge.select, Merge.between, Merge.narrow, hv, hc]

namespace StagedEdit

open ReplicaSync

variable {p : ReplicaPlacement} {base : ReplicaBase} {object : ReplicaHash}
  {item : ReplicaRemoteItem}

theorem movedFrom_eq (h : StagedEdit p base object item) : movedFrom item base.revision = false := by
  rcases h.unmoved with hr | hr <;> simp [movedFrom, hr]

theorem localChanged_eq (h : StagedEdit p base object item) : localChanged p base = true := by
  simp [localChanged, h.dirty, h.body, Ne.symm h.edited]

theorem contentEdit_eq (h : StagedEdit p base object item) : contentEdit p = true := by
  simp [contentEdit, h.based, h.body, h.edited]

/-- The effect of merging a staged edit: the content push where the run may push it, the flag axis
alone where it may not. -/
theorem effect_eq (h : StagedEdit p base object item) (collection : ReplicaCollectionId)
    (opts : ReplicaSyncOptions) :
    effect collection opts ⟨p.handle, some p, some item⟩ =
      if opts.mayContent then
        ((((new collection opts).stashContent p.handle p).reconcileFlags p item .withhold).1,
          some (.update p.handle object base.revision))
      else (new collection opts).reconcileFlags p item .derive := by
  have hs : p.status ≠ .tombstone := by simp [h.dirty]
  have hopts : (new collection opts).opts = opts := rfl
  rw [effect, merge_live _ _ hs]
  cases hm : opts.mayContent <;>
    simp [mergePresent, reconcileContent, h.based, h.dirty, h.localChanged_eq, h.movedFrom_eq,
      hopts, hm, pushContent, h.body]

/-- The flag axis converges on the remote's flags, and one of the three sides had moved. -/
def FlagsSettle (p : ReplicaPlacement) (base : ReplicaBase) (item : ReplicaRemoteItem) : Prop :=
  mergedFlags base p item = item.flags ∧
    (mergedFlags base p item ≠ p.flags ∨ p.flags ≠ base.flags)

/-- The run marks the row clean under its staged edit: a converging flag axis does it at once, unless
the accepted Update writes the row last, and an accepted flag push does it where the run may not
push the content. -/
def Cleaned (opts : ReplicaSyncOptions) (p : ReplicaPlacement) (base : ReplicaBase)
    (item : ReplicaRemoteItem) (accepted : Bool) : Prop :=
  if opts.mayContent then accepted = false ∧ FlagsSettle p base item
  else FlagsSettle p base item ∨
    (opts.mayFlags = true ∧ mergedFlags base p item ≠ item.flags ∧ accepted = true)

/-- The edit went up: an Update of the handle was pushed and accepted, and the stored base holds the
pushed body. -/
def Synced (p : ReplicaPlacement) (object : ReplicaHash) (t : Transcript)
    (row : ReplicaPlacement) : Prop :=
  (∃ k ∈ t.changes, ∃ ifMatch, k.kind = .update p.handle object ifMatch) ∧
    (Outbox.confirmation p.handle t.pushes).isSome ∧ row.baseObject = some object

/-- The edit is still there to push. -/
def StillPending (p row : ReplicaPlacement) : Prop :=
  row.object = p.object ∧ row.base.map (·.object) = p.base.map (·.object) ∧ row.status = .dirty

/-- What a run over a staged edit must leave: the edit synced, or still pending. -/
def Kept (p : ReplicaPlacement) (object : ReplicaHash) (t : Transcript)
    (row : Option ReplicaPlacement) : Prop :=
  ∃ q, row = some q ∧ (Synced p object t q ∨ StillPending p q)

/-- The row a run leaves of a staged edit, and the change it pushed for it. -/
structure Outcome (collection : ReplicaCollectionId) (opts : ReplicaSyncOptions)
    (p : ReplicaPlacement) (base : ReplicaBase) (object : ReplicaHash) (item : ReplicaRemoteItem)
    (t : Transcript) (row : Option ReplicaPlacement) : Prop where
  row : row =
    match Outbox.confirmation p.handle t.pushes with
    | some r =>
      if opts.mayContent then some (contentRebased p r.revision)
      else if pushesFlags opts base p item .derive then
        some (Pending.flagsRebased { p with flags := mergedFlags base p item })
      else (flagRow base p item).or (some p)
    | none => (flagRow base p item).or (some p)
  changes : t.changes.filter (fun k => k.handle = p.handle) =
    if opts.mayContent then
      [ReplicaChange.new collection (.update p.handle object base.revision)]
    else if pushesFlags opts base p item .derive then
      [ReplicaChange.new collection (.setFlags p.handle (mergedFlags base p item))]
    else []

theorem rowAfter_flagRow (p : ReplicaPlacement) (base : ReplicaBase) (item : ReplicaRemoteItem)
    (init : Option ReplicaPlacement) :
    rowAfter p.handle init (asWrites (flagRow base p item)) = (flagRow base p item).or init := by
  cases hq : flagRow base p item with
  | none => rfl
  | some q => simp [asWrites, flagRow_handle hq]

theorem rowAfter_recordContent (p : ReplicaPlacement) (init : Option ReplicaPlacement)
    (collection : ReplicaCollectionId) (r : ReplicaPushResult) :
    rowAfter p.handle init (({ Pending.none with content := some p } : Pending).record collection r) =
      some (contentRebased p r.revision) := by
  have hh : (contentRebased p r.revision).handle = p.handle := rfl
  simp [Pending.record, Pending.none, hh]

theorem rowAfter_recordFlags (p : ReplicaPlacement) (init : Option ReplicaPlacement)
    (collection : ReplicaCollectionId) (r : ReplicaPushResult) :
    rowAfter p.handle init (({ Pending.none with flags := some p } : Pending).record collection r) =
      some (Pending.flagsRebased p) := by
  have hh : (Pending.flagsRebased p).handle = p.handle := rfl
  simp [Pending.record, Pending.none, hh]

/-- What a run leaves of a staged edit its own candidate alone wrote. -/
theorem outcome_of_runAt (h : StagedEdit p base object item) {collection : ReplicaCollectionId}
    {opts : ReplicaSyncOptions} {t : Transcript} {s : CollectionRows}
    (hinit : s.rows[p.handle]? = some p)
    (hrun : RunAt collection opts ⟨p.handle, some p, some item⟩ t) :
    Outcome collection opts p base object item t (s.apply t.writes).rows[p.handle]? := by
  obtain ⟨hrow, hchanges⟩ := hrun
  dsimp only at hrow hchanges
  have hnone := new_pendingAt collection opts p.handle
  have hopts : (new collection opts).opts = opts := rfl
  rw [CollectionRows.get_apply, hrow, hinit]
  rw [h.effect_eq] at hchanges ⊢
  cases hm : opts.mayContent with
  | true =>
    obtain ⟨hfw, hfp, -⟩ := ((new collection opts).stashContent p.handle p).reconcileFlags_spec
      h.based item .withhold
    have hno : pushesFlags ((new collection opts).stashContent p.handle p).opts base p item
        .withhold = false := by simp [pushesFlags]
    have hstash : ((new collection opts).stashContent p.handle p).pendingAt p.handle =
        { Pending.none with content := some p } := by
      rw [← hnone]
      simp [pendingAt, stashContent]
    rw [hno, hstash] at hfp
    simp only [Bool.false_eq_true, if_false] at hfp
    have hwrites : ((new collection opts).stashContent p.handle p).writes = [] := rfl
    refine ⟨?_, ?_⟩
    · cases Outbox.confirmation p.handle t.pushes <;>
        simp only [hm, if_true, hfp, hfw, hwrites, List.nil_append, rowAfter_flagRow,
          rowAfter_recordContent]
    · rw [hm] at hchanges
      simpa [hm] using hchanges
  | false =>
    obtain ⟨hfw, hfp, hfc⟩ := (new collection opts).reconcileFlags_spec h.based item .derive
    have hwrites : (new collection opts).writes = [] := rfl
    rw [hnone, hopts] at hfp
    rw [hopts] at hfc
    cases hf : pushesFlags opts base p item .derive with
    | true =>
      rw [hf] at hfp hfc
      simp only [if_true] at hfp hfc
      refine ⟨?_, ?_⟩
      · simp only [hm, Bool.false_eq_true, if_false, if_true, hfp, hfw, hwrites, List.nil_append,
          rowAfter_flagRow, hf]
        cases Outbox.confirmation p.handle t.pushes with
        | none => rfl
        | some r =>
          exact rowAfter_recordFlags { p with flags := mergedFlags base p item } _ collection r
      · rw [hm] at hchanges
        simpa [hm, hf, hfc] using hchanges
    | false =>
      rw [hf] at hfp hfc
      simp only [Bool.false_eq_true, if_false] at hfp hfc
      refine ⟨?_, ?_⟩
      · cases Outbox.confirmation p.handle t.pushes <;>
          simp only [hm, Bool.false_eq_true, if_false, hfp, hfw, hwrites, List.nil_append,
            rowAfter_flagRow, hf, Pending.record_none, rowAfter_nil]
      · rw [hm] at hchanges
        simpa [hm, hf, hfc] using hchanges

theorem outcome (h : StagedEdit p base object item) {collection : ReplicaCollectionId}
    {opts : ReplicaSyncOptions} {loaded : ReplicaLoaded} {snapshot : ReplicaRemoteSnapshot}
    {t : Transcript} {s : CollectionRows} (hs : Syncs collection opts loaded snapshot t)
    (hl : loaded.placements = s.placements) (hr : Reads s snapshot p item)
    (hu : Undisturbed s p.handle t) :
    Outcome collection opts p base object item t (s.apply t.writes).rows[p.handle]? :=
  h.outcome_of_runAt (Merge.candidateAt_spec hr).2.symm
    (hs.runAt (c := ⟨p.handle, some p, some item⟩) hl hr hu)

/-- A converging flag axis that moved writes a clean row. -/
theorem flagRow_settled (h : StagedEdit p base object item) (hf : FlagsSettle p base item) :
    ∃ q, flagRow base p item = some q ∧ q.status = .clean := by
  obtain ⟨hm, hmoved⟩ := hf
  refine ⟨settledRow p (mergedFlags base p item), ?_, ?_⟩
  · simp only [flagRow, hm, if_true]
    rw [if_pos]
    rw [hm] at hmoved
    rcases hmoved with hmoved | hmoved
    · exact Or.inl hmoved
    · exact Or.inr (Or.inl hmoved)
  · simp [settledRow, settledStatus, h.dirty]

/-- Otherwise the row keeps its edit pending. -/
theorem flagRow_pending (h : StagedEdit p base object item) (hf : ¬ FlagsSettle p base item) :
    ∃ q, (flagRow base p item).or (some p) = some q ∧ StillPending p q := by
  have hself : StillPending p p := ⟨rfl, rfl, h.dirty⟩
  by_cases hm : mergedFlags base p item = item.flags
  · have hstay : mergedFlags base p item = p.flags ∧ p.flags = base.flags := by
      by_contra hc
      rw [not_and_or] at hc
      exact hf ⟨hm, hc⟩
    have hq : flagRow base p item = none := by
      have hip : item.flags = p.flags := hm.symm.trans hstay.1
      simp [flagRow, hm, hip, hstay.2, h.contentEdit_eq]
    exact ⟨p, by rw [hq]; rfl, hself⟩
  · by_cases hp : mergedFlags base p item = p.flags
    · have hq : flagRow base p item = none := by
        simp only [flagRow, if_neg hm]
        simp [hp]
      exact ⟨p, by rw [hq]; rfl, hself⟩
    · have hq : flagRow base p item = some { p with flags := mergedFlags base p item } := by
        simp only [flagRow, if_neg hm]
        simp [hp]
      exact ⟨{ p with flags := mergedFlags base p item }, by rw [hq]; rfl, ⟨rfl, rfl, h.dirty⟩⟩

theorem not_stillPending_of_clean {q : ReplicaPlacement} (hq : q.status = .clean) :
    ¬ StillPending p q := by
  rintro ⟨-, -, hd⟩
  rw [hq] at hd
  cases hd

theorem flagsRebased_clean (h : StagedEdit p base object item) (flags : ReplicaFlags) :
    (Pending.flagsRebased { p with flags := flags }).status = .clean := by
  simp [Pending.flagsRebased, settledStatus, h.dirty]

/-- A run that may not push the content pushes no Update of the handle. -/
theorem not_synced {collection : ReplicaCollectionId} {opts : ReplicaSyncOptions} {t : Transcript}
    {row : Option ReplicaPlacement} (ho : Outcome collection opts p base object item t row)
    (hm : opts.mayContent = false) (q : ReplicaPlacement) : ¬ Synced p object t q := by
  rintro ⟨⟨k, hk, ifMatch, hkind⟩, -, -⟩
  have hmem : k ∈ t.changes.filter (fun k => k.handle = p.handle) := by
    rw [List.mem_filter]
    exact ⟨hk, by simp [ReplicaChange.handle, hkind, ReplicaChangeKind.handle]⟩
  have hch := ho.changes
  rw [hm] at hch
  simp only [Bool.false_eq_true, if_false] at hch
  rw [hch] at hmem
  split at hmem
  · rw [List.mem_singleton.mp hmem] at hkind
    cases hkind
  · cases hmem

theorem not_kept {t : Transcript} {q : ReplicaPlacement} (hq : q.status = .clean)
    (hs : ¬ Synced p object t q) : ¬ Kept p object t (some q) := by
  rintro ⟨q', hq', hkept⟩
  cases hq'
  rcases hkept with hsynced | hpending
  · exact hs hsynced
  · exact not_stillPending_of_clean hq hpending

/-- With no push left to write the row, the flag axis alone decides. -/
theorem kept_flagRow_iff (h : StagedEdit p base object item) {t : Transcript}
    (hs : ∀ q, ¬ Synced p object t q) :
    Kept p object t ((flagRow base p item).or (some p)) ↔ ¬ FlagsSettle p base item := by
  by_cases hf : FlagsSettle p base item
  · obtain ⟨q, hq, hclean⟩ := h.flagRow_settled hf
    rw [hq]
    exact ⟨fun hk => absurd hk (not_kept hclean (hs q)), fun hn => absurd hf hn⟩
  · obtain ⟨q, hq, hpending⟩ := h.flagRow_pending hf
    exact ⟨fun _ => hf, fun _ => ⟨q, hq, Or.inr hpending⟩⟩

theorem pushesFlags_iff (opts : ReplicaSyncOptions) (base : ReplicaBase) (p : ReplicaPlacement)
    (item : ReplicaRemoteItem) : pushesFlags opts base p item .derive = true ↔
      opts.mayFlags = true ∧ mergedFlags base p item ≠ item.flags := by
  simp [pushesFlags, and_comm]

/-- A completed run keeps a staged edit exactly when it does not mark the row clean under it. -/
theorem staged_edit_kept_iff (h : StagedEdit p base object item) {collection : ReplicaCollectionId}
    {opts : ReplicaSyncOptions} {loaded : ReplicaLoaded} {snapshot : ReplicaRemoteSnapshot}
    {t : Transcript} {s : CollectionRows} (hs : Syncs collection opts loaded snapshot t)
    (hl : loaded.placements = s.placements) (hr : Reads s snapshot p item)
    (hu : Undisturbed s p.handle t) :
    Kept p object t (s.apply t.writes).rows[p.handle]? ↔
      ¬ Cleaned opts p base item (Outbox.confirmation p.handle t.pushes).isSome := by
  have ho := h.outcome hs hl hr hu
  have hrow := ho.row
  rw [hrow, Cleaned]
  cases hc : Outbox.confirmation p.handle t.pushes with
  | none =>
    have hns : ∀ q, ¬ Synced p object t q := by
      rintro q ⟨-, hconf, -⟩
      rw [hc] at hconf
      cases hconf
    rw [h.kept_flagRow_iff hns]
    cases opts.mayContent <;> simp
  | some r =>
    cases hm : opts.mayContent with
    | true =>
      have hch := ho.changes
      rw [hm] at hch
      simp only [if_true] at hch
      have hmem : ReplicaChange.new collection (.update p.handle object base.revision) ∈
          t.changes.filter (fun k => k.handle = p.handle) := by
        rw [hch]
        exact List.mem_singleton_self _
      have hsynced : Synced p object t (contentRebased p r.revision) := by
        refine ⟨⟨_, (List.mem_filter.mp hmem).1, base.revision, rfl⟩, ?_, ?_⟩
        · rw [hc]
          rfl
        · exact h.body
      simp only [if_true]
      exact ⟨fun _ hcl => absurd hcl.1 (by simp), fun _ => ⟨_, rfl, Or.inl hsynced⟩⟩
    | false =>
      have hns := not_synced ho hm
      simp only [Bool.false_eq_true, if_false]
      by_cases hf : pushesFlags opts base p item .derive = true
      · obtain ⟨hmay, hne⟩ := (pushesFlags_iff opts base p item).mp hf
        rw [if_pos hf]
        have hnk := not_kept (h.flagsRebased_clean (mergedFlags base p item)) (hns _)
        exact ⟨fun hk => absurd hk hnk, fun hn => absurd (Or.inr ⟨hmay, hne, rfl⟩) hn⟩
      · rw [if_neg hf, h.kept_flagRow_iff hns]
        rw [pushesFlags_iff] at hf
        constructor
        · rintro hn (hs | ⟨hmay, hne, -⟩)
          · exact hn hs
          · exact hf ⟨hmay, hne⟩
        · exact fun hn hs => hn (Or.inl hs)

/-- A row that still holds its edit is a staged edit again, against any remote that did not move from
its base. -/
theorem StillPending.stagedEdit (h : StagedEdit p base object item) {q : ReplicaPlacement}
    (hq : StillPending p q) {item' : ReplicaRemoteItem}
    (hr : item'.revision = none ∨ item'.revision = q.baseRevision) :
    ∃ base', StagedEdit q base' object item' := by
  obtain ⟨hobject, hbase, hdirty⟩ := hq
  rw [h.based, Option.map_some, Option.map_eq_some_iff] at hbase
  obtain ⟨base', hbase', hobj⟩ := hbase
  refine ⟨base', hdirty, hbase', hobject.trans h.body, ?_, ?_⟩
  · rw [hobj]
    exact h.edited
  · rw [ReplicaPlacement.baseRevision, hbase'] at hr
    exact hr

/-- Every run that may push content derives the Update of a staged edit. -/
theorem derives_update (h : StagedEdit p base object item) {collection : ReplicaCollectionId}
    {opts : ReplicaSyncOptions} {loaded : ReplicaLoaded} {snapshot : ReplicaRemoteSnapshot}
    {t : Transcript} {s : CollectionRows} (hs : Syncs collection opts loaded snapshot t)
    (hl : loaded.placements = s.placements) (hr : Reads s snapshot p item)
    (hu : Undisturbed s p.handle t) (hm : opts.mayContent = true) :
    ReplicaChange.new collection (.update p.handle object base.revision) ∈ t.changes := by
  have hch := (h.outcome hs hl hr hu).changes
  rw [hm] at hch
  have hmem : ReplicaChange.new collection (.update p.handle object base.revision) ∈
      t.changes.filter (fun k => k.handle = p.handle) := by
    rw [hch]
    exact List.mem_singleton_self _
  exact (List.mem_filter.mp hmem).1

section Runs

/-- A card edited locally, in a collection of its own. -/
def card : ReplicaPlacement where
  collection := ⟨"contacts"⟩
  handle := ⟨"a"⟩
  linkId := none
  object := some ⟨"new"⟩
  level := .full
  metadata := none
  sortKey := .unknown
  flags := .empty
  status := .dirty
  conflictRevision := none
  conflictObject := none
  base := some ⟨.empty, some "1", some ⟨"old"⟩⟩
  origin := none

/-- The remote still at the card's base revision, its flags moved. -/
def starred : ReplicaRemoteItem := ⟨⟨"a"⟩, .known {"starred"}, some "1"⟩

def cardSeam (replies : List (List ReplicaPushResult)) : Seam where
  rows := CollectionRows.empty.write (.upsertPlacement card)
  checkpoint := none
  snapshot := ⟨[starred], [], true, ⟨[]⟩⟩
  replies := replies

theorem card_staged : StagedEdit card ⟨.empty, some "1", some ⟨"old"⟩⟩ ⟨"new"⟩ starred :=
  ⟨rfl, rfl, rfl, by decide, Or.inr rfl⟩

theorem card_reads (replies : List (List ReplicaPushResult)) :
    Reads (cardSeam replies).rows (cardSeam replies).snapshot card starred :=
  reads_of_listed (OrderedMap.get_insert_self _ _ _) rfl (Or.inl rfl)

/-- With pushing off, a flag change pulled from the remote marks the edited card clean. -/
theorem flag_pull_cleans_card : ∃ t,
    Syncs card.collection { ReplicaSyncOptions.default with push := false }
      ⟨(cardSeam []).rows.placements, none⟩ (cardSeam []).snapshot t ∧
    StagedEdit card ⟨.empty, some "1", some ⟨"old"⟩⟩ ⟨"new"⟩ starred ∧
    Reads (cardSeam []).rows (cardSeam []).snapshot card starred ∧
    Undisturbed (cardSeam []).rows card.handle t ∧
    ¬ Kept card ⟨"new"⟩ t ((cardSeam []).rows.apply t.writes).rows[card.handle]? := by
  have hrun : ((cardSeam []).sync 9 card.collection
      { ReplicaSyncOptions.default with push := false }).map
        (fun o => (o.2.pushes, (o.1.rows.rows[card.handle]?).map (·.status))) =
      some ([], some .clean) := by decide
  obtain ⟨⟨s', t⟩, hd, heq⟩ := Option.map_eq_some_iff.mp hrun
  obtain ⟨hsync, hrows⟩ := Seam.sync_syncs hd
  simp only [Prod.mk.injEq] at heq
  obtain ⟨hpushes, hclean⟩ := heq
  have hunassigned : Outbox.Unassigned card.handle t.pushes := by
    rw [hpushes]
    intro e he
    cases he
  refine ⟨t, hsync, card_staged, card_reads [], Seam.single_undisturbed hunassigned, ?_⟩
  rw [hrows, Option.map_eq_some_iff] at hclean
  obtain ⟨q, hq, hstatus⟩ := hclean
  rw [hq]
  refine not_kept hstatus ?_
  rintro ⟨⟨k, hk, -⟩, -, -⟩
  rw [Transcript.changes, hpushes] at hk
  cases hk

/-- With the Update accepted, the same card ends synced. -/
theorem card_update_kept : ∃ t,
    Syncs card.collection .default ⟨(cardSeam [[⟨⟨"a"⟩, .accepted, none, some "2"⟩]]).rows.placements,
      none⟩ (cardSeam [[⟨⟨"a"⟩, .accepted, none, some "2"⟩]]).snapshot t ∧
    Kept card ⟨"new"⟩ t
      ((cardSeam [[⟨⟨"a"⟩, .accepted, none, some "2"⟩]]).rows.apply t.writes).rows[card.handle]? := by
  have hrun : ((cardSeam [[⟨⟨"a"⟩, .accepted, none, some "2"⟩]]).sync 9 card.collection
      .default).map (fun o => (o.2.pushes.map (·.2), Outbox.confirmation card.handle o.2.pushes)) =
      some ([[⟨⟨"a"⟩, .accepted, none, some "2"⟩]], some ⟨⟨"a"⟩, .accepted, none, some "2"⟩) := by
    decide
  obtain ⟨⟨s', t⟩, hd, heq⟩ := Option.map_eq_some_iff.mp hrun
  obtain ⟨hsync, -⟩ := Seam.sync_syncs hd
  simp only [Prod.mk.injEq] at heq
  obtain ⟨hpushes, hconf⟩ := heq
  have hunassigned : Outbox.Unassigned card.handle t.pushes :=
    Seam.unassigned_of_replies hpushes (by decide)
  refine ⟨t, hsync, ?_⟩
  rw [card_staged.staged_edit_kept_iff hsync rfl (card_reads _) (Seam.single_undisturbed hunassigned),
    hconf]
  exact fun hc => absurd hc.1 (by decide)

end Runs
end StagedEdit
end IoReplica

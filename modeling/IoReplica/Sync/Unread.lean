import IoReplica.Sync.Owned
import IoReplica.Sync.PushedFlags

/-! A listed member whose markers nobody has read: what a run makes of the ones a settled row
caches. -/
namespace IoReplica

/-- The row holds these flags, its base as well. -/
structure ReplicaPlacement.Caches (p : ReplicaPlacement) (flags : ReplicaFlags) : Prop where
  held : p.flags = flags
  based : p.baseFlags = some flags

namespace ReplicaSync

/-- A state that leaves a row's markers alone: every row it writes or awaits under the handle holds
them, its base as well. -/
structure Spares (opts : ReplicaSyncOptions) (h : ReplicaHandle) (flags : ReplicaFlags)
    (a : ReplicaSync) : Prop where
  opts : a.opts = opts
  writes : ∀ q, .upsertPlacement q ∈ a.writes → q.handle = h → q.Caches flags
  flagged : ∀ q, (a.pendingAt h).flags = some q → q.Caches flags
  content : ∀ q, (a.pendingAt h).content = some q → q.Caches flags
  created : (a.pendingAt h).created = none

/-- The run sends the row's body up, so its markers wait for the next one. -/
def BodyFirst (opts : ReplicaSyncOptions) (p : ReplicaPlacement) (base : ReplicaBase)
    (item : ReplicaRemoteItem) : Prop :=
  localChanged p base = true ∧ opts.mayContent = true ∧
    (movedFrom item base.revision = false ∨ opts.conflict = .preferLocal)

section
variable {opts : ReplicaSyncOptions} {h : ReplicaHandle} {flags : ReplicaFlags} {a : ReplicaSync}
  {p q : ReplicaPlacement} {base : ReplicaBase} {item : ReplicaRemoteItem}

theorem Spares.new (collection : ReplicaCollectionId) (opts : ReplicaSyncOptions)
    (h : ReplicaHandle) (flags : ReplicaFlags) :
    Spares opts h flags (new collection opts) := by
  have hnone := new_pendingAt collection opts h
  refine ⟨rfl, fun q hq => (by cases hq), fun q hq => ?_, fun q hq => ?_, ?_⟩
  · rw [hnone] at hq
    cases hq
  · rw [hnone] at hq
    cases hq
  · rw [hnone]
    rfl

/-- Counting and reporting leave the rows alone. -/
theorem Spares.congr (ha : Spares opts h flags a) {b : ReplicaSync} (ho : b.opts = a.opts)
    (hw : b.writes = a.writes) (hp : b.pendingAt h = a.pendingAt h) : Spares opts h flags b := by
  refine ⟨ho.trans ha.opts, ?_, ?_, ?_, ?_⟩
  · rw [hw]
    exact ha.writes
  · rw [hp]
    exact ha.flagged
  · rw [hp]
    exact ha.content
  · rw [hp]
    exact ha.created

theorem Spares.upsert (ha : Spares opts h flags a) (hq : q.handle = h → q.Caches flags) :
    Spares opts h flags (a.upsert q) := by
  refine ⟨ha.opts, fun r hr hh => ?_, ha.flagged, ha.content, ha.created⟩
  rcases List.mem_append.mp hr with hr | hr
  · exact ha.writes r hr hh
  · cases List.mem_singleton.mp hr
    exact hq hh

theorem Spares.pullContent (ha : Spares opts h flags a)
    (hp : (refreshedPlacement p item).Caches flags) :
    Spares opts h flags (a.pullContent p item).1 :=
  (ha.upsert (q := refreshedPlacement p item) (fun _ => hp)).congr rfl rfl rfl

theorem Spares.markConflict (ha : Spares opts h flags a)
    (hp : (conflictedPlacement p item).Caches flags) :
    Spares opts h flags (a.markConflict p item).1 :=
  (ha.upsert (q := conflictedPlacement p item) (fun _ => hp)).congr rfl rfl rfl

/-- A stashed body keeps the markers of its row. -/
theorem Spares.stashContent (ha : Spares opts h flags a) (hp : p.Caches flags) :
    Spares opts h flags (a.stashContent h p) := by
  refine ⟨ha.opts, ha.writes, ha.flagged, fun q hq => ?_, ha.created⟩
  simp only [pendingAt, ReplicaSync.stashContent, OrderedMap.get_insert_self,
    Option.some.injEq] at hq
  rw [← hq]
  exact hp

/-- What the content axis hands the flag axis: a row with the markers it was given, to push them
from exactly where it pushes no body. -/
def HandsOver (opts : ReplicaSyncOptions) (flags : ReplicaFlags) (p : ReplicaPlacement)
    (base : ReplicaBase) (item : ReplicaRemoteItem) : ContentOutcome → Prop
  | .untouched => ¬ BodyFirst opts p base item
  | .rewritten q => ¬ BodyFirst opts p base item ∧ q.handle = p.handle ∧ q.Caches flags
  | .push _ => BodyFirst opts p base item

theorem pushContent_spares (ha : Spares opts p.handle flags a) (hp : p.Caches flags)
    (hbody : BodyFirst opts p base item) (ifMatch : Option String) :
    Spares opts p.handle flags (a.pushContent p ifMatch).1 ∧
      HandsOver opts flags p base item (a.pushContent p ifMatch).2 := by
  obtain ⟨hl, -⟩ := id hbody
  simp only [localChanged, Bool.and_eq_true] at hl
  obtain ⟨o, ho⟩ := Option.isSome_iff_exists.mp hl.1.2
  simp only [pushContent, ho]
  exact ⟨ha.stashContent hp, hbody⟩

/-- A conflict resolved by policy: only the one that prefers the local body sends it up. -/
theorem resolveConflict_spares (ha : Spares opts p.handle flags a) (hp : p.Caches flags)
    (hrefreshed : (refreshedPlacement p item).Caches flags) (hl : localChanged p base = true)
    (hm : movedFrom item base.revision = true) :
    Spares opts p.handle flags (a.resolveConflict p item).1 ∧
      HandsOver opts flags p base item (a.resolveConflict p item).2 := by
  have hmark : (conflictedPlacement p item).Caches flags := ⟨hp.held, hp.based⟩
  have hnot : a.opts.conflict ≠ .preferLocal → ¬ BodyFirst opts p base item := by
    rintro hpolicy ⟨-, -, hunmoved | hlocal⟩
    · exact absurd (hm.symm.trans hunmoved) (by decide)
    · exact hpolicy (ha.opts ▸ hlocal)
  cases hpolicy : a.opts.conflict with
  | manual =>
    simp only [resolveConflict, hpolicy]
    exact ⟨ha.markConflict hmark, hnot (by simp [hpolicy]), rfl, hmark⟩
  | preferRemote =>
    simp only [resolveConflict, hpolicy]
    exact ⟨ha.pullContent hrefreshed, hnot (by simp [hpolicy]), rfl, hrefreshed⟩
  | keepBoth =>
    have hfork : Spares opts p.handle flags (a.stageConflictDup p) := by
      cases ho : p.object with
      | none =>
        simp only [stageConflictDup, ho]
        exact ha.congr rfl rfl rfl
      | some o =>
        simp only [stageConflictDup, ho]
        exact ha.upsert (fun hh => absurd hh (keepBothHandle_ne p.handle o))
    simp only [resolveConflict, hpolicy]
    exact ⟨hfork.pullContent hrefreshed, hnot (by simp [hpolicy]), rfl, hrefreshed⟩
  | preferLocal =>
    cases hmay : a.opts.mayContent with
    | false =>
      have hno : ¬ BodyFirst opts p base item := by
        rintro ⟨-, hmay', -⟩
        rw [← ha.opts, hmay] at hmay'
        cases hmay'
      simp only [resolveConflict, hpolicy, hmay, Bool.not_false, if_true]
      exact ⟨ha.markConflict hmark, hno, rfl, hmark⟩
    | true =>
      have hbody : BodyFirst opts p base item :=
        ⟨hl, ha.opts ▸ hmay, Or.inr (ha.opts ▸ hpolicy)⟩
      simp only [resolveConflict, hpolicy, hmay, Bool.not_true, Bool.false_eq_true, if_false]
      exact pushContent_spares ha hp hbody item.revision

theorem reconcileContent_spares (ha : Spares opts p.handle flags a) (hb : p.base = some base)
    (hp : p.Caches flags) :
    Spares opts p.handle flags (a.reconcileContent p item).1 ∧
      HandsOver opts flags p base item (a.reconcileContent p item).2 := by
  have hbased : base.flags = flags := by
    have := hp.based
    rwa [ReplicaPlacement.baseFlags, hb, Option.map_some, Option.some.injEq] at this
  have hrefreshed : (refreshedPlacement p item).Caches flags := by
    refine ⟨hp.held, ?_⟩
    simp [refreshedPlacement, ReplicaPlacement.baseFlags, hb, hbased]
  by_cases hc : p.status = .conflict
  · have hnot : ¬ BodyFirst opts p base item := by
      rintro ⟨hl, -⟩
      simp [localChanged, hc] at hl
    have htracked : { p with
        conflictRevision := item.revision
        conflictObject := none
        base := some base }.Caches flags := ⟨hp.held, congrArg some hbased⟩
    simp only [reconcileContent, hb, if_pos hc]
    split
    · exact ⟨ha.upsert (fun _ => htracked), hnot, rfl, htracked⟩
    · exact ⟨ha, hnot⟩
  · simp only [reconcileContent, hb, if_neg hc]
    cases hl : localChanged p base with
    | false =>
      have hnot : ¬ BodyFirst opts p base item := by
        rintro ⟨hl', -⟩
        exact absurd (hl.symm.trans hl') (by decide)
      cases hm : movedFrom item base.revision with
      | false => exact ⟨ha, hnot⟩
      | true => exact ⟨ha.pullContent hrefreshed, hnot, rfl, hrefreshed⟩
    | true =>
      cases hm : movedFrom item base.revision with
      | true => exact resolveConflict_spares ha hp hrefreshed hl hm
      | false =>
        cases hmay : a.opts.mayContent with
        | false =>
          refine ⟨by simpa [hmay] using ha, ?_⟩
          simp only [Bool.not_false, if_true]
          rintro ⟨-, hmay', -⟩
          rw [← ha.opts, hmay] at hmay'
          cases hmay'
        | true =>
          simp only [Bool.not_true, Bool.false_eq_true, if_false]
          exact pushContent_spares ha hp ⟨hl, ha.opts ▸ hmay, Or.inl hm⟩ base.revision

/-- The flag axis of a settled row against unread markers: it writes none, and pushes the cached
ones where they are known and it may. -/
theorem reconcileFlags_unread (ha : Spares opts q.handle flags a) (hq : q.Caches flags)
    (hunread : item.flags = .unknown) (allow : PushFlags) :
    Spares opts q.handle flags (a.reconcileFlags q item allow).1 ∧
      (a.reconcileFlags q item allow).2 =
        if flags = .unknown ∨ opts.mayFlags = false ∨ allow = .withhold then none
        else some (.setFlags q.handle flags) := by
  obtain ⟨base, hb, hflags⟩ := Option.map_eq_some_iff.mp hq.based
  have hmerged : mergedFlags base q item = flags := by
    rw [mergedFlags, hunread, ReplicaFlags.merge_unknown_right, hq.held]
  have hself : { q with flags := flags } = q := by rw [← hq.held]
  obtain ⟨hwrites, hpending, hchange⟩ := a.reconcileFlags_spec hb item allow
  have hpushes : pushesFlags a.opts base q item allow = true ↔
      ¬ (flags = .unknown ∨ opts.mayFlags = false ∨ allow = .withhold) := by
    rw [pushesFlags, hmerged, hunread, ha.opts]
    cases allow <;> simp
  have hrow : ∀ r, flagRow base q item = some r → r.Caches flags := by
    intro r hr
    simp only [flagRow, hmerged, hq.held, ne_eq, not_true_eq_false, if_false, false_or] at hr
    split at hr
    · split at hr
      · cases hr
        exact ⟨rfl, rfl⟩
      · cases hr
    · cases hr
  rw [hmerged, hself] at hpending
  rw [hmerged] at hchange
  constructor
  · have hopts : (a.reconcileFlags q item allow).1.opts = a.opts :=
      ((Local.refl q.handle q.object a).reconcileFlags item rfl allow).1.opts
    have hflagged : ∀ r, ((a.reconcileFlags q item allow).1.pendingAt q.handle).flags = some r →
        r.Caches flags := by
      intro r hr
      rw [hpending] at hr
      split at hr
      · cases hr
        exact hq
      · exact ha.flagged r hr
    refine ⟨hopts.trans ha.opts, fun r hr hh => ?_, hflagged, fun r hr => ?_, ?_⟩
    · rw [hwrites, List.mem_append] at hr
      rcases hr with hr | hr
      · exact ha.writes r hr hh
      · simp only [asWrites, Option.mem_toList, Option.map_eq_some_iff] at hr
        obtain ⟨r', hr', heq⟩ := hr
        cases heq
        exact hrow r hr'
    · rw [hpending] at hr
      split at hr <;> exact ha.content r hr
    · rw [hpending]
      split <;> exact ha.created
  · rw [hchange]
    by_cases hpush : pushesFlags a.opts base q item allow = true
    · rw [if_pos hpush, if_neg (hpushes.mp hpush)]
    · rw [if_neg hpush, if_pos (not_not.mp (mt hpushes.mpr hpush))]

/-- A settled row merged with unread markers, alone. -/
theorem effect_unread (collection : ReplicaCollectionId) (hlive : p.status ≠ .tombstone)
    (hb : p.base = some base) (hp : p.Caches flags) (hunread : item.flags = .unknown) :
    Spares opts p.handle flags (effect collection opts ⟨p.handle, some p, some item⟩).1 ∧
      ((∀ f, (effect collection opts ⟨p.handle, some p, some item⟩).2 ≠
          some (.setFlags p.handle f)) ↔
        flags = .unknown ∨ opts.mayFlags = false ∨ BodyFirst opts p base item) := by
  obtain ⟨hspares, hover⟩ := reconcileContent_spares
    (Spares.new collection opts p.handle flags) hb hp
  have hderives : ∀ q d, q.handle = p.handle → q.Caches flags → ¬ BodyFirst opts p base item →
      Spares opts p.handle flags d →
      Spares opts p.handle flags (d.reconcileFlags q item .derive).1 ∧
        ((∀ f, (d.reconcileFlags q item .derive).2 ≠ some (.setFlags p.handle f)) ↔
          flags = .unknown ∨ opts.mayFlags = false ∨ BodyFirst opts p base item) := by
    intro q d hh hq hnot hd
    rw [← hh] at hd
    obtain ⟨hd', hchange⟩ := reconcileFlags_unread hd hq hunread .derive
    rw [hh] at hd' hchange
    refine ⟨hd', ?_⟩
    rw [hchange]
    by_cases hsilent : flags = .unknown ∨ opts.mayFlags = false
    · rw [if_pos (hsilent.imp_right Or.inl)]
      exact ⟨fun _ => hsilent.imp_right Or.inl, fun _ f => by simp⟩
    · rw [if_neg (by simpa using hsilent)]
      constructor
      · intro h
        exact absurd rfl (h flags)
      · rintro (h | h | h)
        · exact absurd (Or.inl h) hsilent
        · exact absurd (Or.inr h) hsilent
        · exact absurd h hnot
  rw [effect, merge_live _ _ hlive]
  simp only [mergePresent]
  cases hc : (new collection opts).reconcileContent p item with
  | mk d outcome =>
    rw [hc] at hspares hover
    cases outcome with
    | untouched => exact hderives p d rfl hp hover hspares
    | rewritten q => exact hderives q d hover.2.1 hover.2.2 hover.1 hspares
    | push change =>
      obtain ⟨-, -, o, ifMatch, -, rfl⟩ := (new collection opts).reconcileContent_push (by rw [hc])
      refine ⟨(reconcileFlags_unread hspares hp hunread .withhold).1, ?_⟩
      exact ⟨fun _ => Or.inr (Or.inr hover), fun _ f => by simp⟩

/-- What an accepted result records of a spared row holds its markers. -/
theorem Spares.record (ha : Spares opts h flags a) (collection : ReplicaCollectionId)
    (r : ReplicaPushResult) :
    ∀ q, .upsertPlacement q ∈ (a.pendingAt h).record collection r → q.Caches flags := by
  intro q hq
  simp only [Pending.record, ha.created, Option.map_none, Option.getD_none, List.append_nil,
    List.mem_append, Option.mem_toList, Option.map_eq_some_iff] at hq
  rcases hq with (⟨p, hp, heq⟩ | ⟨p, hp, heq⟩) | hq
  · cases heq
    have hcaches := ha.flagged p hp
    exact ⟨hcaches.held, congrArg some hcaches.held⟩
  · cases heq
    have hcaches := ha.content p hp
    have hbased : (contentRebased p r.revision).baseFlags = some (p.baseFlags.getD .empty) := rfl
    exact ⟨hcaches.held, by rw [hbased, hcaches.based]; rfl⟩
  · split at hq
    · cases List.mem_singleton.mp hq
    · cases hq

end
end ReplicaSync

open ReplicaSync

/-- The run asks for no flag change of the row, and every row it stores for it holds its markers,
its base as well, unless another member is written there. -/
structure LeavesMarkers (s : CollectionRows) (p : ReplicaPlacement) (t : Transcript) : Prop where
  silent : ∀ k ∈ t.changes, ∀ f, k.kind ≠ .setFlags p.handle f
  kept : Undisturbed s p.handle t →
    ∀ q, .upsertPlacement q ∈ t.writes → q.handle = p.handle → q.Caches p.flags

/-- A run leaves a settled row's markers to a remote nobody has read exactly when the row caches
none, it may push none, or it sends the row's body up first. -/
theorem unread_markers_left_iff {collection : ReplicaCollectionId} {opts : ReplicaSyncOptions}
    {loaded : ReplicaLoaded} {snapshot : ReplicaRemoteSnapshot} {t : Transcript}
    (hs : Syncs collection opts loaded snapshot t) {p : ReplicaPlacement} {base : ReplicaBase}
    {item : ReplicaRemoteItem} (hr : Reads (.ofLoad loaded.placements) snapshot p item)
    (hlive : p.status ≠ .tombstone) (hb : p.base = some base) (hsettled : p.flags = base.flags)
    (hunread : item.flags = .unknown) :
    LeavesMarkers (.ofLoad loaded.placements) p t ↔
      p.flags = .unknown ∨ opts.mayFlags = false ∨ BodyFirst opts p base item := by
  obtain ⟨box, hw⟩ := hs.whole
  have hc : (⟨p.handle, some p, some item⟩ : Candidate) ∈ mergedCandidates loaded snapshot :=
    (mem_mergedCandidates _).mpr hr
  have hp : p.Caches p.flags := by
    refine ⟨rfl, ?_⟩
    rw [ReplicaPlacement.baseFlags, hb, hsettled, Option.map_some]
  obtain ⟨hspares, hsilent⟩ := effect_unread collection hlive hb hp hunread
  rw [← hsilent]
  have hchanges := hw.changes_at hc
  dsimp only at hchanges
  constructor
  · intro hleft f hf
    have hmem : ReplicaChange.new collection (.setFlags p.handle f) ∈
        t.changes.filter (fun k => k.handle = p.handle) := by
      rw [hchanges, hf]
      exact List.mem_singleton_self _
    exact hleft.silent _ (List.mem_filter.mp hmem).1 f (ReplicaChange.new_kind ..)
  · intro hnone
    refine ⟨fun k hk f hf => ?_, fun hu q hq hh => ?_⟩
    · have hmem : k ∈ t.changes.filter (fun k => k.handle = p.handle) := by
        rw [List.mem_filter]
        exact ⟨hk, by simp [ReplicaChange.handle, hf, ReplicaChangeKind.handle]⟩
      rw [hchanges, Option.mem_toList, Option.map_eq_some_iff] at hmem
      obtain ⟨kind, hkind, rfl⟩ := hmem
      rw [ReplicaChange.new_kind] at hf
      exact hnone f (hf ▸ hkind)
    · have hops : .upsertPlacement q ∈ rowOps p.handle t.writes :=
        mem_rowOps.mpr ⟨hq, congrArg some hh⟩
      rw [hw.rowOps_at hc hu, List.mem_append] at hops
      rcases hops with hop | hop
      · exact hspares.writes q (mem_rowOps.mp hop).1 hh
      · split at hop
        · exact hspares.record collection _ q (mem_rowOps.mp hop).1
        · cases hop

section Runs

open StagedEdit

/-- A synced card whose markers were read, one of them set. -/
def flaggedCard : ReplicaPlacement :=
  { card with
    object := some ⟨"old"⟩
    flags := .known {"flagged"}
    status := .clean
    base := some ⟨.known {"flagged"}, some "1", some ⟨"old"⟩⟩ }

/-- The same card, listed by an enumeration that read no markers. -/
def unreadSeam : Seam := Seam.single flaggedCard ⟨[⟨⟨"a"⟩, .unknown, some "1"⟩], [], true, ⟨[]⟩⟩ []

theorem unread_reads : Reads (.ofLoad unreadSeam.rows.placements) unreadSeam.snapshot flaggedCard
    ⟨⟨"a"⟩, .unknown, some "1"⟩ := by
  have hrows : (CollectionRows.ofLoad unreadSeam.rows.placements).rows = unreadSeam.rows.rows :=
    CollectionRows.collect_placements unreadSeam.rows
  rw [Reads, hrows]
  exact reads_of_listed (OrderedMap.get_insert_self _ _ _) rfl (Or.inl rfl)

/-- Over a remote whose markers nobody read, the cached ones of a settled card are pushed. -/
theorem unread_markers_overwritten : ∃ t,
    Syncs card.collection .default ⟨unreadSeam.rows.placements, none⟩ unreadSeam.snapshot t ∧
    Reads (.ofLoad unreadSeam.rows.placements) unreadSeam.snapshot flaggedCard
      ⟨⟨"a"⟩, .unknown, some "1"⟩ ∧
    flaggedCard.status ≠ .tombstone ∧ flaggedCard.baseFlags = some flaggedCard.flags ∧
    (∃ k ∈ t.changes, k.kind = .setFlags ⟨"a"⟩ (.known {"flagged"})) ∧
    ¬ LeavesMarkers (.ofLoad unreadSeam.rows.placements) flaggedCard t := by
  have hrun : (unreadSeam.sync 9 card.collection .default).map
      (fun o => o.2.changes.map (·.kind)) = some [.setFlags ⟨"a"⟩ (.known {"flagged"})] := by
    decide
  obtain ⟨⟨s', t⟩, hd, hkinds⟩ := Option.map_eq_some_iff.mp hrun
  have hmem : ReplicaChangeKind.setFlags ⟨"a"⟩ (.known {"flagged"}) ∈ t.changes.map (·.kind) := by
    rw [hkinds]
    exact List.mem_singleton_self _
  obtain ⟨k, hk, hkind⟩ := List.mem_map.mp hmem
  exact ⟨t, (Seam.sync_syncs hd).1, unread_reads, by decide, rfl, ⟨k, hk, hkind⟩,
    fun hleft => hleft.silent k hk _ hkind⟩

/-- A run that may push no markers leaves the same card its own. -/
theorem unread_markers_withheld : ∃ t,
    Syncs card.collection { ReplicaSyncOptions.default with push := false }
      ⟨unreadSeam.rows.placements, none⟩ unreadSeam.snapshot t ∧
    LeavesMarkers (.ofLoad unreadSeam.rows.placements) flaggedCard t := by
  obtain ⟨fuel, s', t, hd⟩ := Seam.sync_total card.collection
    { ReplicaSyncOptions.default with push := false } unreadSeam
  have hsync := (Seam.sync_syncs hd).1
  exact ⟨t, hsync, (unread_markers_left_iff
    hsync unread_reads (by decide) rfl rfl rfl).mpr (Or.inr (Or.inl rfl))⟩

end Runs
end IoReplica

import IoReplica.Hub.Hydrated
import IoReplica.Hub.Rekeyed
import IoReplica.Sync.Owned

/-! One sync of a source over its projection, absorbed back: what it pushes of an item its remote did
not move, and what the remote and the hub hold of it after. -/
namespace IoReplica

namespace ReplicaSync

/-- What merging a row against the state its base holds hands over: no write, what the row awaits
and the change pushed. -/
structure Hands (collection : ReplicaCollectionId) (opts : ReplicaSyncOptions)
    (p : ReplicaPlacement) (base : ReplicaBase) (awaits : Pending)
    (change : Option ReplicaChangeKind) : Prop where
  writes : (effect collection opts
    ⟨p.handle, some p, some ⟨p.handle, base.flags, base.revision⟩⟩).1.writes = []
  awaits : (effect collection opts
    ⟨p.handle, some p, some ⟨p.handle, base.flags, base.revision⟩⟩).1.pendingAt p.handle = awaits
  change : (effect collection opts
    ⟨p.handle, some p, some ⟨p.handle, base.flags, base.revision⟩⟩).2 = change

variable {collection : ReplicaCollectionId} {opts : ReplicaSyncOptions} {p : ReplicaPlacement}
  {base : ReplicaBase}

/-- A row in sync hands nothing over. -/
theorem hands_clean (hb : p.base = some base) (hs : p.status = .clean) (hf : p.flags = base.flags) :
    Hands collection opts p base .none none := by
  have hquiet : ¬ (p.status = .dirty) := by simp [hs]
  have hmerged : mergedFlags base p ⟨p.handle, base.flags, base.revision⟩ = base.flags := by
    rw [mergedFlags, hf, ReplicaFlags.merge_self]
  rcases effect_unmoved (h := p.handle) hb (Or.inl hs) base.flags collection opts with
    ⟨o, -, hchanged, -⟩ | ⟨-, heffect⟩
  · simp [localChanged, hs] at hchanged
  · obtain ⟨hwrites, hpending, hchange⟩ := (new collection opts).reconcileFlags_spec hb
      ⟨p.handle, base.flags, base.revision⟩ .derive
    have hno : pushesFlags (new collection opts).opts base p
        ⟨p.handle, base.flags, base.revision⟩ .derive = false := by
      simp [pushesFlags, hmerged]
    have hrow : flagRow base p ⟨p.handle, base.flags, base.revision⟩ = none := by
      simp [flagRow, hmerged, hf, hquiet]
    rw [hno, new_pendingAt] at hpending
    rw [hno] at hchange
    rw [hrow] at hwrites
    exact ⟨by rw [heffect, hwrites]; rfl, by rw [heffect, hpending]; rfl,
      by rw [heffect, hchange]; rfl⟩

/-- A staged body goes up, the flags of its row held back. -/
theorem hands_update (hb : p.base = some base) (hs : p.status = .dirty) {o : ReplicaHash}
    (ho : p.object = some o) (he : base.object ≠ some o)
    (hf : p.flags = base.flags ∨ p.flags.isUnknown = false) (hmay : opts.mayContent = true) :
    Hands collection opts p base { Pending.none with content := some p }
      (some (.update p.handle o base.revision)) := by
  have hstaged : StagedEdit p base o ⟨p.handle, base.flags, base.revision⟩ :=
    ⟨hs, hb, ho, he, Or.inr rfl⟩
  have hmerged : mergedFlags base p ⟨p.handle, base.flags, base.revision⟩ = p.flags :=
    ReplicaFlags.merge_base_right hf
  have hrow : flagRow base p ⟨p.handle, base.flags, base.revision⟩ = none := by
    simp only [flagRow, hmerged]
    split
    · rename_i hsame
      simp [hsame, hstaged.contentEdit_eq]
    · simp
  have heffect := hstaged.effect_eq collection opts
  rw [if_pos hmay] at heffect
  obtain ⟨hwrites, hpending, -⟩ :=
    ((new collection opts).stashContent p.handle p).reconcileFlags_spec hb
      ⟨p.handle, base.flags, base.revision⟩ .withhold
  have hno : pushesFlags ((new collection opts).stashContent p.handle p).opts base p
      ⟨p.handle, base.flags, base.revision⟩ .withhold = false := by simp [pushesFlags]
  have hstash : ((new collection opts).stashContent p.handle p).pendingAt p.handle =
      { Pending.none with content := some p } := by
    rw [← new_pendingAt collection opts p.handle]
    simp [pendingAt, stashContent]
  rw [hno, hstash] at hpending
  rw [hrow] at hwrites
  exact ⟨by rw [heffect, hwrites]; rfl, by rw [heffect, hpending]; rfl, by rw [heffect]⟩

/-- Flags alone go up as a flag push. -/
theorem hands_setFlags (hb : p.base = some base) (hs : p.status = .dirty)
    (ho : p.object = base.object) (hf : p.flags ≠ base.flags) (hk : p.flags.isUnknown = false)
    (hmay : opts.mayFlags = true) :
    Hands collection opts p base { Pending.none with flags := some p }
      (some (.setFlags p.handle p.flags)) := by
  have hmerged : mergedFlags base p ⟨p.handle, base.flags, base.revision⟩ = p.flags :=
    ReplicaFlags.merge_base_right (Or.inr hk)
  have hself : { p with flags := p.flags } = p := rfl
  rcases effect_unmoved (h := p.handle) hb (Or.inr hs) base.flags collection opts with
    ⟨o, -, hchanged, -⟩ | ⟨-, heffect⟩
  · simp [localChanged, ho] at hchanged
  · obtain ⟨hwrites, hpending, hchange⟩ := (new collection opts).reconcileFlags_spec hb
      ⟨p.handle, base.flags, base.revision⟩ .derive
    have hpush : pushesFlags (new collection opts).opts base p
        ⟨p.handle, base.flags, base.revision⟩ .derive = true := by
      have hopts : (new collection opts).opts = opts := rfl
      simp [pushesFlags, hmerged, hf, hopts, hmay]
    have hrow : flagRow base p ⟨p.handle, base.flags, base.revision⟩ = none := by
      simp [flagRow, hmerged, hf]
    rw [hpush, new_pendingAt, hmerged, hself] at hpending
    rw [hpush, hmerged] at hchange
    rw [hrow] at hwrites
    exact ⟨by rw [heffect, hwrites]; rfl, by rw [heffect, hpending]; rfl,
      by rw [heffect, hchange]; rfl⟩

/-- A row deleted elsewhere goes up as a plain remove. -/
theorem hands_remove (hb : p.base = some base) (hs : p.status = .tombstone)
    (ho : p.origin = none) (hmay : opts.mayRemove = true) :
    Hands collection opts p base { Pending.none with dropped := true }
      (some (.remove p.handle none p.linkId base.revision)) := by
  have hopts : (new collection opts).opts = opts := rfl
  have hrevision : p.baseRevision = base.revision := by simp [ReplicaPlacement.baseRevision, hb]
  have hmoved : movedFrom ⟨p.handle, base.flags, base.revision⟩ base.revision = false := by
    simp [movedFrom]
  have heffect : effect collection opts
      ⟨p.handle, some p, some ⟨p.handle, base.flags, base.revision⟩⟩ =
        ((new collection opts).stashDrop p.handle,
          some (.remove p.handle none p.linkId base.revision)) := by
    rw [effect, merge_tombstone _ _ hs]
    simp [hb, mergeTombstone, hrevision, hmoved, ho, hopts, hmay]
  have hstash : ((new collection opts).stashDrop p.handle).pendingAt p.handle =
      { Pending.none with dropped := true } := by
    rw [← new_pendingAt collection opts p.handle]
    simp [pendingAt, stashDrop, awaitsDrop]
  exact ⟨by rw [heffect]; rfl, by rw [heffect]; exact hstash, by rw [heffect]⟩

end ReplicaSync

namespace ReplicaHub

variable {hub : ReplicaHub} {source : ReplicaSourceId} {link : ReplicaLinkId} {h : ReplicaHandle}
  {policy : ReplicaHubConflict} {item : Option ReplicaHubItem} {op : ReplicaWriteOp}

/-- The item is bound to the source under this handle, if at all. -/
def Under (source : ReplicaSourceId) (h : ReplicaHandle) (item : Option ReplicaHubItem) : Prop :=
  ∀ binding, item.bind (·.sources[source]?) = some binding → binding.handle = h

/-- An op that leaves a row and its link id to others leaves the item it is bound to. -/
theorem cell_elsewhere (hu : Under source h item) (hop : op.Elsewhere h link) :
    cell policy source link item op = item := by
  cases op with
  | storeObject | setCheckpoint => rfl
  | upsertPlacement p => rw [cell, if_neg (hop.2 p rfl)]
  | dropPlacement c g reason =>
    cases item with
    | none => rfl
    | some item =>
      have hne : item.boundTo source g = false := by
        rw [← Bool.not_eq_true, ReplicaHubItem.boundTo_iff, Option.map_eq_some_iff]
        rintro ⟨binding, hb, rfl⟩
        exact hop.1 (congrArg some (hu binding hb))
      rw [cell, Option.map_some, ReplicaHubItem.dropBinding_of_ne hne]

/-- The ops of a row bind its item under its handle, or not at all. -/
theorem cell_under (policy : ReplicaHubConflict) (hu : Under source h item)
    (hop : op.row = some h ∨ op.Elsewhere h link) :
    Under source h (cell policy source link item op) := by
  rcases hop with hrow | helsewhere
  · cases op with
    | storeObject | setCheckpoint => cases hrow
    | upsertPlacement p =>
      rw [cell]
      split
      · intro binding hb
        rw [Option.bind_some, ReplicaHubItem.absorb_sources, if_pos rfl] at hb
        cases hb
        exact Option.some.inj hrow
      · exact hu
    | dropPlacement c g reason =>
      cases item with
      | none => exact hu
      | some item =>
        intro binding hb
        refine hu binding ?_
        simp only [cell, Option.map_some, Option.bind_some, ReplicaHubItem.dropBinding] at hb
        split at hb
        · simp at hb
        · exact hb
  · rw [cell_elsewhere hu helsewhere]
    exact hu

/-- A batch makes of an item what the ops of its row do. -/
theorem cells_rowOps (policy : ReplicaHubConflict) {ops : List ReplicaWriteOp}
    (hu : Under source h item)
    (hops : ∀ op ∈ ops, op.row = some h ∨ op.Elsewhere h link) :
    ops.foldl (cell policy source link) item =
        (rowOps h ops).foldl (cell policy source link) item ∧
      Under source h (ops.foldl (cell policy source link) item) := by
  induction ops generalizing item with
  | nil => exact ⟨rfl, hu⟩
  | cons op ops ih =>
    have hop := hops op List.mem_cons_self
    obtain ⟨hrest, hunder⟩ := ih (cell_under policy hu hop)
      (fun o ho => hops o (List.mem_cons_of_mem _ ho))
    refine ⟨?_, hunder⟩
    rw [List.foldl_cons, hrest]
    by_cases hrow : op.row = some h
    · rw [rowOps, rowOps, List.filter_cons_of_pos (by simpa using hrow), List.foldl_cons]
    · rw [cell_elsewhere hu (hop.resolve_left hrow), rowOps, rowOps,
        List.filter_cons_of_neg (by simpa using hrow)]

/-- Batches that write a row at most once make of its item what that op does, pruned. -/
theorem absorbs_rowOps (batches : List (List ReplicaWriteOp))
    (hu : Under source h hub.items[link]?)
    (hkept : hub.items[link]?.filter (fun item => !item.sources.isEmpty) = hub.items[link]?)
    (hops : ∀ op ∈ batches.flatten, op.row = some h ∨ op.Elsewhere h link)
    (hone : (rowOps h batches.flatten).length ≤ 1) :
    (hub.absorbs (batches.map (fun ops => (source, ops)))).items[link]? =
      ((rowOps h batches.flatten).foldl (cell hub.conflict source link) hub.items[link]?).filter
        (fun item => !item.sources.isEmpty) := by
  induction batches generalizing hub with
  | nil => exact hkept.symm
  | cons ops batches ih =>
    rw [List.flatten_cons] at hops hone
    rw [rowOps_append, List.length_append] at hone
    obtain ⟨hget, hconflict⟩ := hub.absorb_get source link ops
    obtain ⟨hfold, hunder⟩ := cells_rowOps hub.conflict hu
      (fun op hop => hops op (List.mem_append_left _ hop))
    have hnext : Under source h (hub.absorb source ops).items[link]? := by
      intro binding hb
      refine hunder binding ?_
      rw [hget] at hb
      obtain ⟨item, hitem, hbound⟩ := Option.bind_eq_some_iff.mp hb
      rw [Option.filter_eq_some_iff] at hitem
      rw [hitem.1]
      exact hbound
    have hpruned : (hub.absorb source ops).items[link]?.filter
        (fun item => !item.sources.isEmpty) = (hub.absorb source ops).items[link]? := by
      rw [hget, Option.filter_filter]
      simp
    have hrest := ih hnext hpruned (fun op hop => hops op (List.mem_append_right _ hop)) (by omega)
    have hstep : (hub.absorbs ((ops :: batches).map (fun ops => (source, ops)))).items[link]? =
        ((hub.absorb source ops).absorbs (batches.map (fun ops => (source, ops)))).items[link]? :=
      rfl
    rw [hstep, hrest, hconflict, hget, hfold, List.flatten_cons, rowOps_append, List.foldl_append]
    cases hown : rowOps h ops with
    | nil =>
      rw [List.foldl_nil, hkept]
    | cons op own =>
      have hnone : rowOps h batches.flatten = [] := by
        rw [hown, List.length_cons] at hone
        exact List.eq_nil_of_length_eq_zero (by omega)
      rw [hnone, List.foldl_nil, List.foldl_nil, Option.filter_filter]
      simp

end ReplicaHub

/-- What a remote holds of one member. -/
structure RemoteMember where
  flags : ReplicaFlags
  revision : Option String
  object : Option ReplicaHash

/-- The changes a run pushed for an item: those of its handle, and any other carrying its link
id. -/
def Transcript.pushedFor (t : Transcript) (h : ReplicaHandle) (link : ReplicaLinkId) :
    List ReplicaChangeKind :=
  (t.changes.filter (fun k => k.handle = h ∨ k.kind.linkId = some link)).map (·.kind)

namespace RemoteMember

/-- The member after an accepted change: a pushed body stands at the revision the result reports. -/
def serve (m : RemoteMember) (revision : Option String) : ReplicaChangeKind → Option RemoteMember
  | .add .. => some m
  | .remove .. => none
  | .setFlags _ flags => some { m with flags := flags }
  | .update _ object _ => some { m with revision := revision, object := some object }

/-- The member after a run whose changes of it were all accepted. -/
def after (h : ReplicaHandle) (t : Transcript) (m : Option RemoteMember) : Option RemoteMember :=
  (t.changes.filter (fun k => k.handle = h)).foldl
    (fun m k => m.bind (·.serve ((Outbox.confirmation h t.pushes).bind (·.revision)) k.kind)) m

/-- What a snapshot says of the member: its state, or nothing of one the remote removed. -/
def Told (snapshot : ReplicaRemoteSnapshot) (h : ReplicaHandle) : Option RemoteMember → Prop
  | some m => StillAt snapshot h m.flags m.revision
  | none => snapshot.reported h = none

end RemoteMember

/-- The member a binding's base describes. -/
def ReplicaSourceBinding.member (binding : ReplicaSourceBinding) : Option RemoteMember :=
  binding.base.map (fun b => ⟨b.flags, b.revision, b.object⟩)

/-- What an item owes a source bound to it, in the order its syncs push it: its removal where it was
deleted, else its body where the source's base holds another, then its flags where they differ. -/
def ReplicaHubItem.owed (item : ReplicaHubItem) (link : ReplicaLinkId)
    (binding : ReplicaSourceBinding) : List ReplicaChangeKind :=
  let revision := binding.base.bind (·.revision)
  if item.deleted then [.remove binding.handle none (some link) revision]
  else
    (if binding.base.bind (·.object) = item.object then []
      else (item.object.map (fun o => .update binding.handle o revision)).toList) ++
    (if binding.base.map (·.flags) = some item.flags then []
      else [.setFlags binding.handle item.flags])

/-- One completed sync of a source over its projection, with all rights, every push accepted, and
absorbed back batch by batch: the item's handle is its own, and no other row of the run is written
onto it or its link id. -/
structure Delivery (collection : ReplicaCollectionId) (source : ReplicaSourceId)
    (link : ReplicaLinkId) (h : ReplicaHandle) (hub : ReplicaHub) (m : Option RemoteMember)
    (t : Transcript) (hub' : ReplicaHub) (m' : Option RemoteMember) : Prop where
  syncs : ∃ opts loaded snapshot, opts.push = true ∧ opts.rights = .all ∧
    loaded.placements = hub.project collection source ∧
    Syncs collection opts loaded snapshot t ∧ RemoteMember.Told snapshot h m
  accepted : ∀ k ∈ t.changes, (Outbox.confirmation k.handle t.pushes).isSome
  absorbed : hub' = hub.absorbs (t.batches.map (fun ops => (source, ops)))
  served : m' = RemoteMember.after h t m
  alone : ∀ p ∈ hub.project collection source, p.handle = h → p.linkId = some link
  undisturbed : Undisturbed (.ofLoad (hub.project collection source)) h t
  unforked : ∀ p ∈ hub.project collection source, p.handle ≠ h → ∀ o, p.object = some o →
    ReplicaSync.keepBothLink o ≠ link

/-- What a run makes of an item: its writes confined to the item's row or elsewhere, that row's the
record of what it awaited, and one change at most pushed for it. -/
structure Handed (collection : ReplicaCollectionId) (link : ReplicaLinkId) (h : ReplicaHandle)
    (t : Transcript) (awaits : Pending) (change : Option ReplicaChangeKind) : Prop where
  confined : ∀ op ∈ t.writes, op.row = some h ∨ op.Elsewhere h link
  ops : rowOps h t.writes = match Outbox.confirmation h t.pushes with
    | some r => rowOps h (awaits.record collection r)
    | none => []
  changes : t.changes.filter (fun k => k.handle = h) =
    (change.map (ReplicaChange.new collection)).toList
  named : t.pushedFor h link = change.toList

namespace Delivery

open ReplicaSync

variable {hub hub' : ReplicaHub} {collection : ReplicaCollectionId} {source : ReplicaSourceId}
  {link : ReplicaLinkId} {h : ReplicaHandle} {item : ReplicaHubItem}
  {m m' : Option RemoteMember} {t : Transcript} {p : ReplicaPlacement} {base : ReplicaBase}

/-- The rows of other handles are apart from an item that stands under its own. -/
theorem others (d : Delivery collection source link h hub m t hub' m')
    (hlinked : ∀ q ∈ hub.project collection source, q.linkId = some link → q.handle = h)
    (f : ReplicaHandle) (q : ReplicaPlacement)
    (hq : (collectPlacements (hub.project collection source))[f]? = some q) (hf : f ≠ h) :
    Apart link q := by
  have hmem := CollectionRows.mem_of_collect hq
  have hh : q.handle ≠ h := fun hh => hf ((CollectionRows.collect_keyed hq).symm.trans hh)
  exact ⟨fun hl => hh (hlinked q hmem hl), d.unforked q hmem hh⟩

/-- A run names the link id of an item only with its handle. -/
theorem pushedFor_eq {opts : ReplicaSyncOptions} {loaded : ReplicaLoaded}
    {snapshot : ReplicaRemoteSnapshot} {box : Outbox}
    (hwhole : WholeRun collection opts loaded snapshot t box)
    (hlinked : ∀ q ∈ loaded.placements, q.linkId = some link → q.handle = h) :
    t.pushedFor h link = (t.changes.filter (fun k => k.handle = h)).map (·.kind) := by
  rw [Transcript.pushedFor]
  refine congrArg _ (List.filter_congr ?_)
  intro k hk
  have himp : k.kind.linkId = some link → k.handle = h := by
    intro hl
    obtain ⟨c, hc, hh, hchange⟩ := hwhole.mem_changes.mp hk
    obtain ⟨kind, hderived, rfl⟩ := Option.map_eq_some_iff.mp hchange
    obtain ⟨q, hq, hql⟩ := effect_linkId hderived hl
    rw [mem_mergedCandidates] at hc
    have hloc := (Merge.candidateAt_spec hc).2
    rw [hq] at hloc
    have hown := hlinked q (CollectionRows.mem_of_collect hloc.symm) hql
    rw [← hh, ← CollectionRows.collect_keyed hloc.symm]
    exact hown
  by_cases hh : k.handle = h <;> simp [hh]
  exact fun hl => hh (himp hl)

/-- A run whose handle no candidate stands under makes nothing of the item. -/
theorem handed_away (d : Delivery collection source link h hub m t hub' m')
    (hlinked : ∀ q ∈ hub.project collection source, q.linkId = some link → q.handle = h)
    {opts : ReplicaSyncOptions} {loaded : ReplicaLoaded} {snapshot : ReplicaRemoteSnapshot}
    (hl : loaded.placements = hub.project collection source)
    (hsync : Syncs collection opts loaded snapshot t)
    (hc : Merge.candidateAt (collectPlacements loaded.placements) snapshot h = none) :
    Handed collection link h t .none none := by
  obtain ⟨box, hwhole⟩ := hsync.whole
  have hu := d.undisturbed
  have hothers := d.others hlinked
  rw [← hl] at hu hothers hlinked
  have haway : ∀ c ∈ mergedCandidates loaded snapshot, c.handle ≠ h := by
    intro c hin hh
    rw [mem_mergedCandidates, hh, hc] at hin
    cases hin
  have hnone : t.changes.filter (fun k => k.handle = h) = [] := by
    rw [List.filter_eq_nil_iff]
    intro k hk hkh
    obtain ⟨c, hin, hh, -⟩ := hwhole.mem_changes.mp hk
    exact haway c hin (hh.trans (of_decide_eq_true hkh))
  refine ⟨?_, ?_, hnone, ?_⟩
  · intro op hop
    rcases hwhole.sources hu hothers hop with ⟨c, hin, hh, -⟩ | ⟨r, -, hop⟩ | helsewhere
    · exact absurd hh (haway c hin)
    · rw [hwhole.idle h haway, Pending.record_none] at hop
      cases hop
    · exact Or.inr helsewhere
  · rw [hwhole.rowOps_away haway hu]
    split <;> rfl
  · rw [pushedFor_eq hwhole hlinked, hnone]
    rfl

/-- A run makes of an item what merging its row hands over. -/
theorem handed (d : Delivery collection source link h hub m t hub' m')
    (hrow : (collectPlacements (hub.project collection source))[h]? = some p)
    (hlinked : ∀ q ∈ hub.project collection source, q.linkId = some link → q.handle = h)
    (hb : p.base = some base) (hm : m = some ⟨base.flags, base.revision, base.object⟩)
    (hcr : p.conflictRevision = none) {awaits : Pending} {change : Option ReplicaChangeKind}
    (hands : ∀ opts : ReplicaSyncOptions, opts.push = true → opts.rights = .all →
      Hands collection opts p base awaits change)
    (hidle : p.status = .clean → awaits = .none ∧ change = none)
    (hcreated : awaits.created = none) :
    Handed collection link h t awaits change := by
  obtain ⟨opts, loaded, snapshot, hpush, hrights, hl, hsync, htold⟩ := d.syncs
  have hph := CollectionRows.collect_keyed hrow
  rw [← hl] at hrow
  rw [hm] at htold
  have hstill : StillAt snapshot h base.flags base.revision := htold
  cases hc : Merge.candidateAt (collectPlacements loaded.placements) snapshot h with
  | none =>
    have hclean : p.status = .clean := by
      by_contra hne
      obtain ⟨c, hsome⟩ := exists_candidate snapshot hrow hne
      rw [hc] at hsome
      cases hsome
    obtain ⟨rfl, rfl⟩ := hidle hclean
    exact d.handed_away hlinked hl hsync hc
  | some c =>
    obtain ⟨told, htold, rfl⟩ := hstill.candidate hrow hb hcr hc
    have htold : told = base.flags := htold.elim id id
    subst htold
    subst hph
    obtain ⟨hwrites, hpending, hchange⟩ := hands opts hpush hrights
    obtain ⟨box, hwhole⟩ := hsync.whole
    have hu := d.undisturbed
    have hothers := d.others hlinked
    rw [← hl] at hu hothers hlinked
    have hin : (⟨p.handle, some p, some ⟨p.handle, base.flags, base.revision⟩⟩ : Candidate) ∈
        mergedCandidates loaded snapshot := (mem_mergedCandidates _).mpr hc
    have hbox := hwhole.awaits _ hin
    have hops := hwhole.rowOps_at hin hu
    have hchanges := hwhole.changes_at hin
    dsimp only at hbox hops hchanges
    rw [hpending] at hbox hops
    rw [hwrites] at hops
    rw [hchange] at hchanges
    refine ⟨?_, hops, hchanges, ?_⟩
    · intro op hop
      rcases hwhole.sources hu hothers hop with ⟨c, hcin, hh, hop⟩ | ⟨r, hr, hop⟩ | helsewhere
      · rw [mergedCandidates_unique hcin hin hh, hwrites] at hop
        cases hop
      · rw [← hr] at hop
        rcases Outbox.record_row (hwhole.placed r.handle) hop with hown | ⟨-, hsome⟩
        · exact Or.inl (hown.trans (congrArg some hr))
        · rw [hr, hbox, hcreated] at hsome
          cases hsome
      · exact Or.inr helsewhere
    · rw [pushedFor_eq hwhole hlinked, hchanges]
      cases change <;> rfl

/-- The change of an item is accepted, by a result of its handle. -/
theorem confirmed (d : Delivery collection source link h hub m t hub' m') {awaits : Pending}
    {kind : ReplicaChangeKind} (hd : Handed collection link h t awaits (some kind)) :
    ∃ r, Outbox.confirmation h t.pushes = some r ∧ r.handle = h := by
  have hk : ReplicaChange.new collection kind ∈ t.changes.filter (fun k => k.handle = h) := by
    rw [hd.changes]
    exact List.mem_singleton_self _
  obtain ⟨hin, hh⟩ := List.mem_filter.mp hk
  have hh : (ReplicaChange.new collection kind).handle = h := of_decide_eq_true hh
  have hsome := d.accepted _ hin
  rw [hh] at hsome
  obtain ⟨r, hr⟩ := Option.isSome_iff_exists.mp hsome
  have hconfirms := List.find?_some hr
  simp only [ReplicaPushResult.confirms, decide_eq_true_eq] at hconfirms
  exact ⟨r, hr, hconfirms.2⟩

/-- What the hub holds of the item after a run that writes its row at most once. -/
theorem leaves (d : Delivery collection source link h hub m t hub' m')
    (hitem : hub.items[link]? = some item) {binding : ReplicaSourceBinding}
    (hb : item.sources[source]? = some binding) (hh : binding.handle = h) {awaits : Pending}
    {change : Option ReplicaChangeKind} (hd : Handed collection link h t awaits change)
    {ops : List ReplicaWriteOp} (hops : rowOps h t.writes = ops) (hone : ops.length ≤ 1) :
    hub'.items[link]? = (ops.foldl (ReplicaHub.cell hub.conflict source link) (some item)).filter
      (fun item => !item.sources.isEmpty) := by
  have hflat := t.flatten_batches
  have hunder : ReplicaHub.Under source h hub.items[link]? := by
    intro b hbound
    rw [hitem, Option.bind_some, hb] at hbound
    cases hbound
    exact hh
  have hkept : hub.items[link]?.filter (fun item => !item.sources.isEmpty) = hub.items[link]? := by
    rw [hitem, Option.filter_some, if_pos (ReplicaHub.held_of_binding hb)]
  have habsorbed := ReplicaHub.absorbs_rowOps t.batches hunder hkept
    (by rw [hflat]; exact hd.confined) (by rw [hflat, hops]; exact hone)
  rw [d.absorbed, habsorbed, hflat, hops, hitem]

/-- What the remote holds of the item after its one change. -/
theorem member (d : Delivery collection source link h hub m t hub' m') {awaits : Pending}
    {change : Option ReplicaChangeKind} (hd : Handed collection link h t awaits change) :
    m' = match change with
      | some kind =>
        m.bind (·.serve ((Outbox.confirmation h t.pushes).bind (·.revision)) kind)
      | none => m := by
  rw [d.served, RemoteMember.after, hd.changes]
  cases change <;> rfl

end Delivery

/-- A live item bound to a source whose remote stands where the binding's base does. -/
structure Owing (hub : ReplicaHub) (source : ReplicaSourceId) (link : ReplicaLinkId)
    (item : ReplicaHubItem) (binding : ReplicaSourceBinding) (m : Option RemoteMember) : Prop where
  shared : hub.items[link]? = some item
  bound : item.sources[source]? = some binding
  settled : binding.conflicted = false
  quiet : binding.conflictRevision = none
  based : ∃ base, binding.base = some base ∧ m = some ⟨base.flags, base.revision, base.object⟩ ∧
    (item.deleted = false → (item.flags = base.flags ∨ item.flags.isUnknown = false) ∧
      (item.object = base.object ∨ item.object.isSome))

/-- An item deleted elsewhere that the source is bound to no more. -/
structure Gone (hub : ReplicaHub) (source : ReplicaSourceId) (link : ReplicaLinkId) : Prop where
  unbound : ∀ item : ReplicaHubItem, hub.items[link]? = some item →
    item.deleted = true ∧ item.sources[source]? = none
  kept : hub.items[link]?.filter (fun item => !item.sources.isEmpty) = hub.items[link]?

/-- A row that states what an item shares, over a base of its own. -/
structure States (item : ReplicaHubItem) (link : ReplicaLinkId) (base : ReplicaBase)
    (q : ReplicaPlacement) : Prop where
  linkId : q.linkId = some link
  live : q.status ≠ .tombstone
  settled : q.status ≠ .conflict
  flags : q.flags = item.flags
  object : q.object = item.object
  base : q.base = some base

/-- Absorbing such a row moves the binding's base and nothing shared. -/
theorem States.absorb {item : ReplicaHubItem} {link : ReplicaLinkId} {base : ReplicaBase}
    {q : ReplicaPlacement} (h : States item link base q) (policy : ReplicaHubConflict)
    (source : ReplicaSourceId) :
    (item.absorb policy source q).deleted = false ∧
      (item.absorb policy source q).flags = item.flags ∧
      (item.absorb policy source q).object = item.object ∧
      ∃ binding, (item.absorb policy source q).sources[source]? = some binding ∧
        binding.handle = q.handle ∧ binding.conflicted = false ∧
        binding.conflictRevision = none ∧ binding.base = some base := by
  refine ⟨?_, ?_, item.absorb_same policy source h.live h.object, ?_⟩
  · rw [ReplicaHubItem.absorb_deleted]
    simpa using h.live
  · rw [(item.absorb_shared policy source h.live).1]
    simp only [ReplicaHubItem.refresh, h.flags]
    split <;> rfl
  · have hb := item.absorb_sources policy source q source
    rw [if_pos rfl] at hb
    refine ⟨_, hb, rfl, ?_, ?_, h.base⟩
    · simp [ReplicaHubItem.bindingOf, h.settled]
    · simp [ReplicaHubItem.bindingOf, h.settled]

namespace Owing

open ReplicaSync

variable {hub hub' : ReplicaHub} {collection : ReplicaCollectionId} {source : ReplicaSourceId}
  {link : ReplicaLinkId} {item : ReplicaHubItem} {binding : ReplicaSourceBinding}
  {m m' : Option RemoteMember} {t : Transcript} {p : ReplicaPlacement} {base : ReplicaBase}

/-- The item's row is the one its source loads under the binding's handle. -/
theorem row (ho : Owing hub source link item binding m)
    (d : Delivery collection source link binding.handle hub m t hub' m')
    (hp : item.placement collection link source = some p) :
    (collectPlacements (hub.project collection source))[binding.handle]? = some p ∧
      ∀ q ∈ hub.project collection source, q.linkId = some link → q.handle = binding.handle := by
  obtain ⟨q, hq, hh, -⟩ := HubStore.placement_bound collection link item ho.bound
  rw [hp, Option.some.injEq] at hq
  subst hq
  have hown : ∀ q ∈ hub.project collection source, q.linkId = some link → q = p := by
    intro q hq hl
    have hplaced := ReplicaHub.project_linked ho.shared hq hl
    rw [hp, Option.some.injEq] at hplaced
    exact hplaced.symm
  have hmem : p ∈ hub.project collection source :=
    ReplicaHub.mem_project.mpr ⟨link, item, ho.shared, hp⟩
  refine ⟨?_, fun q hq hl => by rw [hown q hq hl]; exact hh⟩
  rw [← hh]
  exact CollectionRows.collect_only hmem
    (fun q hq hqh => hown q hq (d.alone q hq (hqh.trans hh)))

/-- What one sync leaves of a live item: its first due pushed and no more owed, nothing shared
moved. -/
structure Pays (collection : ReplicaCollectionId) (source : ReplicaSourceId) (link : ReplicaLinkId)
    (item : ReplicaHubItem) (binding : ReplicaSourceBinding) (t : Transcript) (hub' : ReplicaHub)
    (m' : Option RemoteMember) (item' : ReplicaHubItem) (binding' : ReplicaSourceBinding) :
    Prop where
  owing : Owing hub' source link item' binding' m'
  live : item'.deleted = false
  flags : item'.flags = item.flags
  object : item'.object = item.object
  handle : binding'.handle = binding.handle
  pushed : t.pushedFor binding.handle link = (item.owed link binding).head?.toList
  owed : item'.owed link binding' = (item.owed link binding).tail

/-- A run whose one write of the item states it over a new base. -/
theorem pays_of_states (ho : Owing hub source link item binding m)
    (d : Delivery collection source link binding.handle hub m t hub' m') {awaits : Pending}
    {change : Option ReplicaChangeKind}
    (hd : Handed collection link binding.handle t awaits change) {q : ReplicaPlacement}
    (hq : States item link base q) (hh : q.handle = binding.handle)
    (hops : rowOps binding.handle t.writes = [.upsertPlacement q])
    (hm : m' = some ⟨base.flags, base.revision, base.object⟩)
    (hknown : (item.flags = base.flags ∨ item.flags.isUnknown = false) ∧
      (item.object = base.object ∨ item.object.isSome))
    (hpushed : change.toList = (item.owed link binding).head?.toList)
    (howed : ∀ (item' : ReplicaHubItem) (binding' : ReplicaSourceBinding),
      item'.deleted = false → item'.flags = item.flags → item'.object = item.object →
      binding'.handle = binding.handle → binding'.base = some base →
      item'.owed link binding' = (item.owed link binding).tail) :
    ∃ item' binding', Pays collection source link item binding t hub' m' item' binding' := by
  have hleaves := d.leaves ho.shared ho.bound rfl hd hops (by simp)
  rw [List.foldl_cons, List.foldl_nil, ReplicaHub.cell, if_pos hq.linkId,
    Option.getD_some] at hleaves
  obtain ⟨hlive, hflags, hobject, b, hb, hbh, hsettled, hquiet, hbase⟩ :=
    hq.absorb hub.conflict source
  rw [Option.filter_some, if_pos (ReplicaHub.held_of_binding hb)] at hleaves
  refine ⟨_, b, ⟨⟨hleaves, hb, hsettled, hquiet, base, hbase, hm, ?_⟩, hlive, hflags, hobject,
    hbh.trans hh, hd.named.trans hpushed,
    howed _ b hlive hflags hobject (hbh.trans hh) hbase⟩⟩
  intro _
  rw [hflags, hobject]
  exact hknown

theorem owed_live (hlive : item.deleted = false) (hbase : binding.base = some base) :
    item.owed link binding = (if base.object = item.object then []
      else (item.object.map (fun o => .update binding.handle o base.revision)).toList) ++
        (if base.flags = item.flags then [] else [.setFlags binding.handle item.flags]) := by
  simp [ReplicaHubItem.owed, hlive, hbase]

/-- A base that holds the shared body leaves the flags alone to owe. -/
theorem owed_flags {item' : ReplicaHubItem} {binding' : ReplicaSourceBinding}
    (hlive : item'.deleted = false) (hbase : binding'.base = some base)
    (hbody : base.object = item'.object) :
    item'.owed link binding' =
      if base.flags = item'.flags then [] else [.setFlags binding'.handle item'.flags] := by
  rw [owed_live hlive hbase, if_pos hbody, List.nil_append]

theorem status_live (ho : Owing hub source link item binding m)
    (collection : ReplicaCollectionId) (hbase : binding.base = some base) :
    (item.boundPlacement collection link binding).status =
      if base.flags = item.flags ∧ base.object = item.object then .clean else .dirty := by
  have hown : (item.boundPlacement collection link binding).status = item.boundStatus binding := rfl
  rw [hown, ReplicaHubItem.boundStatus, ho.settled, hbase]
  simp [ReplicaHubItem.inSync, hbase]

theorem row_live (ho : Owing hub source link item binding m) (hlive : item.deleted = false)
    (d : Delivery collection source link binding.handle hub m t hub' m') :
    (collectPlacements (hub.project collection source))[binding.handle]? =
        some (item.boundPlacement collection link binding) ∧
      ∀ q ∈ hub.project collection source, q.linkId = some link → q.handle = binding.handle :=
  ho.row d (by simp only [ReplicaHubItem.placement, hlive, ho.bound])

/-- An item in sync is left as it stands. -/
theorem step_clean (ho : Owing hub source link item binding m) (hlive : item.deleted = false)
    (hbase : binding.base = some base) (hm : m = some ⟨base.flags, base.revision, base.object⟩)
    (hset : base.flags = item.flags) (hbody : base.object = item.object)
    (d : Delivery collection source link binding.handle hub m t hub' m') :
    ∃ item' binding', Pays collection source link item binding t hub' m' item' binding' := by
  obtain ⟨hrow, hlinked⟩ := ho.row_live hlive d
  have hpbase : (item.boundPlacement collection link binding).base = some base := hbase
  have hclean := ho.status_live collection hbase
  rw [if_pos ⟨hset, hbody⟩] at hclean
  have hd := d.handed hrow hlinked hpbase hm ho.quiet
    (fun opts _ _ => hands_clean hpbase hclean hset.symm) (fun _ => ⟨rfl, rfl⟩) rfl
  have hops : rowOps binding.handle t.writes = [] := by
    rw [hd.ops]
    split <;> rfl
  have hleaves := d.leaves ho.shared ho.bound rfl hd hops (by simp)
  rw [List.foldl_nil, Option.filter_some, if_pos (ReplicaHub.held_of_binding ho.bound)] at hleaves
  have hsame : m' = m := d.member hd
  have hnothing : item.owed link binding = [] := by
    rw [owed_flags hlive hbase hbody, if_pos hset]
  refine ⟨item, binding, ⟨⟨hleaves, ho.bound, ho.settled, ho.quiet, base, hbase,
    hsame.trans hm, fun _ => ⟨Or.inl hset.symm, Or.inl hbody.symm⟩⟩, hlive, rfl, rfl, rfl, ?_, ?_⟩⟩
  · rw [hd.named, hnothing]
    rfl
  · rw [hnothing]
    rfl

/-- Flags alone are pushed, and their rebase recorded. -/
theorem step_flags (ho : Owing hub source link item binding m) (hlive : item.deleted = false)
    (hbase : binding.base = some base) (hm : m = some ⟨base.flags, base.revision, base.object⟩)
    (hset : base.flags ≠ item.flags) (hknown : item.flags.isUnknown = false)
    (hbody : base.object = item.object)
    (d : Delivery collection source link binding.handle hub m t hub' m') :
    ∃ item' binding', Pays collection source link item binding t hub' m' item' binding' := by
  obtain ⟨hrow, hlinked⟩ := ho.row_live hlive d
  have hdirty := ho.status_live collection hbase
  rw [if_neg (fun hin => hset hin.1)] at hdirty
  generalize hp : item.boundPlacement collection link binding = p at hrow hdirty
  have hpbase : p.base = some base := by rw [← hp]; exact hbase
  have hpflags : p.flags = item.flags := by rw [← hp]; rfl
  have hpobject : p.object = item.object := by rw [← hp]; rfl
  have hplink : p.linkId = some link := by rw [← hp]; rfl
  have hph : p.handle = binding.handle := by rw [← hp]; rfl
  have hd := d.handed hrow hlinked hpbase hm (by rw [← hp]; exact ho.quiet)
    (fun opts hpush hrights => hands_setFlags hpbase hdirty (hpobject.trans hbody.symm)
      (by rw [hpflags]; exact Ne.symm hset) (by rw [hpflags]; exact hknown)
      (by simp [ReplicaSyncOptions.mayFlags, hpush, hrights, ReplicaPushRights.all]))
    (fun hc => by rw [hdirty] at hc; cases hc) rfl
  obtain ⟨r, hr, -⟩ := d.confirmed hd
  have hops : rowOps binding.handle t.writes = [.upsertPlacement (Pending.flagsRebased p)] := by
    rw [hd.ops, hr]
    have hrebased : (Pending.flagsRebased p).handle = binding.handle := hph
    simp [Pending.record, Pending.none, rowOps, hrebased]
  have hstates : States item link ⟨item.flags, base.revision, base.object⟩
      (Pending.flagsRebased p) := by
    refine ⟨hplink, ?_, ?_, hpflags, hpobject, ?_⟩
    · simp [Pending.flagsRebased, settledStatus, hdirty]
    · simp [Pending.flagsRebased, settledStatus, hdirty]
    · simp [Pending.flagsRebased, flagBase, hpflags, ReplicaPlacement.baseRevision,
        ReplicaPlacement.baseObject, hpbase]
  have hserved : m' = some ⟨item.flags, base.revision, base.object⟩ := by
    rw [d.member hd, hm, ← hpflags]
    rfl
  refine ho.pays_of_states d hd hstates hph hops hserved ⟨Or.inl rfl, Or.inl hbody.symm⟩ ?_ ?_
  · rw [owed_flags hlive hbase hbody, if_neg hset, hph, hpflags]
    rfl
  · intro item' binding' hl hf hob hh hb
    rw [owed_flags hl hb (hbody.trans hob.symm), owed_flags hlive hbase hbody, if_neg hset,
      if_pos hf.symm]
    rfl

/-- A body goes up first, the flags of its row held back. -/
theorem step_body (ho : Owing hub source link item binding m) (hlive : item.deleted = false)
    (hbase : binding.base = some base) (hm : m = some ⟨base.flags, base.revision, base.object⟩)
    (hflags : item.flags = base.flags ∨ item.flags.isUnknown = false)
    (hbody : base.object ≠ item.object) (hsome : item.object.isSome)
    (d : Delivery collection source link binding.handle hub m t hub' m') :
    ∃ item' binding', Pays collection source link item binding t hub' m' item' binding' := by
  obtain ⟨hrow, hlinked⟩ := ho.row_live hlive d
  have hdirty := ho.status_live collection hbase
  rw [if_neg (fun hin => hbody hin.2)] at hdirty
  generalize hp : item.boundPlacement collection link binding = p at hrow hdirty
  have hpbase : p.base = some base := by rw [← hp]; exact hbase
  have hpflags : p.flags = item.flags := by rw [← hp]; rfl
  have hpobject : p.object = item.object := by rw [← hp]; rfl
  have hplink : p.linkId = some link := by rw [← hp]; rfl
  have hph : p.handle = binding.handle := by rw [← hp]; rfl
  obtain ⟨o, hob⟩ := Option.isSome_iff_exists.mp hsome
  have hd := d.handed hrow hlinked hpbase hm (by rw [← hp]; exact ho.quiet)
    (fun opts hpush hrights => hands_update hpbase hdirty (hpobject.trans hob)
      (fun he => hbody (he.trans hob.symm)) (by rw [hpflags]; exact hflags)
      (by simp [ReplicaSyncOptions.mayContent, hpush, hrights, ReplicaPushRights.all]))
    (fun hc => by rw [hdirty] at hc; cases hc) rfl
  obtain ⟨r, hr, -⟩ := d.confirmed hd
  have hops : rowOps binding.handle t.writes =
      [.upsertPlacement (contentRebased p r.revision)] := by
    rw [hd.ops, hr]
    have hrebased : (contentRebased p r.revision).handle = binding.handle := hph
    simp [Pending.record, Pending.none, rowOps, hrebased]
  have hkept : (contentRebased p r.revision).status ≠ .tombstone ∧
      (contentRebased p r.revision).status ≠ .conflict := by
    simp only [contentRebased, hdirty, reduceCtorEq, if_false]
    split <;> simp
  have hstates : States item link ⟨base.flags, r.revision, item.object⟩
      (contentRebased p r.revision) := by
    refine ⟨hplink, hkept.1, hkept.2, hpflags, hpobject, ?_⟩
    simp only [contentRebased, ReplicaPlacement.baseFlags, hpbase, Option.map_some,
      Option.getD_some, hpobject]
  have hserved : m' = some ⟨base.flags, r.revision, item.object⟩ := by
    rw [d.member hd, hm, hr, hob]
    rfl
  refine ho.pays_of_states d hd hstates hph hops hserved ⟨hflags, Or.inl rfl⟩ ?_ ?_
  · rw [owed_live hlive hbase, if_neg hbody, hob, hph]
    rfl
  · intro item' binding' hl hf hob' hh hb
    rw [owed_flags hl hb hob'.symm, owed_live hlive hbase, if_neg hbody, hob, hf, hh]
    rfl

/-- A sync of a live item pushes the first of what it owes. -/
theorem step_live (ho : Owing hub source link item binding m) (hlive : item.deleted = false)
    (d : Delivery collection source link binding.handle hub m t hub' m') :
    ∃ item' binding', Pays collection source link item binding t hub' m' item' binding' := by
  obtain ⟨base, hbase, hm, hknown⟩ := ho.based
  obtain ⟨hflags, hobject⟩ := hknown hlive
  by_cases hbody : base.object = item.object
  · by_cases hset : base.flags = item.flags
    · exact ho.step_clean hlive hbase hm hset hbody d
    · exact ho.step_flags hlive hbase hm hset (hflags.resolve_left (Ne.symm hset)) hbody d
  · exact ho.step_body hlive hbase hm hflags hbody (hobject.resolve_left (Ne.symm hbody)) d

/-- A sync of an item deleted elsewhere removes the member, and unbinds the source. -/
theorem step_deleted (ho : Owing hub source link item binding m) (hdeleted : item.deleted = true)
    (d : Delivery collection source link binding.handle hub m t hub' m') :
    t.pushedFor binding.handle link = (item.owed link binding).head?.toList ∧
      Gone hub' source link ∧ m' = none := by
  obtain ⟨base, hbase, hm, -⟩ := ho.based
  let p := item.tombstonePlacement collection link binding
  have hp : item.placement collection link source = some p := by
    simp only [ReplicaHubItem.placement, hdeleted, ho.bound]
    rfl
  obtain ⟨hrow, hlinked⟩ := ho.row d hp
  have hpbase : p.base = some base := hbase
  have hd := d.handed hrow hlinked hpbase hm rfl
    (fun opts hpush hrights => hands_remove hpbase rfl rfl (by simp [ReplicaSyncOptions.mayRemove,
      hpush, hrights, ReplicaPushRights.all])) (fun hc => by cases hc) rfl
  obtain ⟨r, hr, hrh⟩ := d.confirmed hd
  have hops : rowOps binding.handle t.writes =
      [.dropPlacement collection binding.handle .deleted] := by
    rw [hd.ops, hr]
    simp [Pending.record, Pending.none, rowOps, hrh]
  have hleaves := d.leaves ho.shared ho.bound rfl hd hops (by simp)
  have hdropped : item.dropBinding source binding.handle .deleted =
      { item with deleted := true, sources := item.sources.erase source } := by
    simp [ReplicaHubItem.dropBinding, ho.bound, hdeleted]
  rw [List.foldl_cons, List.foldl_nil, ReplicaHub.cell, Option.map_some, hdropped] at hleaves
  refine ⟨?_, ⟨?_, ?_⟩, ?_⟩
  · rw [hd.named]
    simp only [ReplicaHubItem.owed, hdeleted, if_true, hbase]
    rfl
  · intro item' hitem'
    rw [hleaves, Option.filter_eq_some_iff, Option.some.injEq] at hitem'
    rw [← hitem'.1]
    refine ⟨rfl, ?_⟩
    simp
  · rw [hleaves, Option.filter_filter]
    simp
  · rw [d.member hd, hm]
    rfl

/-- A live item that owes its source nothing reads as clean. -/
theorem clean_of_nothing (ho : Owing hub source link item binding m) (hlive : item.deleted = false)
    (howed : item.owed link binding = []) : item.boundStatus binding = .clean ∧
      ∃ revision, m = some ⟨item.flags, revision, item.object⟩ := by
  obtain ⟨base, hbase, hm, hknown⟩ := ho.based
  obtain ⟨-, hobject⟩ := hknown hlive
  simp only [ReplicaHubItem.owed, hlive, hbase, Bool.false_eq_true, if_false, Option.bind_some,
    Option.map_some, List.append_eq_nil_iff] at howed
  obtain ⟨hbody, hset⟩ := howed
  have hflags : base.flags = item.flags := by
    by_contra hne
    simp [hne] at hset
  have hsame : base.object = item.object := by
    by_contra hne
    obtain ⟨o, ho⟩ := Option.isSome_iff_exists.mp (hobject.resolve_left (Ne.symm hne))
    rw [if_neg hne, ho] at hbody
    cases hbody
  refine ⟨?_, base.revision, ?_⟩
  · simp [ReplicaHubItem.boundStatus, ReplicaHubItem.inSync, ho.settled, hbase, hflags, hsame]
  · rw [hm, hflags, hsame]

end Owing

/-- A sync of an item its source is bound to no more makes nothing of it. -/
theorem Gone.step {hub hub' : ReplicaHub} {collection : ReplicaCollectionId}
    {source : ReplicaSourceId} {link : ReplicaLinkId} {h : ReplicaHandle}
    {m m' : Option RemoteMember} {t : Transcript} (hg : Gone hub source link) (hm : m = none)
    (d : Delivery collection source link h hub m t hub' m') :
    t.pushedFor h link = [] ∧ Gone hub' source link ∧ m' = none := by
  have hunlinked : ∀ q ∈ hub.project collection source, q.linkId ≠ some link := by
    intro q hq hl
    obtain ⟨i, hi, hplaced⟩ := ReplicaHub.project_reads hq hl
    obtain ⟨hdeleted, hnone⟩ := hg.unbound i hi
    simp [ReplicaHubItem.placement, hdeleted, hnone] at hplaced
  obtain ⟨opts, loaded, snapshot, -, -, hl, hsync, htold⟩ := d.syncs
  rw [hm] at htold
  have hc : Merge.candidateAt (collectPlacements loaded.placements) snapshot h = none := by
    have hnone : (collectPlacements loaded.placements)[h]? = none := by
      rw [hl]
      cases hrow : (collectPlacements (hub.project collection source))[h]? with
      | none => rfl
      | some q =>
        have hmem := CollectionRows.mem_of_collect hrow
        exact absurd (d.alone q hmem (CollectionRows.collect_keyed hrow)) (hunlinked q hmem)
    have hreported : snapshot.reported h = none := htold
    simp [Merge.candidateAt, hnone, hreported]
  have hd := d.handed_away (fun q hq hl => absurd hl (hunlinked q hq)) hl hsync hc
  have hops : rowOps h t.batches.flatten = [] := by
    rw [t.flatten_batches, hd.ops]
    split <;> rfl
  have hunder : ReplicaHub.Under source h hub.items[link]? := by
    intro b hb
    obtain ⟨item, hitem, hbound⟩ := Option.bind_eq_some_iff.mp hb
    rw [(hg.unbound item hitem).2] at hbound
    cases hbound
  have hsame := ReplicaHub.absorbs_rowOps t.batches hunder hg.kept
    (by rw [t.flatten_batches]; exact hd.confined) (by rw [hops]; exact Nat.zero_le 1)
  rw [hops, List.foldl_nil, hg.kept, ← d.absorbed] at hsame
  refine ⟨hd.named, ⟨?_, ?_⟩, ?_⟩
  · rw [hsame]
    exact hg.unbound
  · rw [hsame]
    exact hg.kept
  · rw [d.member hd]
    exact hm

end IoReplica

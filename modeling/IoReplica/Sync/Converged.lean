import IoReplica.Mutate
import IoReplica.Sync.Rest
import IoReplica.Sync.Seam
import IoReplica.Sync.StagedEdit
import Mathlib.Data.Finset.Union

/-! Flag edits of many replicas against one server: whatever the order of their syncs, they meet. -/
namespace IoReplica

namespace ReplicaFlags
variable {b l r : ReplicaFlags}

/-- The flags a base speaks for. An unknown base speaks for none. -/
def spoken (b : ReplicaFlags) : Finset String := b.known?.getD ∅

/-- What a side changed of a base. An unknown side changed nothing. -/
def changed (b : ReplicaFlags) : ReplicaFlags → Finset String
  | .unknown => ∅
  | .known l => symmDiff l b.spoken

/-- A merge changes of its base what either side changed of it. -/
theorem changed_merge (b l r : ReplicaFlags) :
    b.changed (merge b l r) = b.changed l ∪ b.changed r := by
  cases l with
  | unknown => simp [changed]
  | known l =>
    cases r with
    | unknown => simp [changed]
    | known r => rw [merge_known]; exact ThreeWay.symmDiff_merge b.spoken l r

/-- Known flags are told by what they changed of a base. -/
theorem eq_of_changed (hl : l.isUnknown = false) (hr : r.isUnknown = false)
    (h : b.changed l = b.changed r) : l = r := by
  cases l with
  | unknown => cases hl
  | known l =>
    cases r with
    | unknown => cases hr
    | known r => rw [ThreeWay.eq_of_symmDiff (b := b.spoken) h]

theorem merge_isUnknown (l : ReplicaFlags) (hr : r.isUnknown = false) :
    (merge b l r).isUnknown = false := by
  cases r with
  | unknown => cases hr
  | known r => cases l <;> rfl

end ReplicaFlags

namespace ReplicaSync

variable {b f : ReplicaFlags} {p : ReplicaPlacement} {item : ReplicaRemoteItem}

/-- A row that differs from its base `b` in its flags alone, which are `f`. -/
structure FlagEdit (b f : ReplicaFlags) (p : ReplicaPlacement) : Prop where
  flags : p.flags = f
  based : ∃ base, p.base = some base ∧ base.flags = b ∧ localChanged p base = false
  live : p.status ≠ .tombstone
  clean : p.status = .clean → f = b

theorem FlagEdit.baseFlags (h : FlagEdit b f p) : p.baseFlags = some b := by
  obtain ⟨base, hb, hflags, -⟩ := h.based
  rw [ReplicaPlacement.baseFlags, hb, Option.map_some, hflags]

/-- Setting the flags of a row in sync is a flag edit. -/
theorem flagEdit_of_setFlags {base : ReplicaBase} (hb : p.base = some base)
    (hs : p.status = .clean) (ho : p.object = none ∨ p.object = base.object)
    (flags : ReplicaFlags) : FlagEdit base.flags flags (ReplicaMutate.flagged p flags) := by
  have hdirty : (ReplicaMutate.flagged p flags).status = .dirty := if_pos hs
  refine ⟨rfl, ⟨base, hb, rfl, ?_⟩, by rw [hdirty]; decide, fun hc => ?_⟩
  · rcases ho with ho | ho <;> simp [localChanged, ReplicaMutate.flagged, ho]
  · cases hdirty.symm.trans hc

/-- A row with no content edit of its own takes the content the remote reports, and keeps its flag
edit. -/
theorem FlagEdit.reconcileContent (h : FlagEdit b f p) (a : ReplicaSync)
    (item : ReplicaRemoteItem) : ∃ q ops, FlagEdit b f q ∧ q.handle = p.handle ∧
      ContentQueues a.collection item p q a (a.reconcileContent p item).1
        (a.reconcileContent p item).2 ops ∧
      (a.reconcileContent p item).1.pendingAt p.handle = a.pendingAt p.handle := by
  obtain ⟨base, hb, hflags, hsame⟩ := h.based
  simp only [ReplicaSync.reconcileContent, hb]
  by_cases hc : p.status = .conflict
  · have hstay : ∀ q : ReplicaPlacement, q.status = p.status → q.flags = p.flags →
        q.base = p.base → FlagEdit b f q := by
      intro q hs hf hbase
      have hq : q.status = .conflict := hs.trans hc
      refine ⟨hf.trans h.flags, ⟨base, hbase.trans hb, hflags, ?_⟩, by rw [hq]; decide, ?_⟩
      · simp [localChanged, hq]
      · intro hclean
        cases hq.symm.trans hclean
    rw [if_pos hc]
    split
    · let tracked : ReplicaPlacement :=
        { p with conflictRevision := item.revision, conflictObject := none, base := some base }
      refine ⟨tracked, [.upsertPlacement tracked], hstay tracked rfl rfl hb.symm, rfl, ?_, rfl⟩
      exact ⟨rfl, rfl, Or.inl rfl, by simp [tracked], .upsert rfl⟩
    · exact ⟨p, [], h, rfl, .nothing a, rfl⟩
  · rw [if_neg hc, hsame]
    cases hm : movedFrom item base.revision with
    | false => exact ⟨p, [], h, rfl, .nothing a, rfl⟩
    | true =>
      refine ⟨refreshedPlacement p item, _, ?_, rfl, pullContent_queues a, rfl⟩
      refine ⟨h.flags, ⟨{ base with revision := item.revision, object := none }, ?_, hflags, ?_⟩,
        h.live, h.clean⟩
      · simp [refreshedPlacement, hb]
      · simp [localChanged, refreshedPlacement]

/-- A row settled onto a flag set is based on it. -/
theorem FlagEdit.settled (h : FlagEdit b f p) (flags : ReplicaFlags) :
    FlagEdit flags flags (settledRow p flags) := by
  refine ⟨rfl, ⟨⟨flags, p.baseRevision, p.baseObject⟩, rfl, rfl, ?_⟩, settledStatus_live h.live,
    fun _ => rfl⟩
  by_cases hc : p.status = .conflict
  · simp [localChanged, settledRow, settledStatus, hc]
  · simp [localChanged, settledRow, settledStatus, hc]

/-- Where the flag axis lands a row that has nothing to push: on the flags the remote holds. -/
theorem FlagEdit.pulled (h : FlagEdit b f p) {base : ReplicaBase} (hb : p.base = some base)
    (hm : mergedFlags base p item = item.flags) :
    ∃ q, (flagRow base p item).or (some p) = some q ∧ FlagEdit item.flags item.flags q := by
  have hbase : base.flags = b := by
    have hflags := h.baseFlags
    rw [ReplicaPlacement.baseFlags, hb] at hflags
    exact Option.some.inj hflags
  cases hq : flagRow base p item with
  | some q =>
    refine ⟨q, rfl, ?_⟩
    simp only [flagRow, hm, if_true] at hq
    split at hq
    · cases hq
      exact h.settled item.flags
    · cases hq
  | none =>
    obtain ⟨hkept, hsynced⟩ := flagRow_none.mp hq
    have hflags : item.flags = p.flags := hm.symm.trans hkept
    have hfb : p.flags = base.flags := (hsynced hm).1
    have hf : f = item.flags := by rw [← h.flags, hflags]
    have hbi : b = item.flags := by rw [← hbase, ← hfb, hflags]
    refine ⟨p, rfl, ?_⟩
    rw [hf, hbi] at h
    exact h

/-- What merging a flag edit with an item queues: the row left, and the push awaited with it. -/
structure FlagEffect (collection : ReplicaCollectionId) (opts : ReplicaSyncOptions)
    (p : ReplicaPlacement) (item : ReplicaRemoteItem) (base : ReplicaBase) (q : ReplicaPlacement) :
    Prop where
  handle : q.handle = p.handle
  based : q.base = some base
  row : rowAfter p.handle (some p) (effect collection opts ⟨p.handle, some p, some item⟩).1.writes =
    (flagRow base q item).or (some q)
  awaits : (effect collection opts ⟨p.handle, some p, some item⟩).1.pendingAt p.handle =
    if pushesFlags opts base q item .derive then
      { Pending.none with flags := some { q with flags := mergedFlags base q item } }
    else .none
  change : (effect collection opts ⟨p.handle, some p, some item⟩).2 =
    if pushesFlags opts base q item .derive then some (.setFlags p.handle (mergedFlags base q item))
    else none

theorem FlagEdit.effects (h : FlagEdit b f p) (collection : ReplicaCollectionId)
    (opts : ReplicaSyncOptions) (item : ReplicaRemoteItem) :
    ∃ base q, FlagEdit b f q ∧ FlagEffect collection opts p item base q := by
  obtain ⟨q, ops, hq, hqh, hqueues, hpend⟩ := h.reconcileContent (new collection opts) item
  obtain ⟨base, hb, -, -⟩ := hq.based
  have heffect : effect collection opts ⟨p.handle, some p, some item⟩ =
      ((new collection opts).reconcileContent p item).1.reconcileFlags q item .derive := by
    rw [effect, merge_live _ _ h.live]
    simp only [mergePresent]
    cases hc : (new collection opts).reconcileContent p item with
    | mk d outcome =>
      have hout := hqueues.outcome
      rw [hc] at hout
      rcases hout with rfl | ⟨rfl, rfl⟩ <;> rfl
  obtain ⟨hfw, hfp, hfc⟩ := ReplicaSync.reconcileFlags_spec
    ((new collection opts).reconcileContent p item).1 hb item .derive
  have hopts : ((new collection opts).reconcileContent p item).1.opts = opts := hqueues.opts
  have hwrites : ((new collection opts).reconcileContent p item).1.writes = ops := by
    rw [hqueues.writes]
    exact List.nil_append ops
  have hnone : ((new collection opts).reconcileContent p item).1.pendingAt q.handle = .none := by
    rw [hqh, hpend, new_pendingAt]
  rw [hopts, hnone] at hfp
  rw [hopts, hqh] at hfc
  rw [hwrites] at hfw
  refine ⟨base, q, hq, hqh, hb, ?_, ?_, ?_⟩
  · have hflag := StagedEdit.rowAfter_flagRow q base item (some q)
    rw [hqh] at hflag
    rw [heffect, hfw, rowAfter_append, hqueues.row, hflag]
  · rw [heffect, ← hqh]
    exact hfp
  · rw [heffect]
    exact hfc

theorem FlagEdit.merged (h : FlagEdit b f p) {base : ReplicaBase} (hb : p.base = some base)
    (item : ReplicaRemoteItem) : mergedFlags base p item = .merge b f item.flags := by
  have hbase := h.baseFlags
  rw [ReplicaPlacement.baseFlags, hb, Option.map_some, Option.some.injEq] at hbase
  rw [mergedFlags, hbase, h.flags]

end ReplicaSync

open ReplicaSync

/-- The flags a server holds of a member once it took these changes. -/
def flagsTaken (h : ReplicaHandle) (served : ReplicaFlags) (changes : List ReplicaChange) :
    ReplicaFlags :=
  (changes.filter (fun k => k.handle = h)).foldl (fun flags k =>
    match k.kind with
    | .setFlags _ set => set
    | .add .. | .update .. | .remove .. => flags) served

/-- What a snapshot says of the member is so: it is listed with the flags held, or left out of a delta
while these are still the ones its row was synced with. -/
structure TellsFlags (h : ReplicaHandle) (s : CollectionRows) (served : ReplicaFlags)
    (snapshot : ReplicaRemoteSnapshot) : Prop where
  listed : ∀ item, snapshot.reported h = some item → item.flags = served
  unlisted : snapshot.reported h = none → snapshot.complete = false ∧
    ∀ p, s.rows[h]? = some p → p.baseFlags = some served
  present : snapshot.complete = true ∨ h ∉ snapshot.vanished

/-- A completed sync that may push flags, against a server that holds `served` of the member and
takes every change. -/
structure Visit (h : ReplicaHandle) (s : CollectionRows) (served : ReplicaFlags) (t : Transcript) :
    Prop where
  syncs : ∃ collection opts loaded snapshot, Syncs collection opts loaded snapshot t ∧
    loaded.placements = s.placements ∧ opts.mayFlags = true ∧ TellsFlags h s served snapshot
  accepts : ∀ k ∈ t.changes, (Outbox.confirmation k.handle t.pushes).isSome
  undisturbed : Undisturbed s h t

section Visits

variable {h : ReplicaHandle} {s : CollectionRows} {served b f : ReplicaFlags}
  {snapshot : ReplicaRemoteSnapshot} {p : ReplicaPlacement}

/-- A member told of truly is merged against the flags held, or its clean row already has them. -/
theorem TellsFlags.read (ht : TellsFlags h s served snapshot) (hp : s.rows[h]? = some p) :
    (∃ item, Merge.candidateAt s.rows snapshot h = some ⟨h, some p, some item⟩ ∧
      item.flags = served) ∨
    (Merge.candidateAt s.rows snapshot h = none ∧ p.status = .clean ∧
      p.baseFlags = some served) := by
  have hh : p.handle = h := s.keyed h p hp
  cases hi : snapshot.reported h with
  | some item =>
    subst hh
    exact Or.inl ⟨item, reads_of_listed hp hi ht.present, ht.listed item hi⟩
  | none =>
    obtain ⟨hdelta, hbase⟩ := ht.unlisted hi
    have hv : h ∉ snapshot.vanished := by
      rcases ht.present with hcomplete | hv
      · rw [hdelta] at hcomplete
        cases hcomplete
      · exact hv
    rw [Merge.candidateAt_unlisted hdelta hv hi, hp, Option.bind_some]
    by_cases hc : p.status = .clean
    · exact Or.inr ⟨if_pos hc, hc, hbase p hp⟩
    · rw [if_neg hc]
      obtain ⟨base, hb, hflags⟩ := Option.map_eq_some_iff.mp (hbase p hp)
      refine Or.inl ⟨⟨h, base.flags, p.conflictRevision.or base.revision⟩, ?_, hflags⟩
      simp only [Merge.standIn, hb, Option.map_some]

/-- A visit merges the row's flag edit into what the server holds, and leaves the row based on it. -/
theorem Visit.merges {t : Transcript} (hv : Visit h s served t) (hp : s.rows[h]? = some p)
    (he : FlagEdit b f p) :
    flagsTaken h served t.changes = ReplicaFlags.merge b f served ∧
      ∃ q, (s.apply t.writes).rows[h]? = some q ∧
        FlagEdit (.merge b f served) (.merge b f served) q := by
  obtain ⟨collection, opts, loaded, snapshot, hsyncs, hl, hmay, htells⟩ := hv.syncs
  have hh : p.handle = h := s.keyed h p hp
  rcases htells.read hp with ⟨item, hcand, hitem⟩ | ⟨hcand, hclean, hbase⟩
  · obtain ⟨hrow, hchanges⟩ := hsyncs.runAt (c := ⟨h, some p, some item⟩) hl hcand hv.undisturbed
    dsimp only at hrow hchanges
    obtain ⟨base, q, hq, heffect⟩ := he.effects collection opts item
    have hqh : q.handle = h := heffect.handle.trans hh
    have hmerged := hq.merged heffect.based item
    rw [hitem] at hmerged
    have hlanded := heffect.row
    have hawaits := heffect.awaits
    have hchange := heffect.change
    rw [hh] at hlanded hawaits hchange
    rw [hmerged] at hawaits hchange
    rw [CollectionRows.get_apply, hrow, hp, hlanded, hawaits]
    rw [hchange] at hchanges
    by_cases hmove : ReplicaFlags.merge b f served = served
    · have hno : pushesFlags opts base q item .derive = false := by
        simp [pushesFlags, hmerged, hmove, hitem]
      rw [hno] at hchanges ⊢
      simp only [Bool.false_eq_true, if_false] at hchanges ⊢
      refine ⟨by simp [flagsTaken, hchanges, hmove], ?_⟩
      have hpulled := hq.pulled heffect.based (by rw [hmerged, hmove, hitem])
      rw [hitem] at hpulled
      rw [hmove]
      cases Outbox.confirmation h t.pushes <;> exact hpulled
    · have hpush : pushesFlags opts base q item .derive = true := by
        simp [pushesFlags, hmerged, hmove, hitem, hmay]
      rw [hpush] at hchanges ⊢
      simp only [if_true] at hchanges ⊢
      have hmem : ReplicaChange.new collection (.setFlags h (.merge b f served)) ∈
          t.changes.filter (fun k => k.handle = h) := by
        rw [hchanges]
        exact List.mem_singleton_self _
      obtain ⟨r, hr⟩ := Option.isSome_iff_exists.mp (hv.accepts _ (List.mem_filter.mp hmem).1)
      have hconf : Outbox.confirmation h t.pushes = some r := hr
      rw [hconf]
      refine ⟨by simp [flagsTaken, hchanges, ReplicaChange.new], _, ?_, hq.settled _⟩
      let sent : ReplicaPlacement := { q with flags := ReplicaFlags.merge b f served }
      have hsent : sent.handle = h := hqh
      have hrecord := StagedEdit.rowAfter_recordFlags sent ((flagRow base q item).or (some q))
        collection r
      rw [hsent] at hrecord
      exact hrecord
  · obtain ⟨hrow, hnone⟩ := hsyncs.away hl hcand hv.undisturbed
    have hb : b = served := Option.some.inj (he.baseFlags.symm.trans hbase)
    have hf : f = b := he.clean hclean
    have hm : ReplicaFlags.merge b f served = served := by rw [hf, hb, ReplicaFlags.merge_self]
    rw [hm]
    refine ⟨by simp [flagsTaken, hnone], p, ?_, ?_⟩
    · rw [CollectionRows.get_apply, hrow, hp]
    · rw [hf, hb] at he
      exact he

end Visits

/-- Many replicas of one member, and the flags their server holds of it. -/
structure Fleet (ι : Type) where
  rows : ι → CollectionRows
  served : ReplicaFlags

namespace Fleet
variable {ι : Type} [DecidableEq ι] {h : ReplicaHandle}

/-- The replicas of `done` each visited the server at least once, in some order. -/
inductive Visited (h : ReplicaHandle) (start : Fleet ι) : Finset ι → Fleet ι → Prop
  | none : Visited h start ∅ start
  | visit {done : Finset ι} {w : Fleet ι} (i : ι) {t : Transcript} (before : Visited h start done w)
      (now : Visit h (w.rows i) w.served t) :
      Visited h start (insert i done)
        ⟨Function.update w.rows i ((w.rows i).apply t.writes), flagsTaken h w.served t.changes⟩

/-- Each replica holds the member with an edit of its own of flags synced in common. -/
def Edited (h : ReplicaHandle) (b : ReplicaFlags) (edits : ι → ReplicaFlags) (w : Fleet ι) : Prop :=
  ∀ i, ∃ p, (w.rows i).rows[h]? = some p ∧ FlagEdit b (edits i) p

/-- Between visits: a replica that visited is based on known flags it does not differ from, the rest
hold their edits, and the server holds what was changed by it at first and by every visitor. -/
structure Gathered (h : ReplicaHandle) (b : ReplicaFlags) (edits : ι → ReplicaFlags)
    (first : ReplicaFlags) (done : Finset ι) (w : Fleet ι) : Prop where
  known : w.served.isUnknown = false
  changed : b.changed w.served = b.changed first ∪ done.biUnion (fun i => b.changed (edits i))
  waiting : ∀ i ∉ done, ∃ p, (w.rows i).rows[h]? = some p ∧ FlagEdit b (edits i) p
  settled : ∀ i ∈ done, ∃ p f, (w.rows i).rows[h]? = some p ∧ FlagEdit f f p ∧
    f.isUnknown = false

variable {b first : ReplicaFlags} {edits : ι → ReplicaFlags} {done : Finset ι} {start w : Fleet ι}

/-- What a visit leaves of the server, and the row it leaves of its replica: a replica that meets the
server again adds nothing to what it holds, one that meets it first adds its edit. -/
theorem Gathered.meets (hw : Gathered h b edits first done w) (i : ι) {t : Transcript}
    (hv : Visit h (w.rows i) w.served t) :
    (flagsTaken h w.served t.changes).isUnknown = false ∧
      b.changed (flagsTaken h w.served t.changes) =
        b.changed first ∪ (insert i done).biUnion (fun i => b.changed (edits i)) ∧
      ∃ q, ((w.rows i).apply t.writes).rows[h]? = some q ∧
        FlagEdit (flagsTaken h w.served t.changes) (flagsTaken h w.served t.changes) q := by
  by_cases hi : i ∈ done
  · obtain ⟨p, f, hp, he, hf⟩ := hw.settled i hi
    obtain ⟨htaken, q, hq, hqe⟩ := hv.merges hp he
    rw [ReplicaFlags.merge_base_left hw.known] at htaken hqe
    rw [htaken, Finset.insert_eq_of_mem hi]
    exact ⟨hw.known, hw.changed, q, hq, hqe⟩
  · obtain ⟨p, hp, he⟩ := hw.waiting i hi
    obtain ⟨htaken, q, hq, hqe⟩ := hv.merges hp he
    rw [htaken]
    refine ⟨ReplicaFlags.merge_isUnknown _ hw.known, ?_, q, hq, hqe⟩
    rw [ReplicaFlags.changed_merge, hw.changed, Finset.biUnion_insert, Finset.union_left_comm]

theorem Gathered.visit (hw : Gathered h b edits first done w) (i : ι) {t : Transcript}
    (hv : Visit h (w.rows i) w.served t) : Gathered h b edits first (insert i done)
      ⟨Function.update w.rows i ((w.rows i).apply t.writes), flagsTaken h w.served t.changes⟩ := by
  obtain ⟨hknown, hchanged, q, hq, hqe⟩ := hw.meets i hv
  refine ⟨hknown, hchanged, ?_, ?_⟩
  · intro j hj
    simp only [Finset.mem_insert, not_or] at hj
    dsimp only
    rw [Function.update_of_ne hj.1]
    exact hw.waiting j hj.2
  · intro j hj
    dsimp only
    by_cases hji : j = i
    · subst hji
      rw [Function.update_self]
      exact ⟨q, _, hq, hqe, hknown⟩
    · rw [Function.update_of_ne hji]
      exact hw.settled j ((Finset.mem_insert.mp hj).resolve_left hji)

/-- What holds between visits holds after any of them. -/
theorem Visited.gathered (hv : Visited h start done w) (he : Edited h b edits start)
    (hs : start.served.isUnknown = false) : Gathered h b edits start.served done w := by
  induction hv with
  | none =>
    refine ⟨hs, by simp, fun i _ => he i, fun i hi => ?_⟩
    cases hi
  | visit i before now ih => exact ih.visit i now

end Fleet

/-- Flag edits merge without order: the merge of two sides against one base is commutative,
associative and idempotent, a side that did not move is neutral, and re-merging changes nothing; so
the replicas of a member that edited its flags from one base leave their server, whatever the order
they sync in, with one set that has every flag one of them added and none that one removed. -/
theorem flags_merge_without_order :
    (∀ b l r : ReplicaFlags, b.merge l r = b.merge r l) ∧
    (∀ b l m r : ReplicaFlags, b.merge (b.merge l m) r = b.merge l (b.merge m r)) ∧
    (∀ b l : ReplicaFlags, b.merge l l = l) ∧
    (∀ b l : ReplicaFlags, b.merge l .unknown = l ∧ b.merge .unknown l = l) ∧
    (∀ b r : Finset String, ReplicaFlags.merge (.known b) (.known b) (.known r) = .known r ∧
      ReplicaFlags.merge (.known b) (.known r) (.known b) = .known r) ∧
    (∀ b l r : ReplicaFlags, b.merge (b.merge l r) r = b.merge l r ∧
      b.merge l (b.merge l r) = b.merge l r) ∧
    ∀ {ι : Type} [Fintype ι] [DecidableEq ι] (h : ReplicaHandle) (b : ReplicaFlags)
      (edits : ι → ReplicaFlags) (start : Fleet ι) (first : Finset String),
      start.Edited h b edits → start.served = .known first →
        ∃ flags : Finset String,
          (∀ w, start.Visited h Finset.univ w → w.served = .known flags) ∧
          (∀ i l, edits i = .known l → ∀ x ∈ l, x ∉ b.spoken → x ∈ flags) ∧
          (∀ i l, edits i = .known l → ∀ x ∈ b.spoken, x ∉ l → x ∉ flags) := by
  refine ⟨ReplicaFlags.merge_comm, ReplicaFlags.merge_assoc, ReplicaFlags.merge_self,
    fun b l => ⟨ReplicaFlags.merge_unknown_right b l, ReplicaFlags.merge_unknown_left b l⟩,
    fun b r => ?_, fun b l r => ?_, ?_⟩
  · have hleft := ReplicaFlags.merge_base_left (b := .known b) (r := .known r) rfl
    exact ⟨hleft, (ReplicaFlags.merge_comm _ _ _).trans hleft⟩
  · refine ⟨ReplicaFlags.merge_absorb b l r, ?_⟩
    rw [← ReplicaFlags.merge_assoc, ReplicaFlags.merge_self]
  · intro ι _ _ h b edits start first he hs
    let moved := b.changed start.served ∪ Finset.univ.biUnion (fun i => b.changed (edits i))
    refine ⟨symmDiff moved b.spoken, ?_, ?_, ?_⟩
    · intro w hw
      have hgathered := hw.gathered he (by rw [hs]; rfl)
      refine ReplicaFlags.eq_of_changed (b := b) hgathered.known rfl ?_
      rw [hgathered.changed]
      exact (symmDiff_symmDiff_cancel_right b.spoken moved).symm
    · intro i l hl x hx hb
      have hmoved : x ∈ moved := Finset.mem_union_right _ (Finset.mem_biUnion.mpr
        ⟨i, Finset.mem_univ i, by rw [hl]; exact Finset.mem_symmDiff.mpr (Or.inl ⟨hx, hb⟩)⟩)
      exact Finset.mem_symmDiff.mpr (Or.inl ⟨hmoved, hb⟩)
    · intro i l hl x hb hx hin
      have hmoved : x ∈ moved := Finset.mem_union_right _ (Finset.mem_biUnion.mpr
        ⟨i, Finset.mem_univ i, by rw [hl]; exact Finset.mem_symmDiff.mpr (Or.inr ⟨hb, hx⟩)⟩)
      rcases Finset.mem_symmDiff.mp hin with ⟨-, hnot⟩ | ⟨-, hnot⟩
      · exact hnot hb
      · exact hnot hmoved

section Runs

/-- A card flagged since its last sync, which saw it. -/
def starredCard (flags : Finset String) : ReplicaPlacement :=
  ReplicaMutate.flagged (pulledPlacement ⟨"contacts"⟩ ⟨⟨"a"⟩, .known {"seen"}, some "1"⟩)
    (.known flags)

theorem starredCard_edit (flags : Finset String) :
    FlagEdit (.known {"seen"}) (.known flags) (starredCard flags) := by
  have hbase : (pulledPlacement ⟨"contacts"⟩ ⟨⟨"a"⟩, .known {"seen"}, some "1"⟩).base =
      some ⟨.known {"seen"}, some "1", none⟩ := rfl
  exact flagEdit_of_setFlags hbase rfl (Or.inl rfl) _

/-- The card against a listing of it, its push accepted. -/
def starredSeam (flags served : Finset String) : Seam :=
  .single (starredCard flags) ⟨[⟨⟨"a"⟩, .known served, some "1"⟩], [], true, ⟨[]⟩⟩
    [[⟨⟨"a"⟩, .accepted, none, none⟩]]

/-- What the card's run was answered, whether all of it was taken, and the flags served then. -/
def starredRun (flags served : Finset String) :
    Option (List (List ReplicaPushResult) × Bool × ReplicaFlags) :=
  ((starredSeam flags served).sync 9 ⟨"contacts"⟩ .default).map (fun o =>
    (o.2.pushes.map (·.2),
      o.2.changes.all (fun k => (Outbox.confirmation k.handle o.2.pushes).isSome),
      flagsTaken ⟨"a"⟩ (.known served) o.2.changes))

theorem starredRun_visit (flags served : Finset String) (taken : ReplicaFlags)
    (h : starredRun flags served =
      some ([[⟨⟨"a"⟩, .accepted, none, none⟩]], true, taken)) :
    ∃ t, Visit ⟨"a"⟩ (starredSeam flags served).rows (.known served) t ∧
      flagsTaken ⟨"a"⟩ (.known served) t.changes = taken := by
  obtain ⟨⟨s', t⟩, hd, heq⟩ := Option.map_eq_some_iff.mp h
  obtain ⟨hsync, -⟩ := Seam.sync_syncs hd
  simp only [Prod.mk.injEq] at heq
  obtain ⟨hreplies, hall, htaken⟩ := heq
  have hunassigned : Outbox.Unassigned (starredCard flags).handle t.pushes :=
    Seam.unassigned_of_replies hreplies (by decide)
  have htells : TellsFlags ⟨"a"⟩ (starredSeam flags served).rows (.known served)
      (starredSeam flags served).snapshot := by
    have hlisted : (starredSeam flags served).snapshot.reported ⟨"a"⟩ =
        some ⟨⟨"a"⟩, .known served, some "1"⟩ := rfl
    refine ⟨fun item hi => ?_, fun hi => ?_, Or.inl rfl⟩
    · cases hlisted.symm.trans hi
      rfl
    · cases hlisted.symm.trans hi
  exact ⟨t, ⟨⟨_, _, _, _, hsync, rfl, rfl, htells⟩, List.all_eq_true.mp hall,
    Seam.single_undisturbed hunassigned⟩, htaken⟩

/-- One replica starred the card, the other unsaw it. -/
def twoEdits (starred : Bool) : Finset String := if starred then {"seen", "star"} else ∅

def twoCards : Fleet Bool where
  rows starred := CollectionRows.empty.write (.upsertPlacement (starredCard (twoEdits starred)))
  served := .known {"seen"}

/-- Whoever of the two syncs first, the card ends starred and unseen. -/
theorem two_cards_end_starred :
    (∃ w, twoCards.Visited ⟨"a"⟩ Finset.univ w) ∧
      ∀ w, twoCards.Visited ⟨"a"⟩ Finset.univ w → w.served = .known {"star"} := by
  have hedited : twoCards.Edited ⟨"a"⟩ (.known {"seen"}) (fun i => .known (twoEdits i)) :=
    fun i => ⟨_, OrderedMap.get_insert_self _ _ _, starredCard_edit _⟩
  obtain ⟨flags, hsame, -, -⟩ := flags_merge_without_order.2.2.2.2.2.2 ⟨"a"⟩ (.known {"seen"}) _
    twoCards {"seen"} hedited rfl
  obtain ⟨t, hvisit, htaken⟩ := starredRun_visit (twoEdits true) {"seen"}
    (.known {"seen", "star"}) (by decide +kernel)
  obtain ⟨u, hvisit', htaken'⟩ := starredRun_visit (twoEdits false) {"seen", "star"}
    (.known {"star"}) (by decide +kernel)
  have hnone : twoCards.Visited ⟨"a"⟩ ∅ twoCards := .none
  have hfirst := hnone.visit true hvisit
  rw [show twoCards.served = .known {"seen"} from rfl, htaken] at hfirst
  have hboth := Fleet.Visited.visit false hfirst hvisit'
  rw [show insert false (insert true (∅ : Finset Bool)) = Finset.univ by decide] at hboth
  have hstar : ReplicaFlags.known flags = .known {"star"} := (hsame _ hboth).symm.trans htaken'
  exact ⟨⟨_, hboth⟩, fun w hw => (hsame w hw).trans hstar⟩

end Runs
end IoReplica

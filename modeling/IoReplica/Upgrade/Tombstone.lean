import IoReplica.Sync.Created
import IoReplica.Sync.PushedFlags
import IoReplica.Upgrade.Kept
import IoReplica.Upgrade.Reply

/-! A pending delete the remote has edited against: what upgrades and syncs in any order make of the
tombstone. -/
namespace IoReplica

/-- A change that removes the member of a handle. -/
def ReplicaChangeKind.Removes (h : ReplicaHandle) (kind : ReplicaChangeKind) : Prop :=
  ∃ dest link ifMatch, kind = .remove h dest link ifMatch

namespace ReplicaSync

theorem reconcileFlags_unremoved (d : ReplicaSync) (p : ReplicaPlacement) (item : ReplicaRemoteItem)
    (allow : PushFlags) {kind : ReplicaChangeKind} {h : ReplicaHandle}
    (hk : (d.reconcileFlags p item allow).2 = some kind) : ¬ kind.Removes h := by
  rintro ⟨dest, link, ifMatch, rfl⟩
  cases hb : p.base with
  | none => simp [reconcileFlags, ReplicaPlacement.baseFlags, hb] at hk
  | some base =>
    rw [(d.reconcileFlags_spec hb item allow).2.2] at hk
    split at hk <;> cases hk

/-- A Remove is derived of a tombstone alone. -/
theorem merge_unremoved (d : ReplicaSync) {c : Candidate}
    (hlive : ∀ p, c.loc = some p → p.status ≠ .tombstone) {kind : ReplicaChangeKind}
    {h : ReplicaHandle} (hk : (d.merge c).2 = some kind) : ¬ kind.Removes h := by
  obtain ⟨g, loc, remote⟩ := c
  cases loc with
  | none => cases remote <;> cases hk
  | some p =>
    rw [merge_live _ _ (hlive p rfl)] at hk
    cases remote with
    | some item =>
      simp only [mergePresent] at hk
      cases ho : d.reconcileContent p item with
      | mk e outcome =>
        rw [ho] at hk
        cases outcome with
        | untouched => exact reconcileFlags_unremoved e p item _ hk
        | rewritten q => exact reconcileFlags_unremoved e q item _ hk
        | push change =>
          obtain ⟨-, -, o, ifMatch, -, rfl⟩ :=
            d.reconcileContent_push (by rw [ho])
          rintro ⟨dest, link, ifMatch', rfl⟩
          cases hk
    | none =>
      rintro ⟨dest, link, ifMatch, rfl⟩
      dsimp only at hk
      split at hk
      · simp only [mergeVanished] at hk
        split at hk
        · split at hk <;> cases hk
        · cases hk
      · simp only [mergeCreate] at hk
        split at hk <;> cases hk

/-- Merging a tombstone with an item its base does not know pulls the item. -/
theorem effect_outlived (collection : ReplicaCollectionId) (opts : ReplicaSyncOptions)
    {h : ReplicaHandle} {p : ReplicaPlacement} (hp : p.status = .tombstone)
    {item : ReplicaRemoteItem} {revision : String} (hi : item.revision = some revision)
    (hr : p.baseRevision ≠ some revision) :
    (effect collection opts ⟨h, some p, some item⟩).1.writes =
        [.upsertPlacement (pulledPlacement collection item)] ∧
      (effect collection opts ⟨h, some p, some item⟩).1.pendingAt h = .none ∧
      (effect collection opts ⟨h, some p, some item⟩).2 = none := by
  have hnone := new_pendingAt collection opts h
  have hmoved : movedFrom item p.baseRevision = true := by
    simp [movedFrom, hi, Ne.symm hr]
  have heffect : effect collection opts ⟨h, some p, some item⟩ =
      ((((new collection opts).pullAdd item).countPulled).emit (.added h), none) := by
    rw [effect, merge_tombstone _ _ hp]
    dsimp only
    split
    · simp only [mergeTombstone, if_pos hmoved]
    · rfl
  rw [heffect]
  exact ⟨rfl, hnone, rfl⟩

end ReplicaSync

section
variable {collection : ReplicaCollectionId} {opts : ReplicaSyncOptions} {loaded : ReplicaLoaded}
  {snapshot : ReplicaRemoteSnapshot} {t : Transcript} {s : CollectionRows} {h : ReplicaHandle}

/-- No tombstone is stored under the handle. -/
def CollectionRows.LiveAt (s : CollectionRows) (h : ReplicaHandle) : Prop :=
  ∀ p, s.rows[h]? = some p → p.status ≠ .tombstone

/-- A run over a live row, or none, derives no Remove of it. -/
theorem Syncs.unremoved (hsync : Syncs collection opts loaded snapshot t)
    (hl : loaded.placements = s.placements) (hlive : s.LiveAt h) :
    ∀ k ∈ t.changes, ¬ k.kind.Removes h := by
  intro k hk hremoves
  obtain ⟨box, hwhole⟩ := hsync.whole
  obtain ⟨c, hc, hh, hchange⟩ := hwhole.mem_changes.mp hk
  obtain ⟨kind, hkind, rfl⟩ := Option.map_eq_some_iff.mp hchange
  obtain ⟨dest, link, ifMatch, hkinded⟩ := hremoves
  rw [ReplicaChange.new_kind] at hkinded
  rw [ReplicaChange.new_handle, hkinded] at hh
  rw [mem_mergedCandidates, hl, CollectionRows.collect_placements] at hc
  have hloc := (Merge.candidateAt_spec hc).2
  refine ReplicaSync.merge_unremoved _ (h := h) (fun p hp => ?_) hkind ⟨dest, link, ifMatch, hkinded⟩
  refine hlive p ?_
  rw [← hp, hloc, hh]
  rfl

/-- A run leaves a live row, or none, live. -/
theorem Syncs.live (hsync : Syncs collection opts loaded snapshot t)
    (hl : loaded.placements = s.placements) (hlive : s.LiveAt h) : (s.apply t.writes).LiveAt h := by
  have hinherits : Inherits collection (fun q => q.handle = h → q.status ≠ .tombstone) := by
    have hall := ReplicaSync.inherits_live collection
    exact {
      pulled := fun item _ => hall.pulled item
      refreshed := fun p item hp => hp
      conflicted := fun p item hp hh => (by simp [ReplicaSync.conflictedPlacement])
      reopened := fun p revision hp => hp
      forked := fun p base o _ _ _ _ _ => (by simp [ReplicaSync.forkedPlacement])
      flagged := fun p flags hp => hp
      rebased := fun p flags hp hh => hall.rebased p flags (hp hh)
      resurrected := fun p hp _ _ => (by simp [ReplicaSync.resurrectedPlacement])
      contentRebased := fun p revision hp hh => hall.contentRebased p revision (hp hh)
      rekeyed := fun p handle revision hp _ _ => (by simp [ReplicaSync.rekeyedPlacement]) }
  have hobey : s.Obey (fun q => q.handle = h → q.status ≠ .tombstone) := by
    refine ⟨fun g p hp hh => hlive p ?_, fun g p _ _ _ => by simp⟩
    rw [← hh, s.keyed g p hp]
    exact hp
  intro q hq
  exact hsync.obeys_rows hl hinherits hobey hq ((s.apply t.writes).keyed h q hq)

/-- The run reads the member at this revision. -/
def Sees (s : CollectionRows) (snapshot : ReplicaRemoteSnapshot) (h : ReplicaHandle)
    (revision : String) : Prop :=
  ∃ item, Merge.seen s.rows snapshot h = some item ∧ item.revision = some revision

/-- A run that sees an edit the delete was not made against pulls the member back. -/
theorem Syncs.outlived (hsync : Syncs collection opts loaded snapshot t)
    (hl : loaded.placements = s.placements) {p : ReplicaPlacement} (hp : s.rows[h]? = some p)
    (htomb : p.status = .tombstone) {revision : String} (hr : p.baseRevision ≠ some revision)
    (hsees : Sees s snapshot h revision) (hu : Undisturbed s h t) :
    (∀ k ∈ t.changes, ¬ k.kind.Removes h) ∧
      ∃ q, (s.apply t.writes).rows[h]? = some q ∧ q.status ≠ .tombstone ∧
        q.baseRevision = some revision := by
  obtain ⟨item, hseen, hi⟩ := hsees
  have hat := Merge.candidateAt_seen snapshot hp (by rw [htomb]; decide)
  rw [hseen] at hat
  obtain ⟨hafter, hchanges⟩ := hsync.runAt (c := ⟨h, some p, some item⟩) hl hat hu
  obtain ⟨hw, hpend, hchange⟩ := ReplicaSync.effect_outlived collection opts (h := h)
    htomb hi hr
  dsimp only at hafter hchanges
  rw [hchange] at hchanges
  refine ⟨?_, ReplicaSync.pulledPlacement collection item, ?_, ?_, ?_⟩
  · rintro k hk ⟨dest, link, ifMatch, hkind⟩
    have hmem : k ∈ t.changes.filter (fun k => k.handle = h) := by
      rw [List.mem_filter]
      exact ⟨hk, by simp [ReplicaChange.handle, hkind, ReplicaChangeKind.handle]⟩
    rw [hchanges] at hmem
    cases hmem
  · have hh : (ReplicaSync.pulledPlacement collection item).handle = h := Merge.seen_handle hseen
    rw [CollectionRows.get_apply, hafter, hw, hpend]
    cases Outbox.confirmation h t.pushes <;> simp [hh]
  · simp [ReplicaSync.pulledPlacement]
  · simp [ReplicaSync.pulledPlacement, ReplicaPlacement.baseRevision, hi]

end

namespace UpgradeStep

/-- The step hydrates the row with the body of this revision. -/
def Hydrates (u : UpgradeStep) (p : ReplicaPlacement) (revision : String) : Prop :=
  ∃ item, ReplicaUpgrade.reply u.tier u.transcript p = some item ∧ u.tier = .full ∧
    item.body.isSome ∧ item.revision = some revision

end UpgradeStep

open ReplicaUpgrade in
/-- An upgrade moves a base revision to the one it hydrates the row with, and to no other. -/
theorem ReplicaUpgrade.Upgraded.baseRevision {tier : ReplicaTier} {p p' : ReplicaPlacement}
    {hit : Option ReplicaHash} {reply : Option ReplicaFetchedItem}
    (h : Upgraded tier p hit reply p') :
    p'.baseRevision = p.baseRevision ∨ p'.baseRevision = none ∨
      ∃ item, reply = some item ∧ tier = .full ∧ item.body.isSome ∧
        p'.baseRevision = item.revision := by
  cases h with
  | conflicted full conflict o => exact Or.inl rfl
  | linked =>
    left
    cases hit with
    | none => rfl
    | some hash =>
      cases hb : p.base <;> simp [ReplicaUpgrade.linked, ReplicaPlacement.baseRevision, hb]
  | answered _ claimed item =>
    have hid := identify_eq claimed p item
    cases htier : tier <;> cases hbody : item.body <;> simp only [answer, hbody] <;> rw [hid]
    · exact Or.inl rfl
    · exact Or.inl rfl
    · exact Or.inl rfl
    · right
      cases hb : p.base with
      | none => exact Or.inl (by simp [filled, summarised, ReplicaPlacement.baseRevision])
      | some base =>
        refine Or.inr ⟨item, rfl, trivial, by rw [hbody]; rfl, ?_⟩
        simp [filled, summarised, ReplicaPlacement.baseRevision]

/-- A row no one stored is not written by an upgrade. -/
theorem Upgrades.absent {collection : ReplicaCollectionId} {handles : List ReplicaHandle}
    {tier : ReplicaTier} {loaded : ReplicaLoaded} {t : Transcript} {s : CollectionRows}
    (h : Upgrades collection handles tier loaded t) (hs : Serves s t) {g : ReplicaHandle}
    (hg : s.rows[g]? = none) : (s.apply t.writes).rows[g]? = none := by
  rw [CollectionRows.get_apply, hg]
  apply rowAfter_of_ne
  intro op hop heq
  have hunstored : ∀ p : ReplicaPlacement, p.handle = g → s.rows[p.handle]? ≠ some p := by
    rintro p rfl hp
    rw [hg] at hp
    cases hp
  rcases h.sources hs hop with ⟨p, hp, hash, -, rfl⟩ | ⟨item, -, p, hp, -, -, hrow⟩
  · exact hunstored p (Option.some.inj heq) (h.first_served hs p hp)
  · cases hrow with
    | object => cases heq
    | row q written =>
      exact hunstored p (written.handle.symm.trans (Option.some.inj heq)) (hs p hp)

/-- A turn taken over the collection. -/
inductive Turn
  | upgrade (u : UpgradeStep)
  | sync (y : SyncStep)

namespace Turn

def transcript : Turn → Transcript
  | .upgrade u => u.transcript
  | .sync y => y.transcript

end Turn

/-- Upgrades and syncs of one collection in any order, each over the rows the last one left. -/
structure Interleaving (collection : ReplicaCollectionId) (n : ℕ) (rows : ℕ → CollectionRows)
    (turns : ℕ → Turn) : Prop where
  upgrades : ∀ i < n, ∀ u, turns i = .upgrade u →
    Upgrades collection u.handles u.tier u.loaded u.transcript ∧ Serves (rows i) u.transcript
  syncs : ∀ i < n, ∀ y, turns i = .sync y →
    Syncs collection y.opts y.loaded y.snapshot y.transcript ∧
      y.loaded.placements = (rows i).placements
  next : ∀ i < n, rows (i + 1) = (rows i).apply (turns i).transcript.writes

namespace Interleaving

/-- The row under the handle is deleted locally, the delete not pushed yet. -/
def Tombstoned (s : CollectionRows) (h : ReplicaHandle) (p : ReplicaPlacement) : Prop :=
  s.rows[h]? = some p ∧ p.status = .tombstone

/-- A remote holding the member at `revision`: every enumeration reports it for as long as the
replica's own row does not know it, and no other member is put under the handle. -/
structure EditedRemote (h : ReplicaHandle) (revision : String) (n : ℕ) (rows : ℕ → CollectionRows)
    (turns : ℕ → Turn) : Prop where
  sees : ∀ i < n, ∀ y p, turns i = .sync y → Tombstoned (rows i) h p →
    Sees (rows i) y.snapshot h revision
  undisturbed : ∀ i < n, ∀ y, turns i = .sync y → Undisturbed (rows i) h y.transcript

/-- The edit beats the delete: no Remove goes up, and the first sync after the delete leaves a live
row at the edit's revision. -/
structure EditWins (h : ReplicaHandle) (revision : String) (n : ℕ) (rows : ℕ → CollectionRows)
    (turns : ℕ → Turn) : Prop where
  unremoved : ∀ i < n, ∀ y, turns i = .sync y → ∀ k ∈ y.transcript.changes, ¬ k.kind.Removes h
  restored : ∀ i < n, ∀ y p, turns i = .sync y → Tombstoned (rows i) h p →
    ∃ q, (rows (i + 1)).rows[h]? = some q ∧ q.status ≠ .tombstone ∧ q.baseRevision = some revision

/-- No upgrade hydrates the tombstone with the edited body. -/
def Unhydrated (h : ReplicaHandle) (revision : String) (n : ℕ) (rows : ℕ → CollectionRows)
    (turns : ℕ → Turn) : Prop :=
  ∀ i < n, ∀ u p, turns i = .upgrade u → Tombstoned (rows i) h p → ¬ u.Hydrates p revision

/-- Any tombstone left was made against another revision. -/
def Outlives (s : CollectionRows) (h : ReplicaHandle) (revision : String) : Prop :=
  ∀ p, Tombstoned s h p → p.baseRevision ≠ some revision

variable {collection : ReplicaCollectionId} {n : ℕ} {rows : ℕ → CollectionRows} {turns : ℕ → Turn}
  {h : ReplicaHandle} {revision : String}

theorem outlives_of_live {s : CollectionRows} (hlive : s.LiveAt h) : Outlives s h revision :=
  fun p hp => absurd hp.2 (hlive p hp.1)

/-- A sync keeps the invariant, derives no Remove and pulls a tombstone's member back. -/
theorem sync_step (hrun : Interleaving collection n rows turns)
    (hremote : EditedRemote h revision n rows turns) {i : ℕ} (hi : i < n) {y : SyncStep}
    (hy : turns i = .sync y) (hout : Outlives (rows i) h revision) :
    Outlives (rows (i + 1)) h revision ∧ (∀ k ∈ y.transcript.changes, ¬ k.kind.Removes h) ∧
      ∀ p, Tombstoned (rows i) h p → ∃ q, (rows (i + 1)).rows[h]? = some q ∧
        q.status ≠ .tombstone ∧ q.baseRevision = some revision := by
  obtain ⟨hsync, hl⟩ := hrun.syncs i hi y hy
  have hnext := hrun.next i hi
  rw [hy] at hnext
  by_cases hlive : (rows i).LiveAt h
  · refine ⟨?_, hsync.unremoved hl hlive, fun p hp => absurd hp.2 (hlive p hp.1)⟩
    rw [hnext]
    exact outlives_of_live (hsync.live hl hlive)
  · obtain ⟨p, hp⟩ := Classical.not_forall.mp hlive
    obtain ⟨hstored, htomb⟩ := Classical.not_imp.mp hp
    have hdead : Tombstoned (rows i) h p := ⟨hstored, not_ne_iff.mp htomb⟩
    obtain ⟨hunremoved, q, hq, hqlive, hqr⟩ := hsync.outlived hl hstored hdead.2 (hout p hdead)
      (hremote.sees i hi y p hy hdead) (hremote.undisturbed i hi y hy)
    rw [hnext]
    refine ⟨?_, hunremoved, fun _ _ => ⟨q, hq, hqlive, hqr⟩⟩
    rintro q' ⟨hq', hdead'⟩
    have hsame : q' = q := Option.some.inj (hq'.symm.trans hq)
    exact absurd (hsame ▸ hdead') hqlive

/-- An upgrade that does not hydrate the tombstone with the edit keeps the invariant. -/
theorem upgrade_step (hrun : Interleaving collection n rows turns) {i : ℕ} (hi : i < n)
    {u : UpgradeStep} (hu : turns i = .upgrade u) (hout : Outlives (rows i) h revision)
    (hunhydrated : ∀ p, Tombstoned (rows i) h p → ¬ u.Hydrates p revision) :
    Outlives (rows (i + 1)) h revision := by
  obtain ⟨hupgrades, hserves⟩ := hrun.upgrades i hi u hu
  have hnext := hrun.next i hi
  rw [hu] at hnext
  rw [hnext]
  rintro q ⟨hq, htomb⟩
  cases hp : (rows i).rows[h]? with
  | none =>
    rw [Turn.transcript, hupgrades.absent hserves hp] at hq
    cases hq
  | some p =>
    have hph : p.handle = h := (rows i).keyed h p hp
    subst hph
    obtain ⟨p', hp', hupgraded⟩ := hupgrades.upgraded hserves hp
    have hsame : q = p' := Option.some.inj (hq.symm.trans hp')
    subst hsame
    obtain ⟨r, hr, hleaves⟩ := hupgrades.row hserves hp
    have hstatus : p.status = .tombstone := by
      rw [← hleaves.status, Option.some.inj (hr.symm.trans hp')]
      exact htomb
    have hdead : Tombstoned (rows i) p.handle p := ⟨hp, hstatus⟩
    rcases hupgraded.baseRevision with hkept | hnone | ⟨item, hreply, htier, hbody, hfilled⟩
    · rw [hkept]
      exact hout p hdead
    · rw [hnone]
      exact fun hc => (by cases hc)
    · rw [hfilled]
      exact fun hc => hunhydrated p hdead ⟨item, hreply, htier, hbody, hc⟩

/-- In every interleaving whose upgrades do not hydrate the tombstone with the edited body, the edit
beats the delete. -/
theorem edit_beats_delete (hrun : Interleaving collection n rows turns)
    (hremote : EditedRemote h revision n rows turns) {p : ReplicaPlacement}
    (hp : Tombstoned (rows 0) h p) (hr : p.baseRevision ≠ some revision)
    (hcond : Unhydrated h revision n rows turns) : EditWins h revision n rows turns := by
  have hinv : ∀ i ≤ n, Outlives (rows i) h revision := by
    intro i hi
    induction i with
    | zero =>
      intro q hq
      rw [Option.some.inj (hq.1.symm.trans hp.1)]
      exact hr
    | succ i ih =>
      have hin : i < n := hi
      cases hv : turns i with
      | upgrade u =>
        exact hrun.upgrade_step hin hv (ih hin.le) (fun q hq => hcond i hin u q hv hq)
      | sync y => exact (hrun.sync_step hremote hin hv (ih hin.le)).1
  refine ⟨?_, ?_⟩
  · intro i hi y hy
    exact (hrun.sync_step hremote hi hy (hinv i hi.le)).2.1
  · intro i hi y q hy hq
    exact (hrun.sync_step hremote hi hy (hinv i hi.le)).2.2 q hq

section Runs

/-- A card deleted before its body was ever fetched, its base at revision "1". -/
def deletedCard : ReplicaPlacement where
  collection := ⟨"contacts"⟩
  handle := ⟨"a"⟩
  linkId := none
  object := none
  level := .probed
  metadata := none
  sortKey := .unknown
  flags := .empty
  status := .tombstone
  conflictRevision := none
  conflictObject := none
  base := some ⟨.empty, some "1", none⟩
  origin := none

def deletedRows : CollectionRows := CollectionRows.empty.write (.upsertPlacement deletedCard)

/-- The card as the remote edited it since: what a fetch answers, and what an enumerate lists. -/
def editedCard : ReplicaFetchedItem :=
  ⟨⟨"a"⟩, ⟨"ada"⟩, ⟨"Ada"⟩, .unknown, some (.persisted ⟨"new"⟩ 3), some "2"⟩

def editedSnapshot : ReplicaRemoteSnapshot := ⟨[⟨⟨"a"⟩, .empty, some "2"⟩], [], true, ⟨[]⟩⟩

/-- An upgrade of the card, then a sync of what it left. -/
def upgradeThenSync (tier : ReplicaTier) :
    Option ((CollectionRows × Transcript) × (Seam × Transcript)) :=
  (UpgradeSequence.upgrade 9 ⟨"contacts"⟩ [⟨"a"⟩] tier [editedCard] deletedRows).bind (fun o =>
    ((⟨o.1, none, editedSnapshot, []⟩ : Seam).sync 9 ⟨"contacts"⟩ .default).map (fun o' => (o, o')))

/-- The interleaving a driven upgrade and a driven sync make. -/
theorem interleaving_of_runs {tier : ReplicaTier} {s₁ : CollectionRows} {t₁ t₂ : Transcript}
    {seam : Seam} (h : upgradeThenSync tier = some ((s₁, t₁), (seam, t₂)))
    (hserves : ∀ p ∈ t₁.loaded, deletedRows.rows[p.handle]? = some p) :
    Interleaving ⟨"contacts"⟩ 2
      (fun i => if i = 0 then deletedRows else if i = 1 then s₁ else s₁.apply t₂.writes)
      (fun i => if i = 0 then .upgrade ⟨[⟨"a"⟩], tier, ⟨deletedRows.placements, none⟩, t₁⟩
        else .sync ⟨.default, ⟨s₁.placements, none⟩, editedSnapshot, t₂⟩) := by
  obtain ⟨⟨s₁', t₁'⟩, hd₁, hd₂⟩ := Option.bind_eq_some_iff.mp h
  obtain ⟨⟨seam', t₂'⟩, hd₂, heq⟩ := Option.map_eq_some_iff.mp hd₂
  cases heq
  obtain ⟨hupgrades, hnext⟩ := UpgradeSequence.upgrade_upgrades hd₁
  obtain ⟨hsync, -⟩ := Seam.sync_syncs hd₂
  refine ⟨?_, ?_, ?_⟩
  · intro i hi u hu
    interval_cases i
    · cases hu
      exact ⟨hupgrades, hserves⟩
    · cases hu
  · intro i hi y hy
    interval_cases i
    · cases hy
    · cases hy
      exact ⟨hsync, rfl⟩
  · intro i hi
    interval_cases i
    · exact hnext
    · rfl

theorem deletedRows_get (g : ReplicaHandle) :
    deletedRows.rows[g]? = if deletedCard.handle = g then some deletedCard else none :=
  CollectionRows.get_single deletedCard g

/-- A remote that lists the card at its new revision, over the rows of such a run. -/
theorem editedRemote_of_runs {tier : ReplicaTier} {s₁ : CollectionRows} {t₁ t₂ : Transcript}
    (hlisted : (Merge.seen s₁.rows editedSnapshot ⟨"a"⟩).map (·.revision) = some (some "2"))
    (halone : ∀ p ∈ s₁.placements, p.handle = ⟨"a"⟩)
    (hunassigned : Outbox.Unassigned ⟨"a"⟩ t₂.pushes) :
    EditedRemote ⟨"a"⟩ "2" 2
      (fun i => if i = 0 then deletedRows else if i = 1 then s₁ else s₁.apply t₂.writes)
      (fun i => if i = 0 then .upgrade ⟨[⟨"a"⟩], tier, ⟨deletedRows.placements, none⟩, t₁⟩
        else .sync ⟨.default, ⟨s₁.placements, none⟩, editedSnapshot, t₂⟩) := by
  refine ⟨?_, ?_⟩
  · intro i hi y p hy _
    interval_cases i
    · cases hy
    · cases hy
      obtain ⟨item, hitem, hr⟩ := Option.map_eq_some_iff.mp hlisted
      exact ⟨item, hitem, hr⟩
  · intro i hi y hy
    interval_cases i
    · cases hy
    · cases hy
      refine ⟨?_, hunassigned⟩
      intro g p hp hg
      have hkeyed : p.handle = g := s₁.keyed g p hp
      have hmem := (s₁.mem_placements p).mpr (hkeyed.symm ▸ hp)
      exact absurd (hkeyed.symm.trans (halone p hmem)) hg

/-- Hydrated between the delete and the sync, the tombstone takes the edited card with it. -/
theorem hydrated_delete_removes_edit : ∃ rows turns,
    Interleaving ⟨"contacts"⟩ 2 rows turns ∧ EditedRemote ⟨"a"⟩ "2" 2 rows turns ∧
    Tombstoned (rows 0) ⟨"a"⟩ deletedCard ∧ deletedCard.baseRevision ≠ some "2" ∧
    ¬ EditWins ⟨"a"⟩ "2" 2 rows turns := by
  have hrun : (upgradeThenSync .full).any (fun o =>
      decide (∀ p ∈ o.1.2.loaded, deletedRows.rows[p.handle]? = some p) &&
      decide ((Merge.seen o.1.1.rows editedSnapshot ⟨"a"⟩).map (·.revision) = some (some "2")) &&
      decide (∀ p ∈ o.1.1.placements, p.handle = ⟨"a"⟩) &&
      decide (o.2.2.pushes.map (·.2) = [[]]) &&
      decide (o.2.2.changes.map (·.kind) =
        [.remove ⟨"a"⟩ none (some ⟨"ada"⟩) (some "2")])) = true := by
    decide
  obtain ⟨⟨⟨s₁, t₁⟩, ⟨seam, t₂⟩⟩, hboth, hall⟩ := (Option.any_eq_true _ _).mp hrun
  simp only [Bool.and_eq_true, decide_eq_true_eq] at hall
  obtain ⟨⟨⟨⟨hserves, hlisted⟩, halone⟩, hpushes⟩, hchanges⟩ := hall
  have hunassigned : Outbox.Unassigned ⟨"a"⟩ t₂.pushes :=
    Seam.unassigned_of_replies hpushes (by decide)
  refine ⟨_, _, interleaving_of_runs hboth hserves,
    editedRemote_of_runs hlisted halone hunassigned, ⟨?_, rfl⟩, by decide, ?_⟩
  · exact (deletedRows_get ⟨"a"⟩).trans (if_pos rfl)
  · intro hwins
    obtain ⟨k, hk, hkind⟩ : ∃ k ∈ t₂.changes, k.kind = .remove ⟨"a"⟩ none (some ⟨"ada"⟩)
        (some "2") := List.mem_map.mp (hchanges ▸ List.mem_singleton_self _)
    exact hwins.unremoved 1 (by decide) _ rfl k hk ⟨_, _, _, hkind⟩

/-- Summarised between the delete and the sync, the card is back. -/
theorem summarised_delete_outlived : ∃ rows turns,
    Interleaving ⟨"contacts"⟩ 2 rows turns ∧ EditWins ⟨"a"⟩ "2" 2 rows turns := by
  have hrun : (upgradeThenSync .metadata).any (fun o =>
      decide (∀ p ∈ o.1.2.loaded, deletedRows.rows[p.handle]? = some p) &&
      decide ((Merge.seen o.1.1.rows editedSnapshot ⟨"a"⟩).map (·.revision) = some (some "2")) &&
      decide (∀ p ∈ o.1.1.placements, p.handle = ⟨"a"⟩) &&
      decide (o.2.2.pushes = [])) = true := by
    decide
  obtain ⟨⟨⟨s₁, t₁⟩, ⟨seam, t₂⟩⟩, hboth, hall⟩ := (Option.any_eq_true _ _).mp hrun
  simp only [Bool.and_eq_true, decide_eq_true_eq] at hall
  obtain ⟨⟨⟨hserves, hlisted⟩, halone⟩, hpushes⟩ := hall
  have hunassigned : Outbox.Unassigned ⟨"a"⟩ t₂.pushes := by
    rw [hpushes]
    exact fun e he => (by cases he)
  have hseq := interleaving_of_runs hboth hserves
  refine ⟨_, _, hseq, edit_beats_delete (p := deletedCard) hseq
    (editedRemote_of_runs hlisted halone hunassigned) ⟨?_, rfl⟩ (by decide) ?_⟩
  · exact (deletedRows_get ⟨"a"⟩).trans (if_pos rfl)
  · intro i hi u p hu _
    interval_cases i
    · cases hu
      rintro ⟨item, -, htier, -⟩
      cases htier
    · cases hu

end Runs

end Interleaving
end IoReplica

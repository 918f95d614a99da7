import IoReplica.Mutate
import IoReplica.Sync.Repeat
import IoReplica.Sync.Seam
import Mathlib.Logic.Relation

/-! A replica of a remote whose content never changes: local edits, server edits and syncs in any
order, and what they converge on. -/
namespace IoReplica

/-- The members of a server without revisions, each with its flags. -/
abbrev Members := ReplicaHandle → Option (Finset String)

namespace Members

/-- What an enumerate lists a member as. -/
def item (h : ReplicaHandle) (flags : Finset String) : ReplicaRemoteItem := ⟨h, .known flags, none⟩

/-- Serving one accepted change. A flag change of a missing member, or its remove, does nothing, and
a replica that stages no body pushes nothing else. -/
def serve (m : Members) (kind : ReplicaChangeKind) : Members :=
  match kind with
  | .setFlags h (.known flags) => if (m h).isSome then Function.update m h (some flags) else m
  | .remove h .. => Function.update m h none
  | _ => m

/-- Serving the changes of a run, in order. -/
def serveAll (m : Members) (ks : List ReplicaChange) : Members :=
  ks.foldl (fun m k => m.serve k.kind) m

theorem serve_of_ne (m : Members) {kind : ReplicaChangeKind} {h : ReplicaHandle}
    (hne : kind.handle ≠ h) : m.serve kind h = m h := by
  cases kind with
  | add | update => rfl
  | remove g => exact Function.update_of_ne (Ne.symm hne) _ _
  | setFlags g flags =>
    cases flags with
    | unknown => rfl
    | known flags =>
      simp only [serve]
      split
      · exact Function.update_of_ne (Ne.symm hne) _ _
      · rfl

theorem serve_congr {m m' : Members} {h : ReplicaHandle} (hm : m h = m' h)
    (kind : ReplicaChangeKind) : m.serve kind h = m'.serve kind h := by
  by_cases hk : kind.handle = h
  · subst hk
    cases kind with
    | add | update => exact hm
    | remove g => simp [serve, ReplicaChangeKind.handle]
    | setFlags g flags =>
      cases flags with
      | unknown => exact hm
      | known flags =>
        simp only [ReplicaChangeKind.handle] at hm ⊢
        simp only [serve, hm]
        split
        · simp
        · exact hm
  · rw [serve_of_ne m hk, serve_of_ne m' hk, hm]

/-- A run's changes reach a member through the ones that name it. -/
theorem serveAll_at (m : Members) (ks : List ReplicaChange) (h : ReplicaHandle) :
    m.serveAll ks h = m.serveAll (ks.filter (fun k => k.handle = h)) h := by
  suffices hs : ∀ m m' : Members, m h = m' h →
      m.serveAll ks h = m'.serveAll (ks.filter (fun k => k.handle = h)) h from hs m m rfl
  induction ks with
  | nil => exact fun m m' hm => hm
  | cons k ks ih =>
    intro m m' hm
    by_cases hk : k.handle = h
    · rw [List.filter_cons_of_pos (by simp [hk])]
      exact ih _ _ (serve_congr hm k.kind)
    · rw [List.filter_cons_of_neg (by simp [hk])]
      exact ih _ _ ((serve_of_ne m hk).trans hm)

end Members

/-- One collection: the replica's rows, its server, the members its cursor saw, and what changed
since. -/
structure Immutable where
  rows : CollectionRows
  members : Members
  cursor : Set ReplicaHandle
  changed : Set ReplicaHandle

namespace Immutable

/-- An empty replica of a server: its first sync sees every member as changed. -/
def start (m : Members) : Immutable := ⟨.empty, m, ∅, {h | (m h).isSome}⟩

/-- What an enumerate of the server may report: the state of members and the absence of others. A
full one lists every member, a delta whatever changed since the cursor and was a member then or is
now. -/
structure Lists (w : Immutable) (snapshot : ReplicaRemoteSnapshot) : Prop where
  items : ∀ i ∈ snapshot.items, ∃ flags, w.members i.handle = some flags ∧
    i = Members.item i.handle flags
  vanished : ∀ h ∈ snapshot.vanished, w.members h = none
  listed : ∀ h, (w.members h).isSome → snapshot.complete = true ∨ h ∈ w.changed →
    (snapshot.reported h).isSome
  gone : snapshot.complete = false → ∀ h ∈ w.changed, h ∈ w.cursor → w.members h = none →
    h ∈ snapshot.vanished

/-- Every change is accepted, by a result that names it and assigns no handle. -/
structure Accepted (t : Transcript) : Prop where
  accepted : ∀ k ∈ t.changes, (Outbox.confirmation k.handle t.pushes).isSome
  unassigned : ∀ e ∈ t.pushes, ∀ r ∈ e.2, r.assigned = none

instance (t : Transcript) : Decidable (Accepted t) :=
  decidable_of_iff ((∀ k ∈ t.changes, (Outbox.confirmation k.handle t.pushes).isSome) ∧
    ∀ e ∈ t.pushes, ∀ r ∈ e.2, r.assigned = none) ⟨fun h => ⟨h.1, h.2⟩, fun h => ⟨h.1, h.2⟩⟩

/-- The default options, the cursor used or not. -/
def options (full : Bool) : ReplicaSyncOptions := { ReplicaSyncOptions.default with full := full }

/-- A completed sync of the collection, and the report it returned. A run without its cursor is
answered in full. -/
structure Run (collection : ReplicaCollectionId) (w : Immutable) (full : Bool)
    (loaded : ReplicaLoaded) (snapshot : ReplicaRemoteSnapshot) (t : Transcript)
    (report : ReplicaSyncReport) : Prop where
  loads : loaded.placements = w.rows.placements
  lists : w.Lists snapshot
  uncursored : full = true → snapshot.complete = true
  runs : Coroutine.Runs ReplicaSync.resume (ReplicaSync.new collection (options full)) none
    (enumerated collection (options full) loaded snapshot t) (.ok report)
  accepted : Accepted t

/-- What a sync leaves: its checkpoint was taken before its pushes, so they are what changed. -/
def synced (w : Immutable) (t : Transcript) : Immutable where
  rows := w.rows.apply t.writes
  members := w.members.serveAll t.changes
  cursor := {h | (w.members h).isSome}
  changed := {h | ∃ k ∈ t.changes, k.handle = h}

/-- One sync, whole. -/
inductive Sync (collection : ReplicaCollectionId) : Immutable → Immutable → Prop
  | run {w : Immutable} {full : Bool} {loaded : ReplicaLoaded} {snapshot : ReplicaRemoteSnapshot}
      {t : Transcript} {report : ReplicaSyncReport} (h : Run collection w full loaded snapshot t report) :
      Sync collection w (w.synced t)

/-- A local mutation of a stored row. -/
def mutated (w : Immutable) (collection : ReplicaCollectionId) (mutation : ReplicaMutation)
    (p : ReplicaPlacement) : Immutable :=
  { w with rows := w.rows.apply ((ReplicaMutate.new collection mutation).writes p) }

/-- A member's state set on the server. -/
def served (w : Immutable) (h : ReplicaHandle) (flags : Option (Finset String)) : Immutable :=
  { w with members := Function.update w.members h flags, changed := insert h w.changed }

/-- One step of an interleaving. -/
inductive Step (collection : ReplicaCollectionId) : Immutable → Immutable → Prop
  | setFlags {w : Immutable} {h : ReplicaHandle} {p : ReplicaPlacement} (flags : Finset String)
      (stored : w.rows.rows[h]? = some p) :
      Step collection w (w.mutated collection (.setFlags h (.known flags)) p)
  | remove {w : Immutable} {h : ReplicaHandle} {p : ReplicaPlacement}
      (stored : w.rows.rows[h]? = some p) : Step collection w (w.mutated collection (.remove h) p)
  | serverFlagged {w : Immutable} {h : ReplicaHandle} (flags : Finset String)
      (member : (w.members h).isSome) : Step collection w (w.served h (some flags))
  | serverAdded {w : Immutable} {h : ReplicaHandle} (flags : Finset String)
      (absent : w.members h = none) : Step collection w (w.served h (some flags))
  | serverRemoved {w : Immutable} {h : ReplicaHandle} (member : (w.members h).isSome) :
      Step collection w (w.served h none)
  | sync {w w' : Immutable} (h : Sync collection w w') : Step collection w w'

/-- A row of an immutable member: no body, a base, local flags. A Clean one matches its base. -/
structure Tracked (p : ReplicaPlacement) (old new : Finset String) : Prop where
  object : p.object = none
  unconflicted : p.conflictRevision = none
  base : p.base = some ⟨.known old, none, none⟩
  flags : p.flags = .known new
  status : (p.status = .clean ∧ new = old) ∨ p.status = .dirty ∨ p.status = .tombstone

/-- A row and a member in sync. -/
inductive Mirrors : Option ReplicaPlacement → Option (Finset String) → Prop
  | absent : Mirrors none none
  | present {p : ReplicaPlacement} {flags : Finset String} (tracked : Tracked p flags flags)
      (clean : p.status = .clean) : Mirrors (some p) (some flags)

/-- What holds after any interleaving: what did not change since the cursor is what the bases hold. -/
structure Inv (w : Immutable) : Prop where
  tracked : ∀ (h : ReplicaHandle) (p : ReplicaPlacement), w.rows.rows[h]? = some p →
    ∃ old new, Tracked p old new
  known : ∀ (h : ReplicaHandle), w.rows.rows[h]?.isSome → h ∈ w.cursor
  missing : ∀ h ∉ w.changed, w.rows.rows[h]? = none → w.members h = none
  based : ∀ h ∉ w.changed, ∀ p old new, w.rows.rows[h]? = some p → Tracked p old new →
    w.members h = some old

namespace Tracked
variable {p : ReplicaPlacement} {old new : Finset String}

/-- A flag change keeps a row's base. -/
theorem flagged (h : Tracked p old new) (flags : Finset String) :
    Tracked (ReplicaMutate.flagged p (.known flags)) old flags := by
  refine ⟨h.object, h.unconflicted, h.base, rfl, ?_⟩
  rcases h.status with ⟨hs, -⟩ | hs | hs <;> simp [ReplicaMutate.flagged, hs]

theorem removed (h : Tracked p old new) : Tracked (ReplicaMutate.removed p) old new :=
  ⟨h.object, h.unconflicted, h.base, h.flags, Or.inr (Or.inr rfl)⟩

theorem unique (h : Tracked p old new) {old' new' : Finset String} (h' : Tracked p old' new') :
    old = old' := by
  have hb := h.base.symm.trans h'.base
  simpa using hb

end Tracked

variable {w : Immutable} {collection : ReplicaCollectionId}

theorem inv_start (m : Members) : Inv (start m) := by
  have hnone : ∀ h : ReplicaHandle, (start m).rows.rows[h]? = none := by
    intro h
    simp [start, CollectionRows.empty]
  refine ⟨?_, ?_, ?_, ?_⟩
  · intro h p hp
    rw [hnone] at hp
    cases hp
  · intro h hp
    rw [hnone] at hp
    cases hp
  · intro h hh _
    simpa [start] using hh
  · intro h _ p old new hp
    rw [hnone] at hp
    cases hp

/-- Writing a row that keeps its base keeps the invariant. -/
theorem inv_upsert (hinv : Inv w) {h : ReplicaHandle} {p q : ReplicaPlacement}
    (hp : w.rows.rows[h]? = some p) (hq : q.handle = h)
    (hkeeps : ∀ old new, Tracked p old new → ∃ new', Tracked q old new') :
    Inv { w with rows := w.rows.write (.upsertPlacement q) } := by
  have hget : ∀ g : ReplicaHandle, (w.rows.write (.upsertPlacement q)).rows[g]? =
      if h = g then some q else w.rows.rows[g]? := by
    intro g
    rw [CollectionRows.get_write, rowAfter_upsert, rowAfter_nil, hq]
  obtain ⟨old, new, htracked⟩ := hinv.tracked h p hp
  obtain ⟨new', htracked'⟩ := hkeeps old new htracked
  refine ⟨?_, ?_, ?_, ?_⟩
  · intro g r hr
    rw [hget] at hr
    split at hr
    · cases hr
      exact ⟨old, new', htracked'⟩
    · exact hinv.tracked g r hr
  · intro g hg
    rw [hget] at hg
    split at hg
    · rename_i hgh
      rw [← hgh]
      exact hinv.known h (by rw [hp]; rfl)
    · exact hinv.known g hg
  · intro g hg hr
    rw [hget] at hr
    split at hr
    · cases hr
    · exact hinv.missing g hg hr
  · intro g hg r old₁ new₁ hr hr'
    rw [hget] at hr
    split at hr
    · rename_i hgh
      cases hr
      subst hgh
      rw [hr'.unique htracked']
      exact hinv.based h hg p old new hp htracked
    · exact hinv.based g hg r old₁ new₁ hr hr'

theorem inv_served (hinv : Inv w) (h : ReplicaHandle) (flags : Option (Finset String)) :
    Inv (w.served h flags) := by
  refine ⟨hinv.tracked, hinv.known, ?_, ?_⟩
  · intro g hg hr
    obtain ⟨hne, hg⟩ := not_or.mp (fun hc => hg (Set.mem_insert_iff.mpr hc))
    exact (Function.update_of_ne hne _ _).trans (hinv.missing g hg hr)
  · intro g hg p old new hp htracked
    obtain ⟨hne, hg⟩ := not_or.mp (fun hc => hg (Set.mem_insert_iff.mpr hc))
    exact (Function.update_of_ne hne _ _).trans (hinv.based g hg p old new hp htracked)

section Told
variable {snapshot : ReplicaRemoteSnapshot} (hlists : w.Lists snapshot)
include hlists

theorem reported_member {h : ReplicaHandle} {i : ReplicaRemoteItem}
    (hi : snapshot.reported h = some i) : (w.members h).map (Members.item h) = some i := by
  obtain ⟨flags, hm, heq⟩ := hlists.items i (List.mem_of_find?_eq_some hi)
  have hh := ReplicaRemoteSnapshot.reported_handle hi
  rw [hh] at hm heq
  rw [hm, heq]
  rfl

/-- A full listing, and a delta of what changed, report a member's state. -/
theorem reported_eq {h : ReplicaHandle} (hc : snapshot.complete = true ∨ h ∈ w.changed) :
    snapshot.reported h = (w.members h).map (Members.item h) := by
  cases hi : snapshot.reported h with
  | some i => exact (reported_member hlists hi).symm
  | none =>
    cases hm : w.members h with
    | none => rfl
    | some flags =>
      have hsome := hlists.listed h (by rw [hm]; rfl) hc
      rw [hi] at hsome
      cases hsome

/-- A stored handle that a delta does not mention did not change. -/
theorem unchanged (hinv : Inv w) (hdelta : snapshot.complete = false) {h : ReplicaHandle}
    (hrow : w.rows.rows[h]?.isSome) (hv : h ∉ snapshot.vanished) (hi : snapshot.reported h = none) :
    h ∉ w.changed := by
  intro hc
  have hnone := reported_eq hlists (Or.inr hc)
  rw [hi, eq_comm, Option.map_eq_none_iff] at hnone
  exact hv (hlists.gone hdelta h hc (hinv.known h hrow) hnone)

/-- A candidate pairs the row with the state of the member. -/
theorem told (hinv : Inv w) {h : ReplicaHandle} {c : Candidate}
    (hc : Merge.candidateAt w.rows.rows snapshot h = some c) :
    c = ⟨h, w.rows.rows[h]?, (w.members h).map (Members.item h)⟩ := by
  cases hcomplete : snapshot.complete with
  | true =>
    rw [Merge.candidateAt_complete hcomplete] at hc
    split at hc
    · cases hc
      rw [reported_eq hlists (Or.inl hcomplete)]
    · cases hc
  | false =>
    by_cases hv : h ∈ snapshot.vanished
    · rw [Merge.candidateAt_vanished hcomplete hv] at hc
      split at hc
      · cases hc
        rw [hlists.vanished h hv]
        rfl
      · cases hc
    · cases hi : snapshot.reported h with
      | some i =>
        rw [Merge.candidateAt_listed hcomplete hv hi] at hc
        cases hc
        rw [reported_member hlists hi]
      | none =>
        rw [Merge.candidateAt_unlisted hcomplete hv hi, Option.bind_eq_some_iff] at hc
        obtain ⟨p, hp, hc⟩ := hc
        split at hc
        · cases hc
        · cases hc
          obtain ⟨old, new, htracked⟩ := hinv.tracked h p hp
          have hmember := hinv.based h (unchanged hlists hinv hcomplete (by rw [hp]; rfl) hv hi) p
            old new hp htracked
          rw [hp, hmember, Merge.standIn, htracked.base, htracked.unconflicted]
          rfl

/-- What is no candidate is in sync. -/
theorem untold (hinv : Inv w) {h : ReplicaHandle}
    (hc : Merge.candidateAt w.rows.rows snapshot h = none) :
    Mirrors w.rows.rows[h]? (w.members h) := by
  have habsent : w.rows.rows[h]? = none → snapshot.reported h = none →
      Mirrors w.rows.rows[h]? (w.members h) := by
    intro hrow hi
    have hnone : w.members h = none := by
      by_cases hch : h ∈ w.changed
      · have hmember := reported_eq hlists (Or.inr hch)
        rw [hi, eq_comm, Option.map_eq_none_iff] at hmember
        exact hmember
      · exact hinv.missing h hch hrow
    rw [hrow, hnone]
    exact .absent
  cases hcomplete : snapshot.complete with
  | true =>
    rw [Merge.candidateAt_complete hcomplete] at hc
    split at hc
    · cases hc
    · rename_i hnot
      simp only [not_or, Option.not_isSome_iff_eq_none] at hnot
      exact habsent hnot.1 hnot.2
  | false =>
    by_cases hv : h ∈ snapshot.vanished
    · rw [Merge.candidateAt_vanished hcomplete hv] at hc
      split at hc
      · cases hc
      · rename_i hnot
        simp only [not_or, Option.not_isSome_iff_eq_none] at hnot
        exact habsent hnot.1 hnot.2
    · cases hi : snapshot.reported h with
      | some i =>
        rw [Merge.candidateAt_listed hcomplete hv hi] at hc
        cases hc
      | none =>
        cases hp : w.rows.rows[h]? with
        | none => exact hp ▸ habsent hp hi
        | some p =>
          rw [Merge.candidateAt_unlisted hcomplete hv hi, hp, Option.bind_some] at hc
          split at hc
          · rename_i hclean
            obtain ⟨old, new, htracked⟩ := hinv.tracked h p hp
            have hmember := hinv.based h (unchanged hlists hinv hcomplete (by rw [hp]; rfl) hv hi)
              p old new hp htracked
            rw [hmember]
            rcases htracked.status with ⟨-, heq⟩ | hs | hs
            · rw [heq] at htracked
              exact .present htracked hclean
            · rw [hclean] at hs
              cases hs
            · rw [hclean] at hs
              cases hs
          · cases hc

end Told

open ReplicaSync

/-- What merging a row against its member comes to: in sync at once, or once its change is served
and recorded. -/
inductive Converges (collection : ReplicaCollectionId) (c : Candidate)
    (m : Option (Finset String)) (e : ReplicaSync × Option ReplicaChangeKind) : Prop
  | merged (change : e.2 = none) (idle : e.1.pendingAt c.handle = .none)
      (mirrors : Mirrors (rowAfter c.handle c.loc e.1.writes) m) : Converges collection c m e
  | pushed {kind : ReplicaChangeKind} (change : e.2 = some kind)
      (mirrors : ∀ (r : ReplicaPushResult) (members : Members), r.handle = c.handle →
        members c.handle = m →
          Mirrors (rowAfter c.handle (rowAfter c.handle c.loc e.1.writes)
            ((e.1.pendingAt c.handle).record collection r)) (members.serve kind c.handle)) :
      Converges collection c m e

theorem movedFrom_item (h : ReplicaHandle) (flags : Finset String) (known : Option String) :
    movedFrom (Members.item h flags) known = false := rfl

/-- Merging two known sets over a known base gives a known set. -/
theorem merge_known (a b c : Finset String) : ∃ d,
    ReplicaFlags.merge (.known a) (.known b) (.known c) = .known d := ⟨_, rfl⟩

/-- A live row and its member have their flags alone to reconcile. -/
theorem mergePresent_tracked {p : ReplicaPlacement} {old cur : Finset String}
    (hp : Tracked p old cur) (d : ReplicaSync) (h : ReplicaHandle) (flags : Finset String) :
    d.mergePresent p (Members.item h flags) =
      d.reconcileFlags p (Members.item h flags) .derive := by
  have hc : p.status ≠ .conflict := by
    rcases hp.status with ⟨hs, -⟩ | hs | hs <;> simp [hs]
  have hcontent : d.reconcileContent p (Members.item h flags) = (d, .untouched) := by
    simp [reconcileContent, hp.base, hc, localChanged, hp.object, movedFrom_item]
  rw [mergePresent, hcontent]

theorem tombstone_converges {p : ReplicaPlacement} {old cur : Finset String} {h : ReplicaHandle}
    (hp : Tracked p old cur) (hs : p.status = .tombstone) (full : Bool)
    (m : Option (Finset String)) :
    Converges collection ⟨h, some p, m.map (Members.item h)⟩ m
      (effect collection (options full) ⟨h, some p, m.map (Members.item h)⟩) := by
  have hmerge := merge_tombstone (new collection (options full)) h hs (m.map (Members.item h))
  have hnone := new_pendingAt collection (options full) h
  cases m with
  | none =>
    refine .merged (congrArg Prod.snd hmerge) ?_ ?_
    · exact (congrArg (fun e => e.1.pendingAt h) hmerge).trans hnone
    · have hw : (effect collection (options full) ⟨h, some p, none⟩).1.writes =
          [.dropPlacement collection h .deleted] := congrArg (fun e => e.1.writes) hmerge
      dsimp only [Option.map_none]
      rw [hw, rowAfter_drop, rowAfter_nil, if_pos rfl]
      exact .absent
  | some flags =>
    have hbased : p.base.isSome := by rw [hp.base]; rfl
    have hedit : p.stagedEdit.isSome = false := by simp [ReplicaPlacement.stagedEdit, hp.object]
    have hmay : (new collection (options full)).opts.mayRemove = true := rfl
    have heffect : effect collection (options full) ⟨h, some p, some (Members.item h flags)⟩ =
        ((new collection (options full)).stashDrop h,
          some (.remove h (p.origin.map (·.collection)) p.linkId p.baseRevision)) := by
      refine hmerge.trans ?_
      simp only [Option.map_some, if_pos hbased, mergeTombstone, movedFrom_item, hedit,
        Bool.false_and, hmay, Bool.not_true, Bool.false_eq_true, if_false]
    dsimp only [Option.map_some]
    rw [heffect]
    refine .pushed rfl (fun r members hr hm => ?_)
    have hpend : ((new collection (options full)).stashDrop h).pendingAt h =
        { Pending.none with dropped := true } := by
      simp [pendingAt, stashDrop, new, awaitsDrop, Pending.none]
    dsimp only at hr hm ⊢
    rw [hpend]
    simp [Pending.record, Pending.none, hr, Members.serve]
    exact .absent

theorem live_converges {p : ReplicaPlacement} {old cur : Finset String} {h : ReplicaHandle}
    (hh : p.handle = h) (hp : Tracked p old cur) (hs : p.status ≠ .tombstone) (full : Bool)
    (m : Option (Finset String)) :
    Converges collection ⟨h, some p, m.map (Members.item h)⟩ m
      (effect collection (options full) ⟨h, some p, m.map (Members.item h)⟩) := by
  subst hh
  have hmerge := merge_live (ReplicaSync.new collection (options full)) p.handle hs (m.map (Members.item p.handle))
  have hnone := new_pendingAt collection (options full) p.handle
  have hbased : p.base.isSome := by rw [hp.base]; rfl
  cases m with
  | none =>
    have hedited : editedAgainstDelete p = false := by simp [editedAgainstDelete, hp.object]
    simp only [Option.map_none, if_pos hbased, mergeVanished, hedited, Bool.false_eq_true,
      if_false] at hmerge
    refine .merged (congrArg Prod.snd hmerge) ?_ ?_
    · exact (congrArg (fun e => e.1.pendingAt p.handle) hmerge).trans hnone
    · have hw : (effect collection (options full) ⟨p.handle, some p, none⟩).1.writes =
          [.dropPlacement collection p.handle .deleted] := congrArg (fun e => e.1.writes) hmerge
      dsimp only [Option.map_none]
      rw [hw, rowAfter_drop, rowAfter_nil, if_pos rfl]
      exact .absent
  | some flags =>
    simp only [Option.map_some, mergePresent_tracked hp] at hmerge
    have heffect : effect collection (options full) ⟨p.handle, some p, some (Members.item p.handle flags)⟩ =
        (ReplicaSync.new collection (options full)).reconcileFlags p (Members.item p.handle flags)
          .derive := hmerge
    obtain ⟨hwrites, hpend, hkind⟩ := (ReplicaSync.new collection (options full)).reconcileFlags_spec
      hp.base (Members.item p.handle flags) .derive
    rw [hnone] at hpend
    have hmay : (ReplicaSync.new collection (options full)).opts.mayFlags = true := rfl
    have hsettled : settledStatus p = .clean := by
      rcases hp.status with ⟨hs, -⟩ | hs | hs <;> simp [settledStatus, hs]
    dsimp only [Option.map_some]
    rw [heffect]
    obtain ⟨merged, hm⟩ : ∃ d, mergedFlags ⟨.known old, none, none⟩ p (Members.item p.handle flags) =
        .known d := by
      rw [mergedFlags, hp.flags]
      exact merge_known old cur flags
    have hi : (Members.item p.handle flags).flags = .known flags := rfl
    have hrebased : ∀ d, Tracked ({ p with
        flags := .known d, status := settledStatus p, base := flagBase p (.known d) } :
          ReplicaPlacement) d d := by
      intro d
      refine ⟨hp.object, hp.unconflicted, ?_, rfl, Or.inl ⟨hsettled, rfl⟩⟩
      simp [flagBase, ReplicaPlacement.baseRevision, ReplicaPlacement.baseObject, hp.base]
    by_cases heq : merged = flags
    · subst heq
      have hno : pushesFlags (ReplicaSync.new collection (options full)).opts
          ⟨.known old, none, none⟩ p (Members.item p.handle merged) .derive = false := by
        simp [pushesFlags, hm, hi]
      rw [hno] at hpend hkind
      refine .merged hkind hpend ?_
      have hempty : (ReplicaSync.new collection (options full)).writes = [] := rfl
      dsimp only
      rw [hwrites, hempty, List.nil_append, flagRow, hm, hi, if_pos rfl]
      split
      · rw [asWrites, Option.map_some, Option.toList_some, rowAfter_upsert, rowAfter_nil,
          if_pos (show (settledRow p (.known merged)).handle = p.handle from rfl)]
        exact .present (hrebased merged) hsettled
      · rename_i hquiet
        simp only [not_or, not_not, not_and, Bool.not_eq_false] at hquiet
        obtain ⟨hcur, hold, hdirty⟩ := hquiet
        rw [hp.flags, ReplicaFlags.known.injEq] at hcur hold
        have hedit : contentEdit p = false := by simp [contentEdit, hp.object]
        rw [asWrites, Option.map_none, Option.toList_none, rowAfter_nil, hcur]
        rcases hp.status with ⟨hclean, -⟩ | hd | ht
        · exact .present (hold ▸ hp) hclean
        · rw [hdirty hd] at hedit
          cases hedit
        · exact absurd ht hs
    · have hyes : pushesFlags (ReplicaSync.new collection (options full)).opts
          ⟨.known old, none, none⟩ p (Members.item p.handle flags) .derive = true := by
        simp [pushesFlags, hm, hi, heq, hmay]
      rw [hyes, if_pos rfl] at hpend hkind
      refine .pushed hkind (fun r members _ hmember => ?_)
      dsimp only at hmember ⊢
      have hrow : (Pending.flagsRebased { p with flags := .known merged }).handle = p.handle := rfl
      have hserved : members.serve (.setFlags p.handle (.known merged)) p.handle = some merged := by
        rw [Members.serve, hmember]
        exact Function.update_self ..
      rw [hm, hserved, hpend, hm]
      simp only [Pending.record, Pending.none, Option.map_some, Option.toList_some, Option.map_none,
        Option.toList_none, List.append_nil, Bool.false_eq_true, if_false, Option.getD_none,
        rowAfter_upsert, rowAfter_nil, if_pos hrow]
      exact .present (hrebased merged) hsettled

/-- Whatever stands under a handle converges with its member. -/
theorem converges (collection : ReplicaCollectionId) (row : Option ReplicaPlacement)
    (h : ReplicaHandle) (hrow : ∀ p, row = some p → p.handle = h ∧ ∃ old cur, Tracked p old cur) (full : Bool)
    (m : Option (Finset String)) :
    Converges collection ⟨h, row, m.map (Members.item h)⟩ m
      (effect collection (options full) ⟨h, row, m.map (Members.item h)⟩) := by
  have hnone := new_pendingAt collection (options full) h
  cases row with
  | some p =>
    obtain ⟨hh, old, cur, hp⟩ := hrow p rfl
    by_cases hs : p.status = .tombstone
    · exact tombstone_converges hp hs full m
    · exact live_converges hh hp hs full m
  | none =>
    cases m with
    | none => exact .merged rfl hnone .absent
    | some flags =>
      refine .merged rfl hnone ?_
      have hw : (effect collection (options full) ⟨h, none, some (Members.item h flags)⟩).1.writes =
          [.upsertPlacement (pulledPlacement collection (Members.item h flags))] := rfl
      have hh : (pulledPlacement collection (Members.item h flags)).handle = h := rfl
      dsimp only [Option.map_some]
      rw [hw, rowAfter_upsert, rowAfter_nil, if_pos hh]
      exact .present ⟨rfl, rfl, rfl, rfl, Or.inl ⟨rfl, rfl⟩⟩ rfl

/-- A row in sync with its member is merged with nothing to do. -/
theorem mirrors_idle {row : Option ReplicaPlacement} {m : Option (Finset String)}
    (hm : Mirrors row m) (h : ReplicaHandle) (full : Bool) :
    Candidate.Idle collection (options full) ⟨h, row, m.map (Members.item h)⟩ := by
  cases hm with
  | absent => rfl
  | @present p flags hp hclean =>
    have hs : p.status ≠ .tombstone := by simp [hclean]
    have hbf : p.baseFlags = some (.known flags) := by simp [ReplicaPlacement.baseFlags, hp.base]
    have hi : (Members.item h flags).flags = .known flags := rfl
    rw [Candidate.Idle, effect, merge_live _ _ hs]
    dsimp only [Option.map_some]
    rw [mergePresent_tracked hp]
    simp [reconcileFlags, hbf, hp.flags, hi, hclean]

section Runs
variable {full : Bool} {loaded : ReplicaLoaded} {snapshot : ReplicaRemoteSnapshot} {t : Transcript}
  {report : ReplicaSyncReport}

theorem Run.syncs (h : Run collection w full loaded snapshot t report) :
    Syncs collection (options full) loaded snapshot (enumerated collection (options full) loaded
      snapshot t) := ⟨t, report, rfl, h.runs⟩

/-- A run over rows without a body writes onto no row but a candidate's own. -/
theorem Run.undisturbed (hinv : Inv w) (h : Run collection w full loaded snapshot t report)
    (g : ReplicaHandle) :
    Undisturbed w.rows g (enumerated collection (options full) loaded snapshot t) := by
  refine ⟨?_, ?_⟩
  · rintro f p hp - ⟨o, ho, -⟩
    obtain ⟨old, cur, htracked⟩ := hinv.tracked f p hp
    rw [htracked.object] at ho
    cases ho
  · intro e he r hr _
    have hassigned := h.accepted.unassigned e he r hr
    rw [hassigned]
    simp

/-- One sync leaves every row in sync with its member. -/
theorem Run.mirrors (hinv : Inv w) (h : Run collection w full loaded snapshot t report)
    (g : ReplicaHandle) :
    Mirrors (w.synced t).rows.rows[g]? ((w.synced t).members g) := by
  have hu := h.undisturbed hinv g
  have hserved := w.members.serveAll_at t.changes g
  dsimp only [synced]
  rw [CollectionRows.get_apply, hserved]
  cases hc : Merge.candidateAt w.rows.rows snapshot g with
  | none =>
    obtain ⟨hrow, hchanges⟩ := h.syncs.away h.loads hc hu
    have hsame : t.changes.filter (fun k => k.handle = g) = [] := hchanges
    rw [hsame]
    exact (hrow w.rows.rows[g]?).symm ▸ untold h.lists hinv hc
  | some c =>
    have htold := told h.lists hinv hc
    subst htold
    obtain ⟨hrow, hchanges⟩ := h.syncs.runAt (c := ⟨g, _, _⟩) h.loads hc hu
    have hafter : rowAfter g w.rows.rows[g]? t.writes = _ := hrow w.rows.rows[g]?
    have hsame : t.changes.filter (fun k => k.handle = g) = _ := hchanges
    rw [hafter, hsame]
    have hconv := converges collection w.rows.rows[g]? g
      (fun p hp => ⟨w.rows.keyed g p hp, hinv.tracked g p hp⟩) full (w.members g)
    cases hconv with
    | merged change idle hm =>
      dsimp only at idle hm ⊢
      rw [change, idle]
      split
      · exact hm
      · exact hm
    | @pushed kind change hm =>
      have hone : ReplicaChange.new collection kind ∈ t.changes.filter (fun k => k.handle = g) := by
        rw [hsame, change]
        exact List.mem_singleton_self _
      obtain ⟨hmem, hname⟩ := List.mem_filter.mp hone
      have hsome := h.accepted.accepted _ hmem
      rw [of_decide_eq_true hname] at hsome
      obtain ⟨r, hr⟩ := Option.isSome_iff_exists.mp hsome
      have hconfirms : r.confirms g = true := by simpa using List.find?_some hr
      have hconf : Outbox.confirmation g (Transcript.pushes (enumerated collection (options full)
          loaded snapshot t)) = some r := hr
      dsimp only at hm ⊢
      rw [change, hconf]
      exact hm r w.members (of_decide_eq_true hconfirms).2 rfl

/-- Serving changes adds no member. -/
theorem serveAll_isSome (m : Members) (ks : List ReplicaChange) {h : ReplicaHandle}
    (hs : (m.serveAll ks h).isSome) : (m h).isSome := by
  induction ks generalizing m with
  | nil => exact hs
  | cons k ks ih =>
    have hrest := ih (m.serve k.kind) hs
    by_cases hk : k.kind.handle = h
    · subst hk
      cases hkind : k.kind with
      | add | update =>
        rw [hkind] at hrest
        exact hrest
      | remove g =>
        rw [hkind] at hrest
        simp [Members.serve, ReplicaChangeKind.handle] at hrest
      | setFlags g flags =>
        rw [hkind] at hrest
        cases flags with
        | unknown => exact hrest
        | known flags =>
          simp only [Members.serve, ReplicaChangeKind.handle] at hrest ⊢
          split at hrest
          · assumption
          · exact hrest
    · rwa [Members.serve_of_ne m hk] at hrest

theorem Run.inv (hinv : Inv w) (h : Run collection w full loaded snapshot t report) :
    Inv (w.synced t) := by
  have hmirrors := h.mirrors hinv
  refine ⟨?_, ?_, ?_, ?_⟩
  · intro g p hp
    have hm := hmirrors g
    rw [hp] at hm
    generalize (w.synced t).members g = m at hm
    cases hm with
    | @present p flags hp hclean => exact ⟨flags, flags, hp⟩
  · intro g hg
    obtain ⟨p, hp⟩ := Option.isSome_iff_exists.mp hg
    have hm := hmirrors g
    rw [hp] at hm
    refine serveAll_isSome w.members t.changes ?_
    generalize hmember : (w.synced t).members g = m at hm
    cases hm with
    | @present p flags hp hclean =>
      have hserved : w.members.serveAll t.changes g = some flags := hmember
      rw [hserved]
      rfl
  · intro g _ hrow
    have hm := hmirrors g
    rw [hrow] at hm
    generalize (w.synced t).members g = m at hm ⊢
    cases hm
    rfl
  · intro g _ p old new hp htracked
    have hm := hmirrors g
    rw [hp] at hm
    generalize (w.synced t).members g = m at hm ⊢
    cases hm with
    | @present p flags hp hclean => rw [htracked.unique hp]

/-- Rows in sync with their members are synced with nothing to do. -/
theorem Run.idle (hinv : Inv w) (hm : ∀ g : ReplicaHandle, Mirrors w.rows.rows[g]? (w.members g))
    (h : Run collection w full loaded snapshot t report) :
    t = [written [.setCheckpoint collection snapshot.checkpoint]] ∧ report = .default := by
  refine runs_idle (fun c hc => ?_) h.runs
  rw [mem_mergedCandidates, h.loads, CollectionRows.collect_placements] at hc
  have htold := told h.lists hinv hc
  rw [htold]
  exact mirrors_idle (hm c.handle) c.handle full

end Runs

theorem Step.inv (hinv : Inv w) {w' : Immutable} (h : Step collection w w') : Inv w' := by
  cases h with
  | setFlags flags stored =>
    have hkeyed := w.rows.keyed _ _ stored
    exact inv_upsert hinv stored hkeyed
      (fun old new htracked => ⟨flags, htracked.flagged flags⟩)
  | remove stored =>
    have hkeyed := w.rows.keyed _ _ stored
    exact inv_upsert hinv stored hkeyed
      (fun old new htracked => ⟨new, htracked.removed⟩)
  | serverFlagged flags => exact inv_served hinv _ _
  | serverAdded flags => exact inv_served hinv _ _
  | serverRemoved => exact inv_served hinv _ _
  | sync hs =>
    cases hs with
    | run hrun => exact hrun.inv hinv

/-- Any interleaving keeps the invariant. -/
theorem reachable_inv {m : Members} (h : Relation.ReflTransGen (Step collection) (start m) w) :
    Inv w := by
  induction h with
  | refl => exact inv_start m
  | tail _ hstep ih => exact hstep.inv ih

/-- The replica is the server: the same members, every row Clean, its flags and base the server's. -/
structure Converged (w : Immutable) : Prop where
  handles : ∀ h : ReplicaHandle, w.rows.rows[h]?.isSome ↔ (w.members h).isSome
  rows : ∀ (h : ReplicaHandle) (p : ReplicaPlacement), w.rows.rows[h]? = some p →
    p.status = .clean ∧ w.members h = p.flags.known? ∧ p.baseFlags = some p.flags

theorem converged_of_mirrors (hm : ∀ g : ReplicaHandle, Mirrors w.rows.rows[g]? (w.members g)) :
    Converged w := by
  refine ⟨?_, ?_⟩
  · intro h
    have hh := hm h
    generalize w.rows.rows[h]? = row at hh ⊢
    generalize w.members h = m at hh ⊢
    cases hh <;> simp
  · intro h p hp
    have hh := hm h
    rw [hp] at hh
    generalize w.members h = m at hh ⊢
    cases hh with
    | @present p flags htracked clean =>
      refine ⟨clean, by rw [htracked.flags]; rfl, ?_⟩
      rw [ReplicaPlacement.baseFlags, htracked.base, htracked.flags]
      rfl

/-- Whatever the interleaving of local edits, server edits and syncs, two further syncs leave the
replica converged, and a third writes its checkpoint alone and reports nothing. -/
theorem immutable_converges {m : Members} {w₁ w₂ : Immutable}
    (h : Relation.ReflTransGen (Step collection) (start m) w) (h₁ : Sync collection w w₁)
    (h₂ : Sync collection w₁ w₂) :
    Converged w₂ ∧ ∀ full loaded snapshot t report, Run collection w₂ full loaded snapshot t report →
      Transcript.writes (enumerated collection (options full) loaded snapshot t) =
        [.setCheckpoint collection snapshot.checkpoint] ∧ report = .default := by
  have hinv := reachable_inv h
  cases h₁ with
  | run hrun₁ =>
    have hinv₁ := hrun₁.inv hinv
    cases h₂ with
    | run hrun₂ =>
      have hmirrors := hrun₂.mirrors hinv₁
      refine ⟨converged_of_mirrors hmirrors, ?_⟩
      intro full loaded snapshot t report hrun
      obtain ⟨rfl, hreport⟩ := hrun.idle (hrun₂.inv hinv₁) hmirrors
      exact ⟨rfl, hreport⟩

section Replicas

/-- A listing of the one member that changed. -/
theorem lists_one {h : ReplicaHandle} {flags : Finset String} (complete : Bool)
    (checkpoint : ReplicaCheckpoint) (hchanged : w.changed = {h}) (hm : w.members h = some flags)
    (halone : complete = true → ∀ g, (w.members g).isSome → g = h) :
    w.Lists ⟨[Members.item h flags], [], complete, checkpoint⟩ := by
  have hlisted : (ReplicaRemoteSnapshot.mk [Members.item h flags] [] complete checkpoint).reported h =
      some (Members.item h flags) := List.find?_cons_of_pos (by simp [Members.item])
  refine ⟨?_, ?_, ?_, ?_⟩
  · intro i hi
    rw [List.mem_singleton.mp hi]
    exact ⟨flags, hm, rfl⟩
  · intro g hg
    cases hg
  · intro g hg hc
    have hgh : g = h := hc.elim (fun hcomplete => halone hcomplete g hg)
      (fun hin => by rwa [hchanged] at hin)
    rw [hgh, hlisted]
    rfl
  · intro _ g hg _ hnone
    rw [hchanged] at hg
    rw [Set.mem_singleton_iff.mp hg, hm] at hnone
    cases hnone

/-- A driven sync is a run of the collection, and leaves its rows. -/
theorem driven {s s' : Seam} {t : Transcript} {fuel : ℕ} {full : Bool}
    (h : s.sync fuel collection (options full) = some (s', t)) (hrows : w.rows = s.rows)
    (hlists : w.Lists s.snapshot) (hfull : full = true → s.snapshot.complete = true)
    (haccepted : Accepted t) :
    ∃ loaded u report, Run collection w full loaded s.snapshot u report ∧ u.changes = t.changes ∧
      (w.synced u).rows = s'.rows := by
  obtain ⟨⟨rest, report, rfl, hruns⟩, hleft⟩ := Seam.sync_syncs h
  refine ⟨_, rest, report, ⟨congrArg CollectionRows.placements hrows.symm, hlists, hfull, hruns, ?_⟩,
    rfl, ?_⟩
  · exact ⟨haccepted.accepted, haccepted.unassigned⟩
  · rw [hleft, ← hrows]
    rfl

/-- A server of one message. -/
def mailbox : Members := Function.update (fun _ => none) ⟨"a"⟩ (some {"seen"})

theorem mailbox_alone (g : ReplicaHandle) (hg : (mailbox g).isSome) : g = ⟨"a"⟩ := by
  by_contra hne
  rw [mailbox, Function.update_of_ne hne] at hg
  cases hg

theorem start_mailbox_changed : (start mailbox).changed = {⟨"a"⟩} :=
  Set.ext (fun g => ⟨mailbox_alone g, fun hg => by rw [Set.mem_singleton_iff.mp hg]; rfl⟩)

/-- The first sync, listed in full. -/
def mailboxSeam : Seam := ⟨.empty, none, ⟨[Members.item ⟨"a"⟩ {"seen"}], [], true, ⟨[1]⟩⟩, []⟩

/-- The message flagged offline, while the server gains a second one. -/
def flagEdit : ReplicaMutation := .setFlags ⟨"a"⟩ (.known {"seen", "flagged"})

def firstRow : ReplicaPlacement := pulledPlacement ⟨"inbox"⟩ (Members.item ⟨"a"⟩ {"seen"})

/-- The second sync, whose delta names the new message alone and whose push is accepted. -/
def editedSeam (rows : CollectionRows) : Seam where
  rows := rows.apply ((ReplicaMutate.new ⟨"inbox"⟩ flagEdit).writes firstRow)
  checkpoint := some ⟨[1]⟩
  snapshot := ⟨[Members.item ⟨"b"⟩ ∅], [], false, ⟨[2]⟩⟩
  replies := [[⟨⟨"a"⟩, .accepted, none, none⟩]]

/-- The third sync, whose delta names what the second pushed. -/
def pushedSeam (rows : CollectionRows) : Seam where
  rows := rows
  checkpoint := some ⟨[2]⟩
  snapshot := ⟨[Members.item ⟨"a"⟩ {"seen", "flagged"}], [], false, ⟨[3]⟩⟩
  replies := []

def flagPush : ReplicaChangeKind := .setFlags ⟨"a"⟩ (.known {"seen", "flagged"})

/-- What a run pushed, where every change was accepted. -/
def acceptedKinds (t : Transcript) : Option (List ReplicaChangeKind) :=
  if Accepted t then some (t.changes.map (·.kind)) else none

theorem accepted_of_kinds {t : Transcript} {kinds : List ReplicaChangeKind}
    (h : acceptedKinds t = some kinds) : Accepted t ∧ t.changes.map (·.kind) = kinds := by
  rw [acceptedKinds] at h
  split at h
  · exact ⟨‹_›, Option.some.inj h⟩
  · cases h

/-- What a sync leaves on the server hangs on the changes it pushed, not on their keys. -/
theorem synced_kinds {t : Transcript} {kinds : List ReplicaChangeKind}
    (h : t.changes.map (·.kind) = kinds) :
    (w.synced t).members = kinds.foldl Members.serve w.members ∧
      (w.synced t).changed = {g | ∃ k ∈ kinds, k.handle = g} := by
  subst h
  refine ⟨?_, ?_⟩
  · rw [List.foldl_map]
    rfl
  · ext g
    refine ⟨?_, ?_⟩
    · rintro ⟨k, hk, hg⟩
      exact ⟨k.kind, List.mem_map_of_mem hk, hg⟩
    · rintro ⟨_, hk, hg⟩
      obtain ⟨k, hmem, rfl⟩ := List.mem_map.mp hk
      exact ⟨k, hmem, hg⟩

/-- A message flagged here while the server gains another: the flags are pushed by a delta sync,
the next delta lists what was pushed, and the replica is the server. -/
theorem mailbox_converges : ∃ (w₁ w₂ : Immutable) (loaded₁ loaded₂ : ReplicaLoaded)
    (t₁ t₂ : Transcript) (report₁ report₂ : ReplicaSyncReport),
    Sync ⟨"inbox"⟩ (start mailbox) w₁ ∧ w₁.rows.rows[(⟨"a"⟩ : ReplicaHandle)]? = some firstRow ∧
    w₂ = (w₁.mutated ⟨"inbox"⟩ flagEdit firstRow).served ⟨"b"⟩ (some ∅) ∧
    Run ⟨"inbox"⟩ w₂ false loaded₁ ⟨[Members.item ⟨"b"⟩ ∅], [], false, ⟨[2]⟩⟩ t₁ report₁ ∧
    t₁.changes.map (·.kind) = [flagPush] ∧
    Run ⟨"inbox"⟩ (w₂.synced t₁) false loaded₂
      ⟨[Members.item ⟨"a"⟩ {"seen", "flagged"}], [], false, ⟨[3]⟩⟩ t₂ report₂ ∧
    Converged ((w₂.synced t₁).synced t₂) ∧
    ((w₂.synced t₁).synced t₂).members ⟨"a"⟩ = some {"seen", "flagged"} ∧
    ((w₂.synced t₁).synced t₂).members ⟨"b"⟩ = some ∅ := by
  have hrun : ((mailboxSeam.sync 9 ⟨"inbox"⟩ (options false)).bind (fun o =>
      ((editedSeam o.1.rows).sync 9 ⟨"inbox"⟩ (options false)).bind (fun o₁ =>
        ((pushedSeam o₁.1.rows).sync 9 ⟨"inbox"⟩ (options false)).map (fun o₂ =>
          (o.1.rows.rows[(⟨"a"⟩ : ReplicaHandle)]?,
            [acceptedKinds o.2, acceptedKinds o₁.2, acceptedKinds o₂.2]))))) =
      some (some firstRow, [some [], some [flagPush], some []]) := by
    decide +kernel
  obtain ⟨⟨s, t⟩, h, hrest⟩ := Option.bind_eq_some_iff.mp hrun
  obtain ⟨⟨s₁, t₁⟩, h₁, hrest⟩ := Option.bind_eq_some_iff.mp hrest
  obtain ⟨⟨s₂, t₂⟩, h₂, heq⟩ := Option.map_eq_some_iff.mp hrest
  simp only [Prod.mk.injEq, List.cons.injEq, and_true] at heq
  obtain ⟨hfirst, hkinds, hkinds₁, hkinds₂⟩ := heq
  obtain ⟨haccepted, hkinds⟩ := accepted_of_kinds hkinds
  obtain ⟨haccepted₁, hkinds₁⟩ := accepted_of_kinds hkinds₁
  obtain ⟨haccepted₂, hkinds₂⟩ := accepted_of_kinds hkinds₂
  -- the first sync pulls the message
  obtain ⟨_, u, _, hsync, hu, hrows⟩ := driven h rfl
    (lists_one true _ start_mailbox_changed rfl (fun _ => mailbox_alone)) (fun hf => by cases hf)
    haccepted
  obtain ⟨hmembers, hchanged⟩ := synced_kinds (w := start mailbox) (hu ▸ hkinds)
  -- the second lists the new message alone, and pushes the flags
  obtain ⟨w₂, hw₂⟩ : ∃ w₂, w₂ = (((start mailbox).synced u).mutated ⟨"inbox"⟩ flagEdit firstRow).served
    ⟨"b"⟩ (some ∅) := ⟨_, rfl⟩
  have hmembers₂ : w₂.members = Function.update mailbox ⟨"b"⟩ (some ∅) := by
    rw [hw₂, served, mutated]
    dsimp only
    rw [hmembers]
    rfl
  have hchanged₂ : w₂.changed = {⟨"b"⟩} := by
    rw [hw₂, served, mutated]
    dsimp only
    rw [hchanged]
    simp
  obtain ⟨loaded₁, u₁, report₁, hsync₁, hu₁, hrows₁⟩ := driven h₁
    (by rw [hw₂, served, mutated, hrows]; rfl)
    (lists_one false _ hchanged₂ (by rw [hmembers₂]; rfl) (fun hf => by cases hf))
    (fun hf => by cases hf) haccepted₁
  obtain ⟨hmembers₃, hchanged₃⟩ := synced_kinds (w := w₂) (hu₁ ▸ hkinds₁)
  -- the third lists what the second pushed
  have hflagged : (w₂.synced u₁).members ⟨"a"⟩ = some {"seen", "flagged"} := by
    rw [hmembers₃, hmembers₂]
    decide
  have hnew : (w₂.synced u₁).members ⟨"b"⟩ = some ∅ := by
    rw [hmembers₃, hmembers₂]
    decide
  have hchanged₃ : (w₂.synced u₁).changed = {⟨"a"⟩} := by
    rw [hchanged₃]
    ext g
    simp [flagPush, ReplicaChangeKind.handle, eq_comm]
  obtain ⟨loaded₂, u₂, report₂, hsync₂, hu₂, -⟩ := driven h₂ hrows₁
    (lists_one false _ hchanged₃ hflagged (fun hf => by cases hf)) (fun hf => by cases hf) haccepted₂
  obtain ⟨hmembers₄, -⟩ := synced_kinds (w := w₂.synced u₁) (hu₂ ▸ hkinds₂)
  have hstored : ((start mailbox).synced u).rows.rows[(⟨"a"⟩ : ReplicaHandle)]? = some firstRow := by
    rw [hrows]
    exact hfirst
  have habsent : (((start mailbox).synced u).mutated ⟨"inbox"⟩ flagEdit firstRow).members ⟨"b"⟩ =
      none := by
    rw [mutated, hmembers]
    rfl
  have hreach : Relation.ReflTransGen (Step ⟨"inbox"⟩) (start mailbox) w₂ := by
    rw [hw₂]
    exact ((Relation.ReflTransGen.single (.sync (.run hsync))).tail
      (.setFlags {"seen", "flagged"} hstored)).tail (.serverAdded ∅ habsent)
  refine ⟨_, w₂, loaded₁, loaded₂, u₁, u₂, report₁, report₂, .run hsync, hstored, hw₂, hsync₁,
    hu₁ ▸ hkinds₁, hsync₂, (immutable_converges hreach (.run hsync₁) (.run hsync₂)).1, ?_, ?_⟩
  · rw [hmembers₄]
    exact hflagged
  · rw [hmembers₄]
    exact hnew

end Replicas

end Immutable
end IoReplica

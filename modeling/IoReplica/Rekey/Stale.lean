import IoReplica.Rekey.Links
import IoReplica.Sync.Merge

/-! The bodies a rebuild carries: which old row each new member takes, and the body left beside a
revision it was never fetched at. -/
namespace IoReplica

/-- A body held in full, which the base names beside a revision. -/
structure ReplicaPlacement.Pairs (row : ReplicaPlacement) (body : ReplicaHash)
    (revision : String) : Prop where
  level : row.level = .full
  object : row.object = some body
  base : ∃ b, row.base = some b ∧ b.object = some body ∧ b.revision = some revision

namespace ReplicaPlacement.Pairs

open ReplicaSync (localChanged movedFrom)

variable {row : ReplicaPlacement} {body : ReplicaHash} {revision : String}

/-- No upgrade asks for such a body again. -/
theorem not_pending (h : row.Pairs body revision) (hs : row.status ≠ .conflict) :
    ReplicaUpgrade.pending .full row = false := by
  simp [ReplicaUpgrade.pending, ReplicaUpgrade.isConflicted, hs, h.level, h.object]

/-- No sync pulls such a body again while the remote lists the revision. -/
theorem untouched (h : row.Pairs body revision) (hs : row.status ≠ .conflict) (self : ReplicaSync)
    {item : ReplicaRemoteItem} (hr : item.revision = some revision) :
    self.reconcileContent row item = (self, .untouched) := by
  obtain ⟨b, hb, hobject, hrevision⟩ := h.base
  have hlocal : localChanged row b = false := by simp [localChanged, h.object, hobject]
  have hremote : movedFrom item b.revision = false := by simp [movedFrom, hr, hrevision]
  simp [ReplicaSync.reconcileContent, hb, hs, hlocal, hremote]

end ReplicaPlacement.Pairs

namespace ReplicaRekey

/-- The row of a new member, the old row it carries once known. -/
def placed (self : ReplicaRekey) (links : HandleMap Resolved) (item : ReplicaRemoteItem)
    (carried : Option ReplicaPlacement) : ReplicaPlacement :=
  carried.elim (self.fresh item links[item.handle]?)
    (fun old => self.carry old item links[item.handle]?)

/-- The old row a new member listed after `before` carries: the holder of its link id, unless an
earlier member took it. -/
def carriedFrom (s : CollectionRows) (links : HandleMap Resolved) (before : List ReplicaRemoteItem)
    (item : ReplicaRemoteItem) : Option ReplicaPlacement :=
  (linkOf links item).bind (fun l =>
    if ∃ i ∈ before, linkOf links i = some l then none else holder s.spine l)

namespace Spine

variable {self : ReplicaRekey} {links : HandleMap Resolved}

theorem member_writes (sp : Spine) (item : ReplicaRemoteItem) :
    (member self links sp item).writes = sp.writes ++ [.upsertPlacement
      (self.placed links item ((linkOf links item).bind (fun l => sp.byLink[l]?)))] := by
  cases hr : links[item.handle]? with
  | none => simp [member, placed, linkOf, hr, takeMatch]
  | some r =>
    cases hm : sp.byLink[r.linkId]? <;> simp [member, placed, linkOf, hr, hm, takeMatch]

/-- What the members placed so far leave to match. -/
theorem members_byLink (sp : Spine) (items : List ReplicaRemoteItem) (l : ReplicaLinkId) :
    (items.foldl (member self links) sp).byLink[l]? =
      if ∃ i ∈ items, linkOf links i = some l then none else sp.byLink[l]? := by
  induction items generalizing sp with
  | nil => simp
  | cons item items ih =>
    rw [List.foldl_cons, ih, member_byLink]
    change (if ∃ i ∈ items, linkOf links i = some l then none else
      if linkOf links item = some l then none else _) = _
    by_cases hitem : linkOf links item = some l
    · rw [if_pos hitem, ite_self, if_pos ⟨item, List.mem_cons_self, hitem⟩]
    · rw [if_neg hitem]
      refine if_congr ?_ rfl rfl
      simp [hitem]

theorem Linked.members {sp : Spine} (h : sp.Linked) (self : ReplicaRekey)
    (links : HandleMap Resolved) (items : List ReplicaRemoteItem) :
    (items.foldl (Spine.member self links) sp).Linked := by
  induction items generalizing sp with
  | nil => exact h
  | cons item items ih => exact ih (Linked.member h self links item)

end Spine

/-- The batch of a rebuild, split at one new member. -/
theorem rebuild_split (collection : ReplicaCollectionId) {loaded : ReplicaLoaded}
    {snapshot : ReplicaRemoteSnapshot} {s : CollectionRows} (links : HandleMap Resolved)
    (hl : loaded.placements = s.placements) {before after : List ReplicaRemoteItem}
    {item : ReplicaRemoteItem} (hitems : snapshot.items = before ++ item :: after) :
    ∃ earlier later survivors drops,
      List.Forall₂ (Holds links) after later ∧
      Batch s links snapshot.items (earlier ++ (enumerated collection loaded snapshot).placed links
        item (carriedFrom s links before item) :: later) survivors drops ∧
      ((enumerated collection loaded snapshot).rebuild links).2 = batchOps collection
        snapshot.checkpoint (earlier ++ (enumerated collection loaded snapshot).placed links
          item (carriedFrom s links before item) :: later) survivors drops := by
  obtain ⟨rows, survivors, drops, hb, hbatch⟩ := rebuild_batch collection snapshot links hl
  obtain ⟨_, last⟩ := loaded
  dsimp only at hl
  subst hl
  let self := enumerated collection ⟨s.placements, last⟩ snapshot
  let start := Spine.ofRows s.spine ⟨0, 0, 0⟩
  let sp := before.foldl (Spine.member self links) start
  let full := snapshot.items.foldl (Spine.member self links) start
  have hlinked : start.Linked := by
    intro l p hp
    rw [ofRows_byLink] at hp
    exact (holder_linkId hp).2
  obtain ⟨-, -, earlier, hearlier, hbefore⟩ : Spine.Places links before start sp :=
    Spine.members_places before hlinked
  have hsp : sp.Linked := Spine.Linked.members hlinked self links before
  obtain ⟨-, -, later, hlater, hafter⟩ :=
    Spine.members_places after (Spine.Linked.member hsp self links item)
  have hcarried : (linkOf links item).bind (fun l => sp.byLink[l]?) =
      carriedFrom s links before item := by
    refine congrArg _ (funext fun l => ?_)
    rw [Spine.members_byLink, ofRows_byLink]
  let row := self.placed links item (carriedFrom s links before item)
  have hmembers : full.writes = (earlier ++ row :: later).map .upsertPlacement := by
    simp only [full]
    rw [hitems, List.foldl_append, List.foldl_cons, hlater, Spine.member_writes, hearlier, hcarried]
    simp [start, Spine.ofRows, row]
  obtain ⟨hresurrects, -⟩ := Spine.resurrects_spec full s.spine_pairwise
  have hwrites : ((enumerated collection ⟨s.placements, last⟩ snapshot).rebuild links).2 =
      (s.spine.foldl Spine.resurrect full).writes ++
        s.spine.filterMap (supersede collection (s.spine.foldl Spine.resurrect full).written) ++
        [.setCheckpoint collection snapshot.checkpoint] := rfl
  have hlen : rows.length = (earlier ++ row :: later).length := by
    rw [← hb.members.length_eq, hitems, List.length_append, List.length_append, List.length_cons,
      List.length_cons, hbefore.length_eq, hafter.length_eq]
  have hrows : rows = earlier ++ row :: later := by
    have hprefix := hwrites.symm.trans hbatch
    rw [hresurrects, hmembers, batchOps] at hprefix
    simp only [List.append_assoc] at hprefix
    have hmap := List.append_inj_left hprefix (by rw [List.length_map, List.length_map, hlen])
    exact ((List.map_injective_iff.mpr fun _ _ h => ReplicaWriteOp.upsertPlacement.inj h)
      hmap).symm
  exact ⟨earlier, later, survivors, drops, hafter, hrows ▸ hb, hrows ▸ hbatch⟩

/-- The row a rebuild leaves under the last listing of a handle, no surviving edit standing there. -/
theorem rebuild_row (collection : ReplicaCollectionId) {loaded : ReplicaLoaded}
    {snapshot : ReplicaRemoteSnapshot} {s : CollectionRows} (links : HandleMap Resolved)
    (hl : loaded.placements = s.placements) {before after : List ReplicaRemoteItem}
    {item : ReplicaRemoteItem} (hitems : snapshot.items = before ++ item :: after)
    (hlast : ∀ i ∈ after, i.handle ≠ item.handle)
    (hspared : Spared s links snapshot.items item) :
    (s.apply ((enumerated collection loaded snapshot).rebuild links).2).rows[item.handle]? =
      some ((enumerated collection loaded snapshot).placed links item
        (carriedFrom s links before item)) := by
  obtain ⟨earlier, later, survivors, drops, hafter, hb, hbatch⟩ :=
    rebuild_split collection links hl hitems
  generalize hrow : (enumerated collection loaded snapshot).placed links item
    (carriedFrom s links before item) = row at hb hbatch
  have hhandle : row.handle = item.handle := by
    rw [← hrow]
    cases carriedFrom s links before item <;> rfl
  have hnamed : ∀ op ∈ later.map ReplicaWriteOp.upsertPlacement ++
      ((survivors.map resurrected).map ReplicaWriteOp.upsertPlacement ++
        (drops.map (fun p => ReplicaWriteOp.dropPlacement collection p.handle .superseded) ++
          [ReplicaWriteOp.setCheckpoint collection snapshot.checkpoint])),
      op.row ≠ some item.handle := by
    intro op hop
    simp only [List.mem_append, List.mem_map, List.mem_singleton] at hop
    rcases hop with ⟨r, hr, rfl⟩ | ⟨_, ⟨p, hp, rfl⟩, rfl⟩ | ⟨p, hp, rfl⟩ | rfl
    · obtain ⟨i, hi, hholds⟩ := Listing.forall₂_mem_left hafter.flip r hr
      rw [ReplicaWriteOp.row_upsert, hholds.handle]
      exact fun h => hlast i hi (Option.some.inj h)
    · exact fun h => hspared p ((hb.edits p).mp hp) (Option.some.inj h)
    · rw [ReplicaWriteOp.row_drop]
      refine fun h => ((hb.dropped p).mp hp).2.1 item ?_ (Option.some.inj h).symm
      rw [hitems]
      exact List.mem_append_right _ List.mem_cons_self
    · exact nofun
  rw [hbatch, CollectionRows.get_apply, batchOps, List.map_append, List.map_cons]
  simp only [List.append_assoc, List.cons_append]
  rw [rowAfter_append, rowAfter_upsert, if_pos hhandle]
  exact rowAfter_of_ne _ hnamed

/-- Every pending delete written so far is an old row's. -/
def Spine.Mourns (old : List ReplicaPlacement) (sp : Spine) : Prop :=
  ∀ p, .upsertPlacement p ∈ sp.writes → p.status = .tombstone →
    ∃ q ∈ old, q.linkId = p.linkId ∧ q.status = .tombstone

theorem carriedStatus_tombstone {p : ReplicaPlacement} {flags itemFlags : ReplicaFlags}
    (h : carriedStatus p flags itemFlags = .tombstone) : p.status = .tombstone := by
  cases hp : p.status with
  | tombstone => rfl
  | conflict => simp [carriedStatus, hp] at h
  | clean | dirty | created =>
    simp only [carriedStatus, hp] at h
    split_ifs at h

theorem Spine.Mourns.member {old : List ReplicaPlacement} {sp : Spine} (h : sp.Mourns old)
    (hlink : ∀ (l : ReplicaLinkId) q, sp.byLink[l]? = some q → q ∈ old) (self : ReplicaRekey)
    (links : HandleMap Resolved) (item : ReplicaRemoteItem) :
    (Spine.member self links sp item).Mourns old := by
  intro p hp ht
  rw [Spine.member_writes, List.mem_append] at hp
  rcases hp with hp | hp
  · exact h p hp ht
  · cases List.mem_singleton.mp hp
    cases hc : (linkOf links item).bind (fun l => sp.byLink[l]?) with
    | none =>
      rw [hc] at ht
      cases ht
    | some q =>
      rw [hc] at ht
      obtain ⟨l, -, hq⟩ := Option.bind_eq_some_iff.mp hc
      exact ⟨q, hlink l q hq, rfl, carriedStatus_tombstone ht⟩

theorem Spine.Mourns.members {old : List ReplicaPlacement} {sp : Spine} (h : sp.Mourns old)
    (hlink : ∀ (l : ReplicaLinkId) q, sp.byLink[l]? = some q → q ∈ old) (self : ReplicaRekey)
    (links : HandleMap Resolved) (items : List ReplicaRemoteItem) :
    (items.foldl (Spine.member self links) sp).Mourns old := by
  induction items generalizing sp with
  | nil => exact h
  | cons item items ih =>
    refine ih (h.member hlink self links item) ?_
    intro l q hq
    rw [Spine.member_byLink] at hq
    split at hq
    · cases hq
    · exact hlink l q hq

theorem Spine.Mourns.resurrects {old : List ReplicaPlacement} {sp : Spine} (h : sp.Mourns old)
    (rest : List ReplicaPlacement) : (rest.foldl Spine.resurrect sp).Mourns old := by
  induction rest generalizing sp with
  | nil => exact h
  | cons p rest ih =>
    refine ih ?_
    rw [Spine.resurrect]
    split
    · exact h
    · split
      · intro r hr ht
        rcases List.mem_append.mp hr with hr | hr
        · exact h r hr ht
        · cases List.mem_singleton.mp hr
          cases ht
      · exact h

/-- A row a rebuild writes as a pending delete carries one. -/
theorem rebuild_tombstone (collection : ReplicaCollectionId) (loaded : ReplicaLoaded)
    (snapshot : ReplicaRemoteSnapshot) (links : HandleMap Resolved) {p : ReplicaPlacement}
    (hp : .upsertPlacement p ∈ ((enumerated collection loaded snapshot).rebuild links).2)
    (ht : p.status = .tombstone) :
    ∃ q ∈ spineOf loaded.placements, q.linkId = p.linkId ∧ q.status = .tombstone := by
  let old := spineOf loaded.placements
  let start := Spine.ofRows old ⟨0, 0, 0⟩
  let sp := snapshot.items.foldl (Spine.member (enumerated collection loaded snapshot) links) start
  have hstart : start.Mourns old := fun r hr => by cases hr
  have hlink : ∀ (l : ReplicaLinkId) q, start.byLink[l]? = some q → q ∈ old := by
    intro l q hq
    rw [ofRows_byLink] at hq
    exact (holder_linkId hq).1
  have hbatch : ((enumerated collection loaded snapshot).rebuild links).2 =
      (old.foldl Spine.resurrect sp).writes ++ old.filterMap
        (supersede collection (old.foldl Spine.resurrect sp).written) ++
          [.setCheckpoint collection snapshot.checkpoint] := rfl
  rw [hbatch, List.mem_append, List.mem_append] at hp
  rcases hp with (hp | hp) | hp
  · exact ((hstart.members hlink _ links snapshot.items).resurrects old) p hp ht
  · obtain ⟨q, -, hq⟩ := List.mem_filterMap.mp hp
    rw [supersede] at hq
    split at hq <;> cases hq
  · cases List.mem_singleton.mp hp

/-- The carry keeps a body and its level, and names the body beside the revision now observed. -/
theorem carry_pairs_iff (self : ReplicaRekey) (q : ReplicaPlacement) (item : ReplicaRemoteItem)
    (resolved : Option Resolved) (body : ReplicaHash) (revision : String) :
    (self.carry q item resolved).Pairs body revision ↔
      q.level = .full ∧ q.object = some body ∧ q.baseObject = some body ∧
        item.revision = some revision := by
  constructor
  · rintro ⟨hlevel, hobject, _, ⟨⟩, hbase, hrevision⟩
    exact ⟨hlevel, hobject, hbase, hrevision⟩
  · rintro ⟨hlevel, hobject, hbase, hrevision⟩
    exact ⟨hlevel, hobject, _, rfl, hbase, hrevision⟩

/-- A row whose body is its base's is carried by its flags alone. -/
theorem carriedStatus_unstaged {q : ReplicaPlacement} {body : ReplicaHash}
    (hobject : q.object = some body) (hbase : q.baseObject = some body)
    (ht : q.status ≠ .tombstone) (hc : q.status ≠ .conflict) (flags itemFlags : ReplicaFlags) :
    carriedStatus q flags itemFlags = if flags ≠ itemFlags then .dirty else .clean := by
  obtain ⟨b, hb, hsame⟩ := Option.bind_eq_some_iff.mp hbase
  cases hq : q.status with
  | tombstone => exact absurd hq ht
  | conflict => exact absurd hq hc
  | clean | dirty | created => simp [carriedStatus, hq, hb, hsame, hobject]

/-- An old row whose body was fetched at its base revision, and a new member of the same item the
remote lists at another one. -/
structure Outdated (s : CollectionRows) (links : HandleMap Resolved)
    (items : List ReplicaRemoteItem) (item : ReplicaRemoteItem) (p : ReplicaPlacement)
    (body : ReplicaHash) (revision : String) : Prop where
  old : p ∈ s.spine
  listed : item ∈ items
  link : ∃ l, p.linkId = some l ∧ linkOf links item = some l
  unstaged : p.stagedEdit = none
  object : p.object = some body
  base : ∃ b, p.base = some b ∧ b.object = some body ∧ b.revision ≠ some revision
  observed : item.revision = some revision

/-- The row that stays under a new member's handle carries `q`, a live row holding `body` in full as
its base does. -/
structure Restated (s : CollectionRows) (links : HandleMap Resolved)
    (items : List ReplicaRemoteItem) (item : ReplicaRemoteItem) (q : ReplicaPlacement)
    (body : ReplicaHash) : Prop where
  carried : ∃ before after, items = before ++ item :: after ∧
    carriedFrom s links before item = some q ∧ ∀ i ∈ after, i.handle ≠ item.handle
  spared : Spared s links items item
  live : q.status ≠ .tombstone ∧ q.status ≠ .conflict
  level : q.level = .full
  object : q.object = some body
  base : q.baseObject = some body

/-- The flags a carry gives a row. -/
def carriedFlags (q : ReplicaPlacement) (item : ReplicaRemoteItem) : ReplicaFlags :=
  ReplicaFlags.merge (q.baseFlags.getD .empty) q.flags item.flags

section Row

variable {collection : ReplicaCollectionId} {loaded : ReplicaLoaded}
  {snapshot : ReplicaRemoteSnapshot} {t : Transcript} {s : CollectionRows}
  {links : HandleMap Resolved} {item : ReplicaRemoteItem} {q : ReplicaPlacement}
  {body : ReplicaHash} {revision : String}

/-- A restated body stands beside the new revision, in a row that is dirty only for its flags. -/
theorem Restated.row (h : Rekeys collection loaded snapshot t)
    (hl : loaded.placements = s.placements)
    (hr : Restated s (resolveLinks t.fetched) snapshot.items item q body)
    (ho : item.revision = some revision) :
    ∃ row, (s.apply t.writes).rows[item.handle]? = some row ∧ row.Pairs body revision ∧
      row.status = if carriedFlags q item ≠ item.flags then .dirty else .clean := by
  obtain ⟨before, after, hitems, hcarried, hlast⟩ := hr.carried
  have hrow := rebuild_row collection (resolveLinks t.fetched) hl hitems hlast hr.spared
  rw [h.writes, hrow, hcarried]
  refine ⟨_, rfl, ?_, ?_⟩
  · exact (carry_pairs_iff _ q item _ body revision).mpr ⟨hr.level, hr.object, hr.base, ho⟩
  · exact carriedStatus_unstaged hr.object hr.base hr.live.1 hr.live.2 _ _

/-- A live row pairing the body with the revision is one that carries it. -/
theorem restated_of_pairs (h : Rekeys collection loaded snapshot t)
    (hl : loaded.placements = s.placements) (hi : item ∈ snapshot.items) {row : ReplicaPlacement}
    (hrow : (s.apply t.writes).rows[item.handle]? = some row) (hp : row.Pairs body revision)
    (hlive : row.status = .clean ∨ row.status = .dirty) :
    ∃ q, Restated s (resolveLinks t.fetched) snapshot.items item q body := by
  obtain ⟨before, j, after, hitems, hj, hlast⟩ := Listing.last_listed (·.handle) hi
  have hjm : j ∈ snapshot.items := by
    rw [hitems]
    exact List.mem_append_right _ List.mem_cons_self
  obtain ⟨rows, survivors, drops, hb, hwrites⟩ :=
    rebuild_batch collection snapshot (resolveLinks t.fetched) hl
  have hspared : Spared s (resolveLinks t.fetched) snapshot.items j := by
    intro p hsurvives hh
    rcases hb.row_cases collection snapshot.checkpoint item.handle with
      ⟨e, -, -, he⟩ | ⟨hnone, -⟩
    · rw [← hwrites, ← h.writes, hrow] at he
      rw [Option.some.inj he] at hlive
      rcases hlive with hclean | hdirty
      · cases hclean
      · cases hdirty
    · exact hnone p hsurvives (hh.trans hj)
  have hleft := rebuild_row collection (resolveLinks t.fetched) hl hitems (hj ▸ hlast) hspared
  rw [← h.writes, hj, hrow] at hleft
  have hplaced := Option.some.inj hleft
  cases hc : carriedFrom s (resolveLinks t.fetched) before j with
  | none =>
    rw [hc] at hplaced
    have hobject := hp.object
    rw [hplaced] at hobject
    cases hobject
  | some q =>
    rw [hc] at hplaced
    subst hplaced
    -- a member listed twice takes its row at the first listing, and is left fresh by the last
    have hsame : item = j := by
      rw [hitems] at hi
      rcases List.mem_append.mp hi with hbefore | hin
      · obtain ⟨l, hjl, htaken⟩ := Option.bind_eq_some_iff.mp hc
        have hil : linkOf (resolveLinks t.fetched) item = some l := by
          rw [← hjl, linkOf, linkOf, hj]
        rw [if_pos ⟨item, hbefore, hil⟩] at htaken
        cases htaken
      · rcases List.mem_cons.mp hin with hitem | hafter
        · exact hitem
        · exact absurd rfl (hlast item hafter)
    subst hsame
    obtain ⟨hlevel, hobject, hbase, -⟩ := (carry_pairs_iff _ q item _ body revision).mp hp
    refine ⟨q, ⟨before, after, hitems, hc, hlast⟩, hspared, ?_, hlevel, hobject, hbase⟩
    constructor <;> intro hq <;>
      · have hstatus : carriedStatus q (carriedFlags q item) item.flags = .clean ∨
            carriedStatus q (carriedFlags q item) item.flags = .dirty := hlive
        simp [carriedStatus, hq] at hstatus

/-- No row of a rebuild passes an old body off as synced at a revision it was not fetched at exactly
when no member of the item restates it, the flags agreeing. Nothing is left to fetch the new content
by, the flags agreeing or not. -/
theorem rekey_passes_off_iff (h : Rekeys collection loaded snapshot t)
    (hl : loaded.placements = s.placements) {p : ReplicaPlacement}
    (ho : Outdated s (resolveLinks t.fetched) snapshot.items item p body revision) :
    ((∀ row, (s.apply t.writes).rows[item.handle]? = some row →
        ¬ (row.status = .clean ∧ row.Pairs body revision)) ↔
      ∀ q, Restated s (resolveLinks t.fetched) snapshot.items item q body →
        carriedFlags q item ≠ item.flags) ∧
    ((∀ row, (s.apply t.writes).rows[item.handle]? = some row →
        row.status = .clean ∨ row.status = .dirty → ¬ row.Pairs body revision) ↔
      ∀ q, ¬ Restated s (resolveLinks t.fetched) snapshot.items item q body) := by
  refine ⟨⟨?_, ?_⟩, ⟨?_, ?_⟩⟩
  · intro hnone q hr hflags
    obtain ⟨row, hrow, hpairs, hstatus⟩ := hr.row h hl ho.observed
    rw [if_neg (not_not.mpr hflags)] at hstatus
    exact hnone row hrow ⟨hstatus, hpairs⟩
  · rintro hnone row hrow ⟨hclean, hpairs⟩
    obtain ⟨q, hr⟩ := restated_of_pairs h hl ho.listed hrow hpairs (Or.inl hclean)
    obtain ⟨row', hrow', -, hstatus⟩ := hr.row h hl ho.observed
    rw [hrow] at hrow'
    rw [← Option.some.inj hrow', hclean, if_pos (hnone q hr)] at hstatus
    cases hstatus
  · intro hnone q hr
    obtain ⟨row, hrow, hpairs, hstatus⟩ := hr.row h hl ho.observed
    refine hnone row hrow ?_ hpairs
    rw [hstatus]
    split_ifs <;> simp
  · rintro hnone row hrow hlive hpairs
    obtain ⟨q, hr⟩ := restated_of_pairs h hl ho.listed hrow hpairs hlive
    exact hnone q hr

end Row

section Runs

/-- A card in sync at its first revision, under a status. -/
def card (status : ReplicaStatus) : ReplicaPlacement :=
  { mail ⟨"1"⟩ ⟨"ada"⟩ with
    status := status
    base := some ⟨.empty, some "1", some ⟨"body"⟩⟩ }

def cards (status : ReplicaStatus) : CollectionRows :=
  CollectionRows.empty.write (.upsertPlacement (card status))

/-- The card's new member, its content changed since the last sync. -/
def changed : ReplicaRemoteItem := ⟨⟨"11"⟩, .empty, some "2"⟩

def changedSpace : ReplicaRemoteSnapshot := ⟨[changed], [], true, ⟨[]⟩⟩

theorem rekeys_changed (status : ReplicaStatus) : ∃ t,
    Rekeys ⟨"inbox"⟩ ⟨(cards status).placements, none⟩ changedSpace t ∧
      t.fetched = [⟨⟨"11"⟩, ⟨"ada"⟩, ⟨""⟩, .unknown, none, none⟩] := by
  obtain ⟨t, ht, hf⟩ := rekeys_total ⟨"inbox"⟩ ⟨(cards status).placements, none⟩ changedSpace
    [⟨⟨"11"⟩, ⟨"ada"⟩, ⟨""⟩, .unknown, none, none⟩]
  have hlinked : (cards status).placements.any (fun p => p.linkId.isSome) = true := by
    cases status <;> decide
  exact ⟨t, ht, hf.trans (if_pos hlinked)⟩

theorem outdated_card {status : ReplicaStatus} (hs : status ≠ .created) {t : Transcript}
    (hf : t.fetched = [⟨⟨"11"⟩, ⟨"ada"⟩, ⟨""⟩, .unknown, none, none⟩]) :
    Outdated (cards status) (resolveLinks t.fetched) changedSpace.items changed (card status)
      ⟨"body"⟩ "2" := by
  refine ⟨?_, List.mem_singleton_self _, ⟨⟨"ada"⟩, rfl, ?_⟩, ?_, rfl, ⟨_, rfl, rfl, by decide⟩, rfl⟩
  · refine ((cards status).mem_spine _).mpr ⟨?_, hs⟩
    exact OrderedMap.get_insert_self _ _ _
  · rw [hf]
    decide
  · cases status <;> decide

/-- A renumbered card whose content changed reads as synced with its old body: no upgrade asks for
the new one, and no sync pulls it. -/
theorem stale_card_reads_synced : ∃ t row,
    Rekeys ⟨"inbox"⟩ ⟨(cards .clean).placements, none⟩ changedSpace t ∧
      Outdated (cards .clean) (resolveLinks t.fetched) changedSpace.items changed (card .clean)
        ⟨"body"⟩ "2" ∧
      ((cards .clean).apply t.writes).rows[changed.handle]? = some row ∧
      row.status = .clean ∧ row.Pairs ⟨"body"⟩ "2" ∧
      ReplicaUpgrade.pending .full row = false ∧
      ∀ self : ReplicaSync, self.reconcileContent row changed = (self, .untouched) := by
  obtain ⟨t, ht, hf⟩ := rekeys_changed .clean
  have hlive : ReplicaStatus.clean ≠ .created := by decide
  have ho := outdated_card hlive hf
  have hr : Restated (cards .clean) (resolveLinks t.fetched) changedSpace.items changed
      (card .clean) ⟨"body"⟩ := by
    refine ⟨⟨[], [], rfl, ?_, by simp⟩, ?_, by decide, rfl, rfl, rfl⟩
    · rw [hf]
      decide
    · rintro p ⟨hp, hedited, -⟩
      have hspine : ∀ q ∈ (cards .clean).spine, edited q = false := by decide
      rw [hspine p hp] at hedited
      cases hedited
  obtain ⟨row, hrow, hpairs, hstatus⟩ := hr.row ht rfl ho.observed
  have hclean : row.status = .clean := hstatus.trans (by decide)
  have hfree : row.status ≠ .conflict := by simp [hclean]
  exact ⟨t, row, ht, ho, hrow, hclean, hpairs, hpairs.not_pending hfree,
    fun self => hpairs.untouched hfree self rfl⟩

/-- A pending delete is carried as one, and passes no body off. -/
theorem stale_tombstone_kept : ∃ t,
    Rekeys ⟨"inbox"⟩ ⟨(cards .tombstone).placements, none⟩ changedSpace t ∧
      ∀ row, ((cards .tombstone).apply t.writes).rows[changed.handle]? = some row →
        row.status = .clean ∨ row.status = .dirty → ¬ row.Pairs ⟨"body"⟩ "2" := by
  obtain ⟨t, ht, hf⟩ := rekeys_changed .tombstone
  refine ⟨t, ht, (rekey_passes_off_iff ht rfl (outdated_card (by decide) hf)).2.mpr ?_⟩
  intro q hr
  obtain ⟨before, after, -, hcarried, -⟩ := hr.carried
  obtain ⟨l, -, hheld⟩ := Option.bind_eq_some_iff.mp hcarried
  have hspine : ∀ q ∈ (cards .tombstone).spine, q.status = .tombstone := by decide
  split at hheld
  · cases hheld
  · exact hr.live.1 (hspine q (holder_linkId hheld).1)

end Runs
end ReplicaRekey
end IoReplica

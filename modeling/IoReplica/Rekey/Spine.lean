import IoReplica.Library.Listing
import IoReplica.Rekey.Machine

/-! What a rebuild writes: the match of old rows to new members, and the row left under a handle. -/
namespace IoReplica

/-- Upserts leave the last row written under a handle. -/
theorem rowAfter_upserts (h : ReplicaHandle) (init : Option ReplicaPlacement)
    (rows : List ReplicaPlacement) :
    (∃ row ∈ rows, row.handle = h ∧
        rowAfter h init (rows.map .upsertPlacement) = some row) ∨
      ((∀ row ∈ rows, row.handle ≠ h) ∧ rowAfter h init (rows.map .upsertPlacement) = init) := by
  induction rows generalizing init with
  | nil => exact Or.inr ⟨by simp, rfl⟩
  | cons row rows ih =>
    rw [List.map_cons, rowAfter_upsert]
    rcases ih (if row.handle = h then some row else init) with ⟨r, hr, hh, hrow⟩ | ⟨hne, hrow⟩
    · exact Or.inl ⟨r, List.mem_cons_of_mem _ hr, hh, hrow⟩
    · by_cases hh : row.handle = h
      · rw [if_pos hh] at hrow
        exact Or.inl ⟨row, List.mem_cons_self, hh, by rw [if_pos hh, hrow]⟩
      · rw [if_neg hh] at hrow
        refine Or.inr ⟨?_, by rw [if_neg hh, hrow]⟩
        rintro r (_ | ⟨_, hr⟩)
        · exact hh
        · exact hne r hr

/-- Drops leave nothing under the handles they name. -/
theorem rowAfter_drops (h : ReplicaHandle) (init : Option ReplicaPlacement)
    (collection : ReplicaCollectionId) (reason : ReplicaDropReason)
    (dropped : List ReplicaPlacement) [Decidable (∃ p ∈ dropped, p.handle = h)] :
    rowAfter h init (dropped.map (fun p => .dropPlacement collection p.handle reason)) =
      if ∃ p ∈ dropped, p.handle = h then none else init := by
  have hdrops : ∀ (l : List ReplicaPlacement) (init : Option ReplicaPlacement),
      (∀ p ∈ l, p.handle ≠ h) ∨ init = none →
        rowAfter h init (l.map (fun p => .dropPlacement collection p.handle reason)) = init := by
    intro l
    induction l with
    | nil => exact fun init _ => rfl
    | cons p l ih =>
      intro init hinit
      rw [List.map_cons, rowAfter_drop]
      rcases hinit with hne | rfl
      · rw [if_neg (hne p List.mem_cons_self)]
        exact ih init (Or.inl fun q hq => hne q (List.mem_cons_of_mem _ hq))
      · rw [ite_self]
        exact ih none (Or.inr rfl)
  split
  · rename_i hex
    obtain ⟨p, hp, hh⟩ := hex
    obtain ⟨a, b, rfl⟩ := List.append_of_mem hp
    rw [List.map_append, List.map_cons, rowAfter_append, rowAfter_drop, if_pos hh]
    exact hdrops b none (Or.inr rfl)
  · rename_i hne
    exact hdrops dropped init (Or.inl fun p hp hh => hne ⟨p, hp, hh⟩)

namespace CollectionRows

/-- The rows a rebuild moves: all but the pending creates. -/
def spine (s : CollectionRows) : List ReplicaPlacement :=
  s.placements.filter (fun p => p.status ≠ .created)

theorem mem_spine (s : CollectionRows) (p : ReplicaPlacement) :
    p ∈ s.spine ↔ s.rows[p.handle]? = some p ∧ p.status ≠ .created := by
  simp [spine, mem_placements]

theorem spine_pairwise (s : CollectionRows) :
    s.spine.Pairwise (fun a b => a.handle ≠ b.handle) :=
  s.placements_pairwise.filter _

end CollectionRows

namespace ReplicaRekey

/-- The old row a link id stands for: the last one holding it. -/
def holder (old : List ReplicaPlacement) (link : ReplicaLinkId) : Option ReplicaPlacement :=
  (old.filter (fun p => p.linkId = some link)).getLast?

theorem holder_linkId {old : List ReplicaPlacement} {link : ReplicaLinkId} {p : ReplicaPlacement}
    (h : holder old link = some p) : p ∈ old ∧ p.linkId = some link := by
  simpa using List.mem_of_getLast? h

/-- The match goes by the last holder of each link id. -/
theorem ofRows_byLink (old : List ReplicaPlacement) (report : ReplicaRekeyReport)
    (link : ReplicaLinkId) : (Spine.ofRows old report).byLink[link]? = holder old link := by
  have hfold : ∀ (l : List ReplicaPlacement) (m : LinkMap ReplicaPlacement),
      (l.foldl (fun m p => p.linkId.elim m (fun link => m.insert link p)) m)[link]? =
        (holder l link).or m[link]? := by
    intro l
    induction l with
    | nil => exact fun m => rfl
    | cons p l ih =>
      intro m
      rw [List.foldl_cons, ih, holder, holder, List.filter_cons]
      by_cases hp : p.linkId = some link
      · rw [hp, if_pos (by simp), List.getLast?_cons]
        cases (l.filter (fun p => p.linkId = some link)).getLast? <;> simp
      · rw [if_neg (by simpa using hp)]
        cases hl : p.linkId with
        | none => rfl
        | some g =>
          have hg : g ≠ link := by
            rw [hl] at hp
            exact fun he => hp (congrArg some he)
          rw [Option.elim_some, OrderedMap.get_insert_of_ne _ _ hg]
  rw [Spine.ofRows, hfold]
  simp

/-- A row standing for a new member: its handle, its identity and the state it was listed in. -/
structure Holds (links : HandleMap Resolved) (item : ReplicaRemoteItem) (row : ReplicaPlacement) :
    Prop where
  handle : row.handle = item.handle
  live : row.status ≠ .created
  linkId : row.linkId = links[item.handle]?.map (·.linkId)
  base : ∃ b, row.base = some b ∧ b.flags = item.flags ∧ b.revision = item.revision

/-- An old row some new member resolves to. -/
def Resolves (links : HandleMap Resolved) (items : List ReplicaRemoteItem)
    (holder : ReplicaLinkId → Option ReplicaPlacement) (p : ReplicaPlacement) : Prop :=
  ∃ item ∈ items, ∃ r, links[item.handle]? = some r ∧ holder r.linkId = some p

/-- What placing a list of new members does to the locals of a rebuild. -/
structure Spine.Places (links : HandleMap Resolved) (items : List ReplicaRemoteItem)
    (sp sp' : Spine) : Prop where
  written : ∀ h, h ∈ sp'.written ↔ h ∈ sp.written ∨ ∃ item ∈ items, item.handle = h
  carriedOver : ∀ h, h ∈ sp'.carriedOver ↔ h ∈ sp.carriedOver ∨
    ∃ p, Resolves links items (fun l => sp.byLink[l]?) p ∧ p.handle = h
  writes : ∃ rows, sp'.writes = sp.writes ++ rows.map .upsertPlacement ∧
    List.Forall₂ (Holds links) items rows

namespace Spine

variable {self : ReplicaRekey} {links : HandleMap Resolved}

/-- Every old row still to match stands under its own link id. -/
def Linked (sp : Spine) : Prop :=
  ∀ (l : ReplicaLinkId) (p : ReplicaPlacement), sp.byLink[l]? = some p → p.linkId = some l

theorem carriedStatus_ne_created (old : ReplicaPlacement) (flags itemFlags : ReplicaFlags) :
    carriedStatus old flags itemFlags ≠ .created := by
  rw [carriedStatus]
  cases old.status with
  | tombstone | conflict => simp
  | clean | dirty | created =>
    dsimp only
    split_ifs <;> simp

theorem holds_carry {old : ReplicaPlacement} {item : ReplicaRemoteItem} {r : Resolved}
    (hr : links[item.handle]? = some r) (hl : old.linkId = some r.linkId) :
    Holds links item (self.carry old item (some r)) := by
  refine ⟨rfl, carriedStatus_ne_created _ _ _, ?_, _, rfl, rfl, rfl⟩
  rw [hr]
  exact hl

theorem holds_fresh (self : ReplicaRekey) (links : HandleMap Resolved) (item : ReplicaRemoteItem) :
    Holds links item (self.fresh item links[item.handle]?) :=
  ⟨rfl, ReplicaStatus.noConfusion, rfl, _, rfl, rfl, rfl⟩

/-- Placing a member takes the row of its link id out of the match. -/
theorem member_byLink (sp : Spine) (item : ReplicaRemoteItem) (l : ReplicaLinkId) :
    (member self links sp item).byLink[l]? =
      if links[item.handle]?.map (·.linkId) = some l then none else sp.byLink[l]? := by
  cases hr : links[item.handle]? with
  | none => simp [member, hr, takeMatch]
  | some r =>
    have hbyLink : (member self links sp item).byLink = sp.byLink.erase r.linkId := by
      cases hm : sp.byLink[r.linkId]? <;> simp [member, hr, hm, takeMatch]
    rw [hbyLink, OrderedMap.get_erase]
    simp

theorem Linked.member {sp : Spine} (h : sp.Linked) (self : ReplicaRekey)
    (links : HandleMap Resolved) (item : ReplicaRemoteItem) :
    (member self links sp item).Linked := by
  intro l p hp
  rw [member_byLink] at hp
  split at hp
  · cases hp
  · exact h l p hp

/-- One new member placed. -/
theorem member_places (self : ReplicaRekey) (links : HandleMap Resolved) {sp : Spine}
    (item : ReplicaRemoteItem) (h : sp.Linked) :
    Places links [item] sp (member self links sp item) := by
  have hfresh := holds_fresh self links item
  cases hr : links[item.handle]? with
  | none =>
    rw [hr] at hfresh
    refine ⟨?_, ?_, [self.fresh item none], ?_, .cons hfresh .nil⟩
    · simp [member, hr, takeMatch, or_comm, eq_comm]
    · simp [member, hr, takeMatch, Resolves]
    · simp [member, hr, takeMatch]
  | some r =>
    rw [hr] at hfresh
    cases hm : sp.byLink[r.linkId]? with
    | none =>
      refine ⟨?_, ?_, [self.fresh item (some r)], ?_, .cons hfresh .nil⟩
      · simp [member, hr, hm, takeMatch, or_comm, eq_comm]
      · simp [member, hr, hm, takeMatch, Resolves]
      · simp [member, hr, hm, takeMatch]
    | some old =>
      refine ⟨?_, ?_, [self.carry old item (some r)], ?_, .cons (holds_carry hr (h _ _ hm)) .nil⟩
      · simp [member, hr, hm, takeMatch, or_comm, eq_comm]
      · simp [member, hr, hm, takeMatch, Resolves, or_comm, eq_comm]
      · simp [member, hr, hm, takeMatch]

/-- The rows members resolve to, split at the first member: what it takes is not left to match. -/
theorem resolves_cons {sp : Spine} (item : ReplicaRemoteItem) (items : List ReplicaRemoteItem)
    (p : ReplicaPlacement) :
    Resolves links (item :: items) (fun l => sp.byLink[l]?) p ↔
      Resolves links [item] (fun l => sp.byLink[l]?) p ∨
        Resolves links items (fun l => (member self links sp item).byLink[l]?) p := by
  simp only [Resolves, member_byLink, List.mem_cons, List.not_mem_nil, or_false]
  constructor
  · rintro ⟨i, hi, r, hr, hp⟩
    by_cases hsame : links[item.handle]?.map (·.linkId) = some r.linkId
    · obtain ⟨r', hr', hlink⟩ := Option.map_eq_some_iff.mp hsame
      rw [← hlink] at hp
      exact Or.inl ⟨item, rfl, r', hr', hp⟩
    · rcases hi with rfl | hi
      · rw [hr] at hsame
        exact absurd rfl hsame
      · exact Or.inr ⟨i, hi, r, hr, by rw [if_neg hsame, hp]⟩
  · rintro (⟨i, rfl, r, hr, hp⟩ | ⟨i, hi, r, hr, hp⟩)
    · exact ⟨i, Or.inl rfl, r, hr, hp⟩
    · split at hp
      · cases hp
      · exact ⟨i, Or.inr hi, r, hr, hp⟩

/-- Every new member placed, in listing order. -/
theorem members_places {sp : Spine} (items : List ReplicaRemoteItem) (h : sp.Linked) :
    Places links items sp (items.foldl (member self links) sp) := by
  induction items generalizing sp with
  | nil => exact ⟨by simp, by simp [Resolves], [], by simp, .nil⟩
  | cons item items ih =>
    obtain ⟨hw, hc, rows, hrows, hholds⟩ := ih (h.member self links item)
    obtain ⟨hw', hc', rows', hrows', hholds'⟩ := member_places self links item h
    refine ⟨?_, ?_, rows' ++ rows, ?_, ?_⟩
    · intro g
      rw [List.foldl_cons, hw, hw']
      simp [or_assoc]
    · intro g
      rw [List.foldl_cons, hc, hc', or_assoc, ← exists_or]
      simp only [← or_and_right, ← resolves_cons]
    · rw [List.foldl_cons, hrows, hrows', List.map_append, List.append_assoc]
    · exact List.rel_append hholds' hholds

/-- The staged edits of a list of old rows that no carried handle accounts for. -/
def unmatched (sp : Spine) (old : List ReplicaPlacement) : List ReplicaPlacement :=
  old.filter (fun p => p.handle ∉ sp.carriedOver ∧ edited p = true)

/-- Every unmatched staged edit is resurrected, once. -/
theorem resurrects_spec (sp : Spine) {old : List ReplicaPlacement}
    (h : old.Pairwise (fun a b => a.handle ≠ b.handle)) :
    (old.foldl resurrect sp).writes =
        sp.writes ++ ((sp.unmatched old).map resurrected).map .upsertPlacement ∧
      ∀ g, g ∈ (old.foldl resurrect sp).written ↔
        g ∈ sp.written ∨ ∃ p ∈ sp.unmatched old, p.handle = g := by
  induction old generalizing sp with
  | nil => simp [unmatched]
  | cons p old ih =>
    rw [List.pairwise_cons] at h
    obtain ⟨hne, hold⟩ := h
    by_cases hp : p.handle ∉ sp.carriedOver ∧ edited p = true
    · have hstep : resurrect sp p =
          { sp with
            written := insert p.handle sp.written
            carriedOver := insert p.handle sp.carriedOver
            writes := sp.writes ++ [.upsertPlacement (resurrected p)]
            report := { sp.report with rekeyed := sp.report.rekeyed + 1 } } := by
        rw [resurrect, if_neg hp.1, if_pos hp.2]
      have htail : (resurrect sp p).unmatched old = sp.unmatched old := by
        rw [hstep]
        refine List.filter_congr ?_
        intro q hq
        simp [(hne q hq).symm]
      obtain ⟨hw, hg⟩ := ih (resurrect sp p) hold
      have hcons : sp.unmatched (p :: old) = p :: sp.unmatched old := by
        rw [unmatched, List.filter_cons, if_pos (by simpa using hp)]
        rfl
      rw [List.foldl_cons, hw, hcons, htail]
      refine ⟨by simp [hstep], ?_⟩
      intro g
      rw [hg, htail, hstep]
      simp [eq_comm, or_assoc, or_left_comm]
    · have hstep : resurrect sp p = sp := by
        by_cases hc : p.handle ∈ sp.carriedOver
        · rw [resurrect, if_pos hc]
        · rw [resurrect, if_neg hc, if_neg (fun he => hp ⟨hc, he⟩)]
      have hcons : sp.unmatched (p :: old) = sp.unmatched old := by
        rw [unmatched, List.filter_cons, if_neg (by simpa using hp)]
        rfl
      rw [List.foldl_cons, hstep, hcons]
      exact ih _ hold

end Spine

/-- A staged edit of the old spine that no new member resolves to. -/
structure Survives (s : CollectionRows) (links : HandleMap Resolved)
    (items : List ReplicaRemoteItem) (p : ReplicaPlacement) : Prop where
  old : p ∈ s.spine
  edited : edited p = true
  unmatched : ¬ Resolves links items (holder s.spine) p

/-- The batch of a rebuild: a row for every new member, the surviving edits, and the drops of the
old rows neither writes. -/
structure Batch (s : CollectionRows) (links : HandleMap Resolved) (items : List ReplicaRemoteItem)
    (rows survivors : List ReplicaPlacement) (drops : List ReplicaPlacement) : Prop where
  members : List.Forall₂ (Holds links) items rows
  edits : ∀ p, p ∈ survivors ↔ Survives s links items p
  distinct : survivors.Pairwise (fun a b => a.handle ≠ b.handle)
  dropped : ∀ p, p ∈ drops ↔ p ∈ s.spine ∧ (∀ item ∈ items, item.handle ≠ p.handle) ∧
    ∀ q, Survives s links items q → q.handle ≠ p.handle

/-- The ops of a rebuild, in order. -/
def batchOps (collection : ReplicaCollectionId) (checkpoint : ReplicaCheckpoint)
    (rows survivors drops : List ReplicaPlacement) : List ReplicaWriteOp :=
  rows.map .upsertPlacement ++ (survivors.map resurrected).map .upsertPlacement ++
    drops.map (fun p => .dropPlacement collection p.handle .superseded) ++
    [.setCheckpoint collection checkpoint]

/-- The rows of a load a rebuild moves. -/
def spineOf (loaded : List ReplicaPlacement) : List ReplicaPlacement :=
  loaded.filter (fun p => p.status ≠ .created)

/-- A staged edit of a list of old rows that no new member resolves to. -/
structure Stranded (old : List ReplicaPlacement) (links : HandleMap Resolved)
    (items : List ReplicaRemoteItem) (p : ReplicaPlacement) : Prop where
  moved : p ∈ old
  edited : edited p = true
  unmatched : ¬ Resolves links items (holder old) p

/-- What a rebuild writes over a list of old rows. -/
structure Rebuilt (old : List ReplicaPlacement) (links : HandleMap Resolved)
    (items : List ReplicaRemoteItem) (rows survivors : List ReplicaPlacement)
    (drops : List ReplicaPlacement) : Prop where
  members : List.Forall₂ (Holds links) items rows
  edits : ∀ p, p ∈ survivors ↔ Stranded old links items p
  distinct : survivors.Pairwise (fun a b => a.handle ≠ b.handle)
  dropped : ∀ p, p ∈ drops ↔ p ∈ old ∧ (∀ item ∈ items, item.handle ≠ p.handle) ∧
    ∀ q, Stranded old links items q → q.handle ≠ p.handle

/-- A rebuild of a load whose old rows stand under distinct handles. -/
theorem rebuild_rebuilt (collection : ReplicaCollectionId) (loaded : ReplicaLoaded)
    (snapshot : ReplicaRemoteSnapshot) (links : HandleMap Resolved)
    (hd : (spineOf loaded.placements).Pairwise (fun a b => a.handle ≠ b.handle)) :
    ∃ rows survivors drops,
      Rebuilt (spineOf loaded.placements) links snapshot.items rows survivors drops ∧
      ((enumerated collection loaded snapshot).rebuild links).2 =
        batchOps collection snapshot.checkpoint rows survivors drops := by
  generalize hold : spineOf loaded.placements = old at hd
  let sp := Spine.ofRows old ⟨0, 0, 0⟩
  have hlinked : sp.Linked := by
    intro l p hp
    rw [ofRows_byLink] at hp
    exact (holder_linkId hp).2
  let sp' := snapshot.items.foldl (Spine.member (enumerated collection loaded snapshot) links) sp
  obtain ⟨hw, hc, rows, hrows, hholds⟩ : Spine.Places links snapshot.items sp sp' :=
    Spine.members_places snapshot.items hlinked
  obtain ⟨hwrites, hwritten⟩ := Spine.resurrects_spec sp' hd
  have hbyLink : (fun l => sp.byLink[l]?) = holder old := by
    funext l
    exact ofRows_byLink _ _ l
  rw [hbyLink] at hc
  have hinj : ∀ p ∈ old, ∀ q ∈ old, q.handle = p.handle → q = p := by
    intro p hp q hq hh
    exact List.inj_on_of_nodup_map (List.pairwise_map.mpr hd) hq hp hh
  have hsurvivors : ∀ p, p ∈ sp'.unmatched old ↔ Stranded old links snapshot.items p := by
    intro p
    rw [Spine.unmatched, List.mem_filter, decide_eq_true_eq, hc]
    constructor
    · rintro ⟨hp, hcarried, he⟩
      refine ⟨hp, he, fun hres => hcarried (Or.inr ⟨p, hres, rfl⟩)⟩
    · rintro ⟨hp, he, hun⟩
      refine ⟨hp, ?_, he⟩
      rintro (hnil | ⟨q, hres, hh⟩)
      · simp [sp, Spine.ofRows] at hnil
      · have hq : q ∈ old := by
          obtain ⟨i, -, r, -, hholder⟩ := hres
          exact (holder_linkId hholder).1
        exact hun (hinj p hp q hq hh ▸ hres)
  let drops := old.filter (fun p => p.handle ∉ (old.foldl Spine.resurrect sp').written)
  refine ⟨rows, sp'.unmatched old, drops, ⟨hholds, hsurvivors, hd.filter _, ?_⟩, ?_⟩
  · intro p
    simp only [drops, List.mem_filter, decide_eq_true_eq, hwritten, hw, hsurvivors, not_or]
    simp [sp, Spine.ofRows]
  · have hdrops : old.filterMap
        (supersede collection (old.foldl Spine.resurrect sp').written) =
          drops.map (fun p => .dropPlacement collection p.handle .superseded) := by
      rw [← List.filterMap_eq_map, List.filterMap_filter]
      refine List.filterMap_congr ?_
      intro p _
      by_cases hp : p.handle ∈ (old.foldl Spine.resurrect sp').written <;> simp [supersede, hp]
    have hbatch : ((enumerated collection loaded snapshot).rebuild links).2 =
        (old.foldl Spine.resurrect sp').writes ++ old.filterMap
          (supersede collection (old.foldl Spine.resurrect sp').written) ++
            [.setCheckpoint collection snapshot.checkpoint] := by
      subst hold
      rfl
    rw [hbatch, hwrites, hrows, hdrops]
    rfl

/-- A rebuild writes such a batch. -/
theorem rebuild_batch (collection : ReplicaCollectionId) {loaded : ReplicaLoaded}
    (snapshot : ReplicaRemoteSnapshot) {s : CollectionRows} (links : HandleMap Resolved)
    (hl : loaded.placements = s.placements) :
    ∃ rows survivors drops, Batch s links snapshot.items rows survivors drops ∧
      ((enumerated collection loaded snapshot).rebuild links).2 =
        batchOps collection snapshot.checkpoint rows survivors drops := by
  have hspine : spineOf loaded.placements = s.spine := by
    rw [hl]
    rfl
  obtain ⟨rows, survivors, drops, hr, hops⟩ := rebuild_rebuilt collection loaded snapshot links
    (by
      rw [hspine]
      exact s.spine_pairwise)
  rw [hspine] at hr
  have hstranded : ∀ p, Stranded s.spine links snapshot.items p ↔
      Survives s links snapshot.items p :=
    fun p => ⟨fun h => ⟨h.moved, h.edited, h.unmatched⟩, fun h => ⟨h.old, h.edited, h.unmatched⟩⟩
  refine ⟨rows, survivors, drops, ⟨hr.members, ?_, hr.distinct, ?_⟩, hops⟩
  · exact fun p => (hr.edits p).trans (hstranded p)
  · intro p
    simp only [hr.dropped, hstranded]

namespace Batch

variable {s : CollectionRows} {links : HandleMap Resolved} {items : List ReplicaRemoteItem}
  {rows survivors drops : List ReplicaPlacement}

theorem row_of_item (h : Batch s links items rows survivors drops) {item : ReplicaRemoteItem}
    (hi : item ∈ items) : ∃ row ∈ rows, Holds links item row := Listing.forall₂_mem_left h.members item hi

theorem item_of_row (h : Batch s links items rows survivors drops) {row : ReplicaPlacement}
    (hr : row ∈ rows) : ∃ item ∈ items, Holds links item row :=
  Listing.forall₂_mem_left h.members.flip row hr

/-- The row a rebuild leaves under a handle: a surviving edit, else a new member's, else the pending
create that stood there. -/
theorem row_cases (h : Batch s links items rows survivors drops)
    (collection : ReplicaCollectionId) (checkpoint : ReplicaCheckpoint) (g : ReplicaHandle) :
    let row := (s.apply (batchOps collection checkpoint rows survivors drops)).rows[g]?
    (∃ p, Survives s links items p ∧ p.handle = g ∧ row = some (resurrected p)) ∨
      (∀ p, Survives s links items p → p.handle ≠ g) ∧
        ((∃ item ∈ items, item.handle = g ∧ ∃ r, row = some r ∧ Holds links item r) ∨
          (∀ item ∈ items, item.handle ≠ g) ∧
            row = s.rows[g]?.filter (fun p => p.status = .created)) := by
  intro row
  have hrow : row = rowAfter g (rowAfter g (rowAfter g s.rows[g]? (rows.map .upsertPlacement))
      ((survivors.map resurrected).map .upsertPlacement))
      (drops.map (fun p => .dropPlacement collection p.handle .superseded)) := by
    simp only [row, batchOps, CollectionRows.get_apply, rowAfter_append, rowAfter_setCheckpoint,
      rowAfter_nil]
  rcases rowAfter_upserts g (rowAfter g s.rows[g]? (rows.map .upsertPlacement))
      (survivors.map resurrected) with ⟨r, hr, hh, hforked⟩ | ⟨hne, hforked⟩
  · obtain ⟨p, hp, rfl⟩ := List.mem_map.mp hr
    have hsurvives := (h.edits p).mp hp
    refine Or.inl ⟨p, hsurvives, hh, ?_⟩
    rw [hrow, hforked]
    refine rowAfter_of_ne _ ?_
    intro op hop
    obtain ⟨q, hq, rfl⟩ := List.mem_map.mp hop
    have hapart := ((h.dropped q).mp hq).2.2 p hsurvives
    rw [ReplicaWriteOp.row_drop, ← hh]
    exact fun he => hapart (Option.some.inj he).symm
  · have hspared : ∀ p, Survives s links items p → p.handle ≠ g := by
      intro p hp
      exact hne (resurrected p) (List.mem_map.mpr ⟨p, (h.edits p).mpr hp, rfl⟩)
    refine Or.inr ⟨hspared, ?_⟩
    rcases rowAfter_upserts g s.rows[g]? rows with ⟨r, hr, hh, hplaced⟩ | ⟨hnone, hplaced⟩
    · obtain ⟨item, hi, hholds⟩ := h.item_of_row hr
      have hig : item.handle = g := hholds.handle.symm.trans hh
      refine Or.inl ⟨item, hi, hig, r, ?_, hholds⟩
      rw [hrow, hforked, hplaced]
      refine rowAfter_of_ne _ ?_
      intro op hop
      obtain ⟨q, hq, rfl⟩ := List.mem_map.mp hop
      have hapart := ((h.dropped q).mp hq).2.1 item hi
      rw [ReplicaWriteOp.row_drop, ← hig]
      exact fun he => hapart (Option.some.inj he).symm
    · have hunlisted : ∀ item ∈ items, item.handle ≠ g := by
        intro item hi
        obtain ⟨r, hr, hholds⟩ := h.row_of_item hi
        rw [← hholds.handle]
        exact hnone r hr
      refine Or.inr ⟨hunlisted, ?_⟩
      rw [hrow, hforked, hplaced, rowAfter_drops]
      split
      · rename_i hdropped
        obtain ⟨q, hq, hh⟩ := hdropped
        obtain ⟨hstored, hspine⟩ := (s.mem_spine q).mp ((h.dropped q).mp hq).1
        rw [← hh, hstored, Option.filter_some, if_neg (by simpa using hspine)]
      · rename_i hkept
        cases hq : s.rows[g]? with
        | none => rfl
        | some q =>
          have hh : q.handle = g := s.keyed g q hq
          have hcreated : q.status = .created := by
            by_contra hspine
            refine hkept ⟨q, (h.dropped q).mpr ⟨(s.mem_spine q).mpr ⟨by rw [hh, hq], hspine⟩, ?_, ?_⟩,
              hh⟩
            · rw [hh]
              exact hunlisted
            · rw [hh]
              exact hspared
          rw [Option.filter_some, if_pos (by simpa using hcreated)]

end Batch
end ReplicaRekey
end IoReplica

import IoReplica.Rekey.Stale

/-! Where the rows a rekey writes come from. -/
namespace IoReplica
namespace ReplicaRekey

/-- What a rebuild writes over a list of old rows: one carried to a new member, a member no old row
stands for, or a staged edit under its old handle. -/
inductive Sources (self : ReplicaRekey) (old : List ReplicaPlacement) : ReplicaPlacement → Prop
  | carried {p : ReplicaPlacement} (hp : p ∈ old) (item : ReplicaRemoteItem)
      (resolved : Option Resolved) : Sources self old (self.carry p item resolved)
  | fresh (item : ReplicaRemoteItem) (resolved : Option Resolved) :
      Sources self old (self.fresh item resolved)
  | resurrected {p : ReplicaPlacement} (hp : p ∈ old) : Sources self old (resurrected p)

namespace Spine

/-- The rows left to match are old ones, and so are the sources of what is written. -/
structure Sourced (a : ReplicaRekey) (old : List ReplicaPlacement) (sp : Spine) : Prop where
  byLink : ∀ (l : ReplicaLinkId) (p : ReplicaPlacement), sp.byLink[l]? = some p → p ∈ old
  writes : ∀ q, .upsertPlacement q ∈ sp.writes → Sources a old q

variable {self : ReplicaRekey} {old : List ReplicaPlacement} {sp : Spine}

theorem Sourced.member (h : sp.Sourced self old) (links : HandleMap Resolved)
    (item : ReplicaRemoteItem) : (member self links sp item).Sourced self old := by
  constructor
  · intro l p hp
    rw [member_byLink] at hp
    split at hp
    · cases hp
    · exact h.byLink l p hp
  · intro q hq
    rw [member_writes] at hq
    rcases List.mem_append.mp hq with hq | hq
    · exact h.writes q hq
    · cases List.mem_singleton.mp hq
      cases hcarried : (linkOf links item).bind (fun l => sp.byLink[l]?) with
      | none => exact .fresh item _
      | some p =>
        obtain ⟨l, -, hp⟩ := Option.bind_eq_some_iff.mp hcarried
        exact .carried (h.byLink l p hp) item _

theorem Sourced.members (h : sp.Sourced self old) (links : HandleMap Resolved)
    (items : List ReplicaRemoteItem) :
    (items.foldl (Spine.member self links) sp).Sourced self old := by
  induction items generalizing sp with
  | nil => exact h
  | cons item items ih => exact ih (Sourced.member h links item)

theorem Sourced.resurrects (h : sp.Sourced self old) {l : List ReplicaPlacement}
    (hl : ∀ p ∈ l, p ∈ old) : (l.foldl resurrect sp).Sourced self old := by
  induction l generalizing sp with
  | nil => exact h
  | cons p l ih =>
    refine ih ?_ (fun q hq => hl q (List.mem_cons_of_mem _ hq))
    rw [resurrect]
    split
    · exact h
    · split
      · refine ⟨h.byLink, fun q hq => ?_⟩
        rcases List.mem_append.mp hq with hq | hq
        · exact h.writes q hq
        · cases List.mem_singleton.mp hq
          exact .resurrected (hl p List.mem_cons_self)
      · exact h

end Spine
end ReplicaRekey

open ReplicaRekey in
/-- Every row a rekey writes has its source among the rows it loaded, or is a new member's. -/
theorem Rekeys.sources {collection : ReplicaCollectionId} {loaded : ReplicaLoaded}
    {snapshot : ReplicaRemoteSnapshot} {t : Transcript} (h : Rekeys collection loaded snapshot t)
    {q : ReplicaPlacement} (hq : .upsertPlacement q ∈ t.writes) :
    Sources (ReplicaRekey.enumerated collection loaded snapshot) loaded.placements q := by
  have hspine : ∀ p ∈ spineOf loaded.placements, p ∈ loaded.placements :=
    fun p hp => List.mem_of_mem_filter hp
  have hstart : (Spine.ofRows (spineOf loaded.placements) ⟨0, 0, 0⟩).Sourced
      (ReplicaRekey.enumerated collection loaded snapshot) loaded.placements := by
    refine ⟨fun l p hp => ?_, fun q hq => (by cases hq)⟩
    rw [ofRows_byLink] at hp
    exact hspine p (holder_linkId hp).1
  have hrebuilt := Spine.Sourced.resurrects
    (Spine.Sourced.members hstart (resolveLinks t.fetched) snapshot.items) hspine
  rw [h.writes] at hq
  simp only [rebuild, ReplicaRekey.enumerated, List.mem_append, List.mem_singleton,
    List.mem_filterMap, supersede, reduceCtorEq, or_false] at hq
  rcases hq with hq | ⟨p, -, hp⟩
  · exact hrebuilt.writes q hq
  · split at hp <;> cases hp

namespace ReplicaRekey

/-- The row that stays under a new member's handle carries the old row `p`. -/
structure CarriedTo (s : CollectionRows) (links : HandleMap Resolved)
    (items : List ReplicaRemoteItem) (item : ReplicaRemoteItem) (p : ReplicaPlacement) : Prop where
  placed : ∃ before after, items = before ++ item :: after ∧
    carriedFrom s links before item = some p ∧ ∀ i ∈ after, i.handle ≠ item.handle
  spared : Spared s links items item

variable {collection : ReplicaCollectionId} {loaded : ReplicaLoaded}
  {snapshot : ReplicaRemoteSnapshot} {t : Transcript} {s : CollectionRows}
  {item : ReplicaRemoteItem} {p : ReplicaPlacement}

/-- The old row is the one of the link id the new member is resolved to. -/
theorem CarriedTo.matched {links : HandleMap Resolved} {items : List ReplicaRemoteItem}
    (h : CarriedTo s links items item p) :
    item ∈ items ∧ p ∈ s.spine ∧ p.linkId = linkOf links item := by
  obtain ⟨before, after, rfl, hcarried, -⟩ := h.placed
  obtain ⟨l, hl, hheld⟩ := Option.bind_eq_some_iff.mp hcarried
  split at hheld
  · cases hheld
  · obtain ⟨hp, hlink⟩ := holder_linkId hheld
    exact ⟨List.mem_append_right _ List.mem_cons_self, hp, hlink.trans hl.symm⟩

/-- A rekey leaves the row it carries. -/
theorem CarriedTo.row (h : Rekeys collection loaded snapshot t)
    (hl : loaded.placements = s.placements)
    (hc : CarriedTo s (resolveLinks t.fetched) snapshot.items item p) :
    (s.apply t.writes).rows[item.handle]? = some ((enumerated collection loaded snapshot).carry p
      item (resolveLinks t.fetched)[item.handle]?) := by
  obtain ⟨before, after, hitems, hcarried, hlast⟩ := hc.placed
  rw [h.writes, rebuild_row collection (resolveLinks t.fetched) hl hitems hlast hc.spared, hcarried]
  rfl

/-- What a rekey leaves under a handle: a surviving edit, an old row carried to a new member, a
member no old row stands for, or the pending create that stood there. -/
inductive Left (self : ReplicaRekey) (s : CollectionRows) (links : HandleMap Resolved)
    (items : List ReplicaRemoteItem) : ReplicaPlacement → Prop
  | resurrected {p : ReplicaPlacement} (survives : Survives s links items p) :
      Left self s links items (resurrected p)
  | carried {item : ReplicaRemoteItem} {p : ReplicaPlacement}
      (carried : CarriedTo s links items item p) :
      Left self s links items (self.carry p item links[item.handle]?)
  | fresh (item : ReplicaRemoteItem) : Left self s links items (self.fresh item links[item.handle]?)
  | created {p : ReplicaPlacement} (stood : s.rows[p.handle]? = some p)
      (pending : p.status = .created) : Left self s links items p

end ReplicaRekey

open ReplicaRekey in
theorem Rekeys.left {collection : ReplicaCollectionId} {loaded : ReplicaLoaded}
    {snapshot : ReplicaRemoteSnapshot} {t : Transcript} {s : CollectionRows}
    (h : Rekeys collection loaded snapshot t) (hl : loaded.placements = s.placements)
    {g : ReplicaHandle} {q : ReplicaPlacement} (hq : (s.apply t.writes).rows[g]? = some q) :
    Left (ReplicaRekey.enumerated collection loaded snapshot) s (resolveLinks t.fetched)
      snapshot.items q := by
  obtain ⟨rows, survivors, drops, hb, hwrites⟩ :=
    rebuild_batch collection snapshot (resolveLinks t.fetched) hl
  have hcases := hb.row_cases collection snapshot.checkpoint g
  rw [← hwrites, ← h.writes, hq] at hcases
  rcases hcases with ⟨p, hp, -, heq⟩ | ⟨hspared, ⟨i, hi, hh, -⟩ | ⟨-, heq⟩⟩
  · cases heq
    exact .resurrected hp
  · obtain ⟨before, j, after, hitems, hj, hlast⟩ := Listing.last_listed (·.handle) hi
    have hjg : j.handle = g := hj.trans hh
    have hjspared : Spared s (resolveLinks t.fetched) snapshot.items j :=
      fun p hp => hjg ▸ hspared p hp
    have hlast' : ∀ i ∈ after, i.handle ≠ j.handle := fun i hi => hj ▸ hlast i hi
    have hrow := rebuild_row collection (resolveLinks t.fetched) hl hitems hlast' hjspared
    rw [← h.writes, hjg, hq] at hrow
    cases Option.some.inj hrow
    cases hc : carriedFrom s (resolveLinks t.fetched) before j with
    | none => exact .fresh j
    | some p => exact .carried ⟨⟨before, after, hitems, hc, hlast'⟩, hjspared⟩
  · obtain ⟨hstood, hcreated⟩ := Option.filter_eq_some_iff.mp heq.symm
    have hg : q.handle = g := s.keyed g q hstood
    exact .created (hg ▸ hstood) (of_decide_eq_true hcreated)

end IoReplica

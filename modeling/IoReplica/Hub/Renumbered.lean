import IoReplica.Hub.Rekeyed

/-! A rekey is faithful through the hub exactly when its new handles reuse none the source is still
bound under. -/
namespace IoReplica

/-- No binding with a base reads as a pending create. -/
theorem ReplicaHubItem.placement_live {item : ReplicaHubItem} {collection : ReplicaCollectionId}
    {link : ReplicaLinkId} {source : ReplicaSourceId} {b : ReplicaSourceBinding}
    {row : ReplicaPlacement} (hb : item.sources[source]? = some b) (hbase : b.base.isSome)
    (h : item.placement collection link source = some row) : row.status ≠ .created := by
  have hsome : b.base.isNone = false := by simpa using hbase
  cases hd : item.deleted with
  | true =>
    simp only [placement, hd, hb, Option.some.injEq] at h
    rw [← h]
    exact ReplicaStatus.noConfusion
  | false =>
    simp only [placement, hd, hb, Option.some.injEq] at h
    rw [← h]
    simp only [boundPlacement, boundStatus, hsome, Bool.false_and, Bool.false_eq_true, if_false]
    split_ifs <;> exact ReplicaStatus.noConfusion

/-- A pending delete is projected of a deleted item, and of no other. -/
theorem ReplicaHubItem.placement_tombstone {item : ReplicaHubItem}
    {collection : ReplicaCollectionId} {link : ReplicaLinkId} {source : ReplicaSourceId}
    {b : ReplicaSourceBinding} {row : ReplicaPlacement} (hb : item.sources[source]? = some b)
    (h : item.placement collection link source = some row) :
    row.status = .tombstone ↔ item.deleted = true := by
  cases hd : item.deleted with
  | true =>
    simp only [placement, hd, hb, Option.some.injEq] at h
    rw [← h]
    exact iff_of_true rfl rfl
  | false =>
    simp only [placement, hd, hb, Option.some.injEq] at h
    rw [← h]
    refine iff_of_false ?_ Bool.false_ne_true
    simp only [boundPlacement, boundStatus]
    split_ifs <;> simp

namespace ReplicaRekey

/-- A rekey of `source` took the hub to `hub'` and no further: its items stand apart, nothing else
moved, and the rows bound to the source are the linked new members, the resurrected edits and the
pending creates. -/
structure Faithful (hub hub' : ReplicaHub) (collection : ReplicaCollectionId)
    (source : ReplicaSourceId) (links : HandleMap Resolved) (items : List ReplicaRemoteItem) :
    Prop where
  apart : hub'.Apart source
  others : ∀ link other, other ≠ source → hub'.binding link other = hub.binding link other
  undeleted : ∀ (link : ReplicaLinkId) (item' : ReplicaHubItem), hub'.items[link]? = some item' →
    item'.deleted = true → ∃ item, hub.items[link]? = some item ∧ item.deleted = true
  rows : ∀ row, hub'.Bound collection source row →
    (∃ i ∈ items, (linkOf links i).isSome ∧ Holds links i row) ∨
      (∃ p, Stranded (hub.spine collection source) links items p ∧ Resurrects p row) ∨
        hub.Bound collection source row ∧ row.status = .created
  members : ∀ i ∈ items, (linkOf links i).isSome →
    ∃ row, hub'.Bound collection source row ∧ Holds links i row
  edits : ∀ p, Stranded (hub.spine collection source) links items p →
    ∃ row, hub'.Bound collection source row ∧ Resurrects p row
  creates : ∀ p, hub.Bound collection source p → p.status = .created →
    hub'.Bound collection source p
  gone : ∀ p ∈ hub.spine collection source, ∀ link, p.linkId = some link →
    (∀ i ∈ items, linkOf links i ≠ some link) → edited p = false →
      hub'.binding link source = none

/-- The linked new members are told apart, and stand under no handle of a row that stays bound; a
gone item's handle is no new member's. -/
structure Unreused (hub : ReplicaHub) (collection : ReplicaCollectionId)
    (source : ReplicaSourceId) (links : HandleMap Resolved) (items : List ReplicaRemoteItem) :
    Prop where
  members : ∀ i ∈ items, ∀ j ∈ items, ∀ l, linkOf links i = some l → linkOf links j = some l → i = j
  edits : ∀ p, Stranded (hub.spine collection source) links items p →
    ∀ i ∈ items, (linkOf links i).isSome → i.handle ≠ p.handle
  creates : ∀ p, hub.Bound collection source p → p.status = .created →
    ∀ i ∈ items, (linkOf links i).isSome → i.handle ≠ p.handle ∧ linkOf links i ≠ p.linkId
  gone : ∀ p ∈ hub.spine collection source, ∀ link, p.linkId = some link →
    (∀ i ∈ items, linkOf links i ≠ some link) → edited p = false → ∀ i ∈ items, i.handle ≠ p.handle

section Rebuild

variable {hub : ReplicaHub} {collection : ReplicaCollectionId} {source : ReplicaSourceId}
  {links : HandleMap Resolved} {items : List ReplicaRemoteItem} {link : ReplicaLinkId}
  {rows survivors drops : List ReplicaPlacement} {checkpoint : ReplicaCheckpoint}

/-- A linked new member's item is handed over as it was listed. -/
theorem member_bound (checkpoint : ReplicaCheckpoint)
    (hb : Rebuilt (hub.spine collection source) links items rows survivors drops)
    {i : ReplicaRemoteItem} (hi : i ∈ items) (hl : linkOf links i = some link) :
    ∃ j ∈ items, linkOf links j = some link ∧ ∃ row,
      (hub.absorb source (batchOps collection checkpoint rows survivors drops)).Bound
        collection source row ∧ Holds links j row := by
  obtain ⟨j, hj, hjl, p, -, hholds, item, b, hitem, hbound, hh, hbase, -⟩ :=
    rebuilt_member hb checkpoint hi hl
  obtain ⟨row, hrow, hrl, hrh, hrb, hplaced⟩ :=
    ReplicaHub.bound_of_binding collection hitem hbound
  obtain ⟨base, hpb, hflags, hrevision⟩ := hholds.base
  refine ⟨j, hj, hjl, row, hrow, ⟨?_, ?_, ?_, base, ?_, hflags, hrevision⟩⟩
  · rw [hrh, hh, hholds.handle]
  · exact ReplicaHubItem.placement_live hbound (by rw [hbase, hpb]; rfl) hplaced
  · rw [hrl, ← hjl, linkOf]
  · rw [hrb, hbase, hpb]

/-- What a rebuild leaves bound of an item no member reports: a stranded edit's create, or the row
that stood there, whose handle no drop took. -/
theorem bound_cases (ha : hub.Apart source)
    (hb : Rebuilt (hub.spine collection source) links items rows survivors drops)
    {row : ReplicaPlacement}
    (hrow : (hub.absorb source (batchOps collection checkpoint rows survivors drops)).Bound
      collection source row) :
    (∃ i ∈ items, (linkOf links i).isSome ∧ Holds links i row) ∨
      (∃ p, Stranded (hub.spine collection source) links items p ∧ Resurrects p row) ∨
        hub.Bound collection source row ∧
          (row.status = .created ∨ edited row = false ∧ row ∈ hub.spine collection source ∧
            (∃ l, row.linkId = some l ∧ ∀ i ∈ items, linkOf links i ≠ some l) ∧
              ∃ i ∈ items, i.handle = row.handle) := by
  obtain ⟨link, item', b, hl, hitem', hbound, hplaced, -⟩ := hrow.reads
  by_cases hmember : ∃ i ∈ items, linkOf links i = some link
  · obtain ⟨i, hi, hil⟩ := hmember
    obtain ⟨j, hj, hjl, row', hrow', hholds⟩ := member_bound checkpoint hb hi hil
    have hsame := hrow.unique hrow' (by rw [hl, hholds.linkId, ← hjl, linkOf])
    exact Or.inl ⟨j, hj, by rw [hjl]; rfl, hsame ▸ hholds⟩
  · have hlink : ∀ i ∈ items, linkOf links i ≠ some link := fun i hi hil => hmember ⟨i, hi, hil⟩
    refine Or.inr ?_
    by_cases hstranded : ∃ q, Stranded (hub.spine collection source) links items q ∧
        q.linkId = some link
    · obtain ⟨q, hq, hql⟩ := hstranded
      obtain ⟨row', hrow', hres⟩ := rebuilt_stranded hb checkpoint hq
      have hsame := hrow.unique hrow' (by rw [hl, hres.linkId, hql])
      exact Or.inl ⟨q, hq, hsame ▸ hres⟩
    · have hedit : ∀ q, Stranded (hub.spine collection source) links items q →
          q.linkId ≠ some link := fun q hq hql => hstranded ⟨q, hq, hql⟩
      refine Or.inr ?_
      rcases rebuilt_other ha hb checkpoint hlink hedit with
        ⟨p, -, -, -, item, -, hdropped⟩ | ⟨hkept, hsame⟩
      · rw [hitem', Eq.comm, Option.filter_eq_some_iff] at hdropped
        rw [← Option.some.inj hdropped.1, OrderedMap.get_erase, if_pos rfl] at hbound
        cases hbound
      · rw [hitem', Eq.comm, Option.filter_eq_some_iff] at hsame
        have hold : hub.Bound collection source row := ⟨link, item', b, hsame.1, hbound, hplaced⟩
        refine ⟨hold, ?_⟩
        by_cases hcreated : row.status = .created
        · exact Or.inl hcreated
        · have hspine : row ∈ hub.spine collection source :=
            ReplicaHub.mem_spineOf.mpr ⟨hold, hcreated⟩
          refine Or.inr ⟨?_, hspine, ⟨link, hl, hlink⟩, hkept row hspine hl⟩
          cases he : edited row with
          | false => rfl
          | true =>
            refine absurd hl (hedit row ⟨hspine, he, ?_⟩)
            rw [resolves_iff hspine hl]
            exact hmember

/-- What a faithful rekey needs of the new handles. -/
theorem Faithful.unreused (ha : hub.Apart source)
    (hb : Rebuilt (hub.spine collection source) links items rows survivors drops)
    (hf : Faithful hub (hub.absorb source (batchOps collection checkpoint rows survivors drops))
      collection source links items) : Unreused hub collection source links items := by
  have hlinked : ∀ {i l}, linkOf links i = some l → (linkOf links i).isSome :=
    fun h => Option.isSome_iff_exists.mpr ⟨_, h⟩
  refine ⟨?_, ?_, ?_, ?_⟩
  · intro i hi j hj l hil hjl
    obtain ⟨row, hrow, hi'⟩ := hf.members i hi (hlinked hil)
    obtain ⟨row', hrow', hj'⟩ := hf.members j hj (hlinked hjl)
    have hil' : row.linkId = some l := hi'.linkId.trans hil
    have hjl' : row'.linkId = some l := hj'.linkId.trans hjl
    have hsame := hrow.unique hrow' (hil'.trans hjl'.symm)
    subst hsame
    obtain ⟨b, hb', hflags, hrevision⟩ := hi'.base
    obtain ⟨b', hb'', hflags', hrevision'⟩ := hj'.base
    rw [hb', Option.some.injEq] at hb''
    subst hb''
    have hhandle : i.handle = j.handle := hi'.handle.symm.trans hj'.handle
    have hflags : i.flags = j.flags := hflags.symm.trans hflags'
    have hrevision : i.revision = j.revision := hrevision.symm.trans hrevision'
    cases i
    cases j
    rw [ReplicaRemoteItem.mk.injEq]
    exact ⟨hhandle, hflags, hrevision⟩
  · intro p hp i hi hil hh
    obtain ⟨row, hrow, hres⟩ := hf.edits p hp
    obtain ⟨row', hrow', hholds⟩ := hf.members i hi hil
    have hsame := hf.apart.unique hrow hrow' (by rw [hres.handle, hholds.handle, hh])
    exact hholds.live (hsame ▸ hres.status)
  · intro p hp hcreated i hi hil
    obtain ⟨row', hrow', hholds⟩ := hf.members i hi hil
    have hkept := hf.creates p hp hcreated
    constructor
    · intro hh
      have hsame := hf.apart.unique hkept hrow' (by rw [hholds.handle, hh])
      exact hholds.live (hsame ▸ hcreated)
    · intro hl
      have hsame := hkept.unique hrow' (hl.symm.trans hholds.linkId.symm)
      exact hholds.live (hsame ▸ hcreated)
  · intro p hp link hl hlink hunedited i hi hh
    rcases rebuilt_other ha hb checkpoint hlink (unstranded hp hl hunedited) with
      ⟨q, hq, hql, hfree, -⟩ | ⟨-, hkept⟩
    · exact hfree i hi (spine_unique hq hp (hql.trans hl.symm) ▸ hh)
    · have hnone := hf.gone p hp link hl hlink hunedited
      obtain ⟨own, item, b, hown, hitem, hbound, -⟩ := (ReplicaHub.bound_of_spine hp).reads
      rw [hl, Option.some.injEq] at hown
      subst hown
      rw [hitem, Option.filter_some, if_pos (ReplicaHub.held_of_binding hbound)] at hkept
      rw [ReplicaHub.binding_of_item hkept, hbound] at hnone
      cases hnone

/-- The rows a rebuild leaves bound, no gone item's handle being reused. -/
theorem Unreused.bound_rows (ha : hub.Apart source)
    (hb : Rebuilt (hub.spine collection source) links items rows survivors drops)
    (hu : Unreused hub collection source links items) {row : ReplicaPlacement}
    (hrow : (hub.absorb source (batchOps collection checkpoint rows survivors drops)).Bound
      collection source row) :
    (∃ i ∈ items, (linkOf links i).isSome ∧ Holds links i row) ∨
      (∃ p, Stranded (hub.spine collection source) links items p ∧ Resurrects p row) ∨
        hub.Bound collection source row ∧ row.status = .created := by
  rcases bound_cases ha hb hrow with hmember | hedit | ⟨hold, hcreated | ⟨he, hp, hl, i, hi, hh⟩⟩
  · exact Or.inl hmember
  · exact Or.inr (Or.inl hedit)
  · exact Or.inr (Or.inr ⟨hold, hcreated⟩)
  · obtain ⟨l, hl, hlink⟩ := hl
    exact absurd hh (hu.gone row hp l hl hlink he i hi)

/-- A row left bound under no member's name is an old one's, and no linked member takes its handle. -/
theorem Unreused.stands (ha : hub.Apart source)
    (hb : Rebuilt (hub.spine collection source) links items rows survivors drops)
    (hu : Unreused hub collection source links items) {row : ReplicaPlacement}
    (hrow : (hub.absorb source (batchOps collection checkpoint rows survivors drops)).Bound
      collection source row) :
    (∃ i ∈ items, (linkOf links i).isSome ∧ Holds links i row) ∨
      ∃ p, hub.Bound collection source p ∧ row.handle = p.handle ∧ row.linkId = p.linkId ∧
        ∀ i ∈ items, (linkOf links i).isSome → i.handle ≠ p.handle := by
  rcases hu.bound_rows ha hb hrow with hmember | ⟨p, hp, hres⟩ | ⟨hold, hcreated⟩
  · exact Or.inl hmember
  · exact Or.inr ⟨p, ReplicaHub.bound_of_spine hp.moved, hres.handle, hres.linkId, hu.edits p hp⟩
  · exact Or.inr ⟨row, hold, rfl, rfl,
      fun i hi hil => (hu.creates row hold hcreated i hi hil).1⟩

theorem Unreused.apart (ha : hub.Apart source)
    (hb : Rebuilt (hub.spine collection source) links items rows survivors drops)
    (hu : Unreused hub collection source links items) :
    (hub.absorb source (batchOps collection checkpoint rows survivors drops)).Apart source := by
  intro link link' b b' hb1 hb2 hh
  obtain ⟨item, hitem, hbound⟩ := Option.bind_eq_some_iff.mp hb1
  obtain ⟨item', hitem', hbound'⟩ := Option.bind_eq_some_iff.mp hb2
  obtain ⟨row, hrow, hl, hrh, -⟩ :=
    ReplicaHub.bound_of_binding collection hitem hbound
  obtain ⟨row', hrow', hl', hrh', -⟩ :=
    ReplicaHub.bound_of_binding collection hitem' hbound'
  have hhandle : row.handle = row'.handle := by rw [hrh, hrh', hh]
  suffices hsame : row.linkId = row'.linkId by
    rw [hl, hl', Option.some.injEq] at hsame
    exact hsame
  rcases hu.stands ha hb hrow with ⟨i, hi, hil, hholds⟩ | ⟨p, hp, hph, hpl, hfree⟩
  · rcases hu.stands ha hb hrow' with ⟨j, -, -, hholds'⟩ | ⟨q, -, hqh, -, hfree⟩
    · rw [hholds.linkId, hholds'.linkId, ← hholds.handle, ← hholds'.handle, hhandle]
    · exact absurd (by rw [← hholds.handle, hhandle, hqh]) (hfree i hi hil)
  · rcases hu.stands ha hb hrow' with ⟨j, hj, hjl, hholds'⟩ | ⟨q, hq, hqh, hql, -⟩
    · exact absurd (by rw [← hholds'.handle, ← hhandle, hph]) (hfree j hj hjl)
    · rw [hpl, hql, ha.unique hp hq (by rw [← hph, ← hqh, hhandle])]

/-- A rebuild marks no item deleted that was not. -/
theorem undeleted (ha : hub.Apart source)
    (hb : Rebuilt (hub.spine collection source) links items rows survivors drops)
    (hdeletes : ∀ p ∈ rows, p.status = .tombstone → ∃ q ∈ hub.spine collection source,
      q.linkId = p.linkId ∧ q.status = .tombstone) {item' : ReplicaHubItem}
    (hitem' : (hub.absorb source
      (batchOps collection checkpoint rows survivors drops)).items[link]? = some item')
    (hdeleted : item'.deleted = true) :
    ∃ item, hub.items[link]? = some item ∧ item.deleted = true := by
  by_cases hmember : ∃ i ∈ items, linkOf links i = some link
  · obtain ⟨i, hi, hil⟩ := hmember
    obtain ⟨j, -, hjl, p, hp, hholds, item, b, hitem, -, -, -, hmarked⟩ :=
      rebuilt_member hb checkpoint hi hil
    rw [hitem', Option.some.injEq] at hitem
    rw [← hitem, hdeleted, Eq.comm, decide_eq_true_eq] at hmarked
    obtain ⟨q, hq, hql, hqt⟩ := hdeletes p hp hmarked
    obtain ⟨own, item, b, hown, hitem, hbound, hplaced, -⟩ :=
      (ReplicaHub.bound_of_spine hq).reads
    rw [hql, hholds.linkId, ← linkOf, hjl, Option.some.injEq] at hown
    exact ⟨item, hown ▸ hitem, (ReplicaHubItem.placement_tombstone hbound hplaced).mp hqt⟩
  · have hlink : ∀ i ∈ items, linkOf links i ≠ some link := fun i hi hil => hmember ⟨i, hi, hil⟩
    by_cases hstranded : ∃ q, Stranded (hub.spine collection source) links items q ∧
        q.linkId = some link
    · obtain ⟨q, hq, hql⟩ := hstranded
      obtain ⟨row, hrow, hres⟩ := rebuilt_stranded hb checkpoint hq
      obtain ⟨own, item, b, hown, hitem, hbound, hplaced, -⟩ := hrow.reads
      rw [hres.linkId, hql, Option.some.injEq] at hown
      subst hown
      rw [hitem', Option.some.injEq] at hitem
      subst hitem
      have hmarked := (ReplicaHubItem.placement_tombstone hbound hplaced).mpr hdeleted
      rw [hres.status] at hmarked
      cases hmarked
    · rcases rebuilt_other ha hb checkpoint hlink (fun q hq hql => hstranded ⟨q, hq, hql⟩) with
        ⟨-, -, -, -, item, hitem, hdropped⟩ | ⟨-, hkept⟩
      · rw [hitem', Eq.comm, Option.filter_eq_some_iff] at hdropped
        refine ⟨item, hitem, ?_⟩
        rw [← hdeleted, ← Option.some.inj hdropped.1]
      · rw [hitem', Eq.comm, Option.filter_eq_some_iff] at hkept
        exact ⟨item', hkept.1, hdeleted⟩

/-- Handles nothing bound still needs make a rekey faithful. -/
theorem Unreused.faithful (ha : hub.Apart source)
    (hb : Rebuilt (hub.spine collection source) links items rows survivors drops)
    (hdeletes : ∀ p ∈ rows, p.status = .tombstone → ∃ q ∈ hub.spine collection source,
      q.linkId = p.linkId ∧ q.status = .tombstone)
    (hu : Unreused hub collection source links items) :
    Faithful hub (hub.absorb source (batchOps collection checkpoint rows survivors drops))
      collection source links items := by
  refine ⟨hu.apart ha hb, ?_, ?_, fun row hrow => hu.bound_rows ha hb hrow, ?_, ?_, ?_, ?_⟩
  · intro link other hne
    have hforeign : ∀ b ∈ [(source, batchOps collection checkpoint rows survivors drops)],
        b.1 ≠ other := by simpa using hne.symm
    exact ReplicaHub.binding_of_others hub link hforeign
  · exact fun link item' => undeleted ha hb hdeletes
  · intro i hi hil
    obtain ⟨l, hl⟩ := Option.isSome_iff_exists.mp hil
    obtain ⟨j, hj, hjl, row, hrow, hholds⟩ := member_bound checkpoint hb hi hl
    exact ⟨row, hrow, hu.members i hi j hj l hl hjl ▸ hholds⟩
  · exact fun p hp => rebuilt_stranded hb checkpoint hp
  · intro p hp hcreated
    obtain ⟨link, item, b, hl, hitem, hbound, hplaced, -⟩ := hp.reads
    have hpast : ∀ q ∈ hub.spine collection source, q.linkId ≠ some link := by
      intro q hq hql
      have hqp := (ReplicaHub.bound_of_spine hq).unique hp (hql.trans hl.symm)
      exact (ReplicaHub.mem_spineOf.mp hq).2 (hqp ▸ hcreated)
    have hlink : ∀ i ∈ items, linkOf links i ≠ some link := by
      intro i hi hil
      exact (hu.creates p hp hcreated i hi (by rw [hil]; rfl)).2 (hil.trans hl.symm)
    rcases rebuilt_other ha hb checkpoint hlink (fun q hq => hpast q hq.moved) with
      ⟨q, hq, hql, -⟩ | ⟨-, hkept⟩
    · exact absurd hql (hpast q hq)
    · rw [hitem, Option.filter_some, if_pos (ReplicaHub.held_of_binding hbound)] at hkept
      exact ⟨link, item, b, hkept, hbound, hplaced⟩
  · intro p hp link hl hlink hunedited
    rcases rebuilt_other ha hb checkpoint hlink (unstranded hp hl hunedited) with
      ⟨-, -, -, -, item, -, hdropped⟩ | ⟨hreused, -⟩
    · rw [ReplicaHub.binding, hdropped, Option.filter_some]
      split
      · exact OrderedMap.get_erase_self _ _
      · rfl
    · obtain ⟨i, hi, hh⟩ := hreused p hp hl
      exact absurd hh (hu.gone p hp link hl hlink hunedited i hi)

end Rebuild

/-- A rekey of a source run on its projection is faithful through the hub exactly when no handle a
bound row keeps, and no gone item's, is a new member's, and no two members report one link id. -/
theorem rekey_faithful_iff {hub : ReplicaHub} {collection : ReplicaCollectionId}
    {source : ReplicaSourceId} {loaded : ReplicaLoaded} {snapshot : ReplicaRemoteSnapshot}
    {t : Transcript} (h : Rekeys collection loaded snapshot t)
    (hl : loaded.placements = hub.project collection source) (ha : hub.Apart source) :
    Faithful hub (hub.absorb source t.writes) collection source (resolveLinks t.fetched)
        snapshot.items ↔
      Unreused hub collection source (resolveLinks t.fetched) snapshot.items := by
  have hspine : spineOf loaded.placements = hub.spine collection source := by
    rw [hl]
    rfl
  obtain ⟨rows, survivors, drops, hb, hwrites⟩ := rebuild_rebuilt collection loaded snapshot
    (resolveLinks t.fetched) (by rw [hspine]; exact ReplicaHub.spineOf_pairwise ha)
  rw [hspine] at hb
  have hdeletes : ∀ p ∈ rows, p.status = .tombstone → ∃ q ∈ hub.spine collection source,
      q.linkId = p.linkId ∧ q.status = .tombstone := by
    intro p hp ht
    rw [← hspine]
    refine rebuild_tombstone collection loaded snapshot (resolveLinks t.fetched) ?_ ht
    rw [hwrites, batchOps]
    simp [hp]
  rw [h.writes, hwrites]
  exact ⟨fun hf => hf.unreused ha hb, fun hu => hu.faithful ha hb hdeletes⟩

section Runs

/-- Two mails one source holds, in sync. -/
def mailHub : ReplicaHub :=
  (ReplicaHub.empty .manual).absorb ⟨"left"⟩
    [.upsertPlacement (mail ⟨"1"⟩ ⟨"x"⟩), .upsertPlacement (mail ⟨"2"⟩ ⟨"y"⟩)]

/-- Distinct handles checked over a hub's items. -/
theorem apart_of_items {hub : ReplicaHub} {source : ReplicaSourceId}
    (h : ∀ e ∈ hub.items.toList, ∀ e' ∈ hub.items.toList,
      ((e.2.sources[source]?).map (·.handle)).isSome →
        (e.2.sources[source]?).map (·.handle) = (e'.2.sources[source]?).map (·.handle) →
          e.1 = e'.1) : hub.Apart source := by
  intro link link' b b' hb hb' hh
  obtain ⟨item, hitem, hbound⟩ := Option.bind_eq_some_iff.mp hb
  obtain ⟨item', hitem', hbound'⟩ := Option.bind_eq_some_iff.mp hb'
  refine h (link, item) ((OrderedMap.mem_toList_iff _ _ _).mpr hitem) (link', item')
    ((OrderedMap.mem_toList_iff _ _ _).mpr hitem') ?_ ?_
  · rw [hbound]
    rfl
  · rw [hbound, hbound', Option.map_some, Option.map_some, hh]

theorem mailHub_apart : mailHub.Apart ⟨"left"⟩ := apart_of_items (by decide +kernel)

/-- The first mail gone, and the second renumbered onto its handle. -/
def closedUp : ReplicaRemoteSnapshot := ⟨[⟨⟨"1"⟩, .empty, none⟩], [], true, ⟨[]⟩⟩

theorem rekeys_mailHub (snapshot : ReplicaRemoteSnapshot) (fetched : List ReplicaFetchedItem) :
    ∃ t, Rekeys ⟨"inbox"⟩ ⟨mailHub.project ⟨"inbox"⟩ ⟨"left"⟩, none⟩ snapshot t ∧
      t.fetched = fetched := by
  obtain ⟨t, ht, hf⟩ := rekeys_total ⟨"inbox"⟩ ⟨mailHub.project ⟨"inbox"⟩ ⟨"left"⟩, none⟩ snapshot
    fetched
  exact ⟨t, ht, hf.trans (if_pos (by decide +kernel))⟩

/-- The gone mail's drop is withheld, and both mails end bound under one handle. -/
theorem closedUp_binds_twice : ∃ t,
    Rekeys ⟨"inbox"⟩ ⟨mailHub.project ⟨"inbox"⟩ ⟨"left"⟩, none⟩ closedUp t ∧
      mailHub.Apart ⟨"left"⟩ ∧
      ¬ Faithful mailHub (mailHub.absorb ⟨"left"⟩ t.writes) ⟨"inbox"⟩ ⟨"left"⟩
        (resolveLinks t.fetched) closedUp.items := by
  obtain ⟨t, ht, hf⟩ := rekeys_mailHub closedUp [⟨⟨"1"⟩, ⟨"y"⟩, ⟨""⟩, .unknown, none, none⟩]
  refine ⟨t, ht, mailHub_apart, ?_⟩
  intro hfaithful
  have hbound : ((mailHub.absorb ⟨"left"⟩ t.writes).binding ⟨"x"⟩ ⟨"left"⟩).any
        (fun b => decide (b.handle = ⟨"1"⟩)) = true ∧
      ((mailHub.absorb ⟨"left"⟩ t.writes).binding ⟨"y"⟩ ⟨"left"⟩).any
        (fun b => decide (b.handle = ⟨"1"⟩)) = true := by
    rw [ht.writes, hf]
    decide +kernel
  obtain ⟨b, hb, hh⟩ := (Option.any_eq_true _ _).mp hbound.1
  obtain ⟨b', hb', hh'⟩ := (Option.any_eq_true _ _).mp hbound.2
  have hsame := hfaithful.apart _ _ b b' hb hb'
    ((of_decide_eq_true hh).trans (of_decide_eq_true hh').symm)
  exact absurd hsame (by decide)

/-- Two mails renumbered apart are handed over as they are listed. -/
theorem bumped_faithful : ∃ t,
    Rekeys ⟨"inbox"⟩ ⟨mailHub.project ⟨"inbox"⟩ ⟨"left"⟩, none⟩ bumped t ∧
      Faithful mailHub (mailHub.absorb ⟨"left"⟩ t.writes) ⟨"inbox"⟩ ⟨"left"⟩
        (resolveLinks t.fetched) bumped.items := by
  obtain ⟨t, ht, hf⟩ := rekeys_mailHub bumped (reported ⟨"y"⟩)
  refine ⟨t, ht, (rekey_faithful_iff ht rfl mailHub_apart).mpr ?_⟩
  rw [hf]
  have hclean : ∀ p ∈ mailHub.project ⟨"inbox"⟩ ⟨"left"⟩, p.status = .clean := by decide +kernel
  have hlisted : ∀ p ∈ mailHub.spine ⟨"inbox"⟩ ⟨"left"⟩, ∃ i ∈ bumped.items,
      linkOf (resolveLinks (reported ⟨"y"⟩)) i = p.linkId := by decide +kernel
  refine ⟨?_, ?_, ?_, ?_⟩
  · intro i hi j hj l hil hjl
    have hdistinct : ∀ i ∈ bumped.items, ∀ j ∈ bumped.items,
        linkOf (resolveLinks (reported ⟨"y"⟩)) i = linkOf (resolveLinks (reported ⟨"y"⟩)) j →
          i = j := by decide +kernel
    exact hdistinct i hi j hj (hil.trans hjl.symm)
  · intro p hp
    have hstatus := ((edited_iff p).mp hp.edited).1
    rw [hclean p (List.mem_of_mem_filter hp.moved)] at hstatus
    rcases hstatus with hdirty | hconflict
    · cases hdirty
    · cases hconflict
  · rintro p ⟨link, item, -, hitem, -, hplaced⟩ hcreated
    rw [hclean p (ReplicaHub.mem_project.mpr ⟨link, item, hitem, hplaced⟩)] at hcreated
    cases hcreated
  · intro p hp link hl hnone
    obtain ⟨i, hi, hil⟩ := hlisted p hp
    exact absurd (hil.trans hl) (hnone i hi)

end Runs

end ReplicaRekey
end IoReplica

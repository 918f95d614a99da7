import IoReplica.Rekey.Spine
import IoReplica.Upgrade.Machine

/-! The link ids a rebuild leaves: which rows come to share one, and what becomes of minted ones. -/
namespace IoReplica

/-- No two rows of the collection share a link id. -/
def CollectionRows.LinkUnique (s : CollectionRows) : Prop :=
  ∀ (g h : ReplicaHandle) (p q : ReplicaPlacement) (l : ReplicaLinkId), s.rows[g]? = some p →
    s.rows[h]? = some q → p.linkId = some l → q.linkId = some l → g = h

/-- A minted link id is never the hint it was minted from. -/
theorem ReplicaUpgrade.mint_ne (hint : ReplicaLinkId) (handle : ReplicaHandle) :
    mint hint handle ≠ hint := by
  intro h
  have hlen := congrArg (fun l : ReplicaLinkId => l.asStr.length) h
  simp only [mint, String.length_append] at hlen
  have hdup : "dup:".length = 4 := by decide
  omega

namespace ReplicaRekey

open ReplicaUpgrade (mint)

/-- The link id the fetch resolved a new member to. -/
def linkOf (links : HandleMap Resolved) (item : ReplicaRemoteItem) : Option ReplicaLinkId :=
  links[item.handle]?.map (·.linkId)

/-- The row of a new member carries an old row: its identity, its cached body, its staged edit, its
flag delta against the new base, and its pending delete. -/
structure Carried (p : ReplicaPlacement) (item : ReplicaRemoteItem) (row : ReplicaPlacement) :
    Prop where
  link : row.linkId = p.linkId
  base : ∃ b, row.base = some b ∧ b.flags = item.flags ∧ b.revision = item.revision
  body : row.object = p.object
  edit : p.stagedEdit.isSome → row.stagedEdit = p.stagedEdit
  flags : row.flags = ReplicaFlags.merge (p.baseFlags.getD .empty) p.flags item.flags
  tombstone : p.status = .tombstone → row.status = .tombstone

/-- The carry keeps all of an old row a rebuild is to keep. -/
theorem carry_carried (self : ReplicaRekey) (p : ReplicaPlacement) (item : ReplicaRemoteItem)
    (resolved : Option Resolved) : Carried p item (self.carry p item resolved) := by
  refine ⟨rfl, ⟨_, rfl, rfl, rfl⟩, rfl, ?_, rfl, ?_⟩
  · intro hstaged
    obtain ⟨o, ho⟩ := Option.isSome_iff_exists.mp hstaged
    obtain ⟨hobject, hne⟩ := ReplicaPlacement.stagedEdit_eq_some.mp ho
    rw [ho, ReplicaPlacement.stagedEdit_eq_some]
    refine ⟨hobject, ?_⟩
    rintro b ⟨⟩
    cases hb : p.base with
    | none => simp [ReplicaPlacement.baseObject, hb]
    | some base => simpa [ReplicaPlacement.baseObject, hb] using hne base hb
  · intro ht
    simp [carry, carriedStatus, ht]

/-- A bare row and a row minted from its link id, whose hint the remote reports for two members. -/
structure Duplicated (s : CollectionRows) (links : HandleMap Resolved)
    (items : List ReplicaRemoteItem) (p q : ReplicaPlacement) (i j : ReplicaRemoteItem) : Prop where
  bare : p ∈ s.spine
  minted : q ∈ s.spine
  hint : ∃ l old, p.linkId = some l ∧ q.linkId = some (mint l old) ∧
    linkOf links i = some l ∧ linkOf links j = some l
  first : i ∈ items
  second : j ∈ items
  apart : i.handle ≠ j.handle

/-- Both copies of a duplicated identity are carried onto the two members reporting it. -/
def CarriesDuplicates (s s' : CollectionRows) (links : HandleMap Resolved)
    (items : List ReplicaRemoteItem) : Prop :=
  ∀ p q i j, Duplicated s links items p q i j → ∃ r r', s'.rows[i.handle]? = some r ∧
    s'.rows[j.handle]? = some r' ∧ (Carried p i r ∧ Carried q j r' ∨ Carried q i r ∧ Carried p j r')

/-- No surviving edit stands under the member's handle. -/
def Spared (s : CollectionRows) (links : HandleMap Resolved) (items : List ReplicaRemoteItem)
    (item : ReplicaRemoteItem) : Prop :=
  ∀ p, Survives s links items p → p.handle ≠ item.handle

/-- What the fetch resolves tells the new members, and the pending creates, apart. -/
structure Distinguished (s : CollectionRows) (links : HandleMap Resolved)
    (items : List ReplicaRemoteItem) : Prop where
  members : ∀ i ∈ items, ∀ j ∈ items, Spared s links items i → Spared s links items j →
    ∀ l, linkOf links i = some l → linkOf links j = some l → i.handle = j.handle
  creates : ∀ i ∈ items, Spared s links items i → ∀ p : ReplicaPlacement,
    s.rows[p.handle]? = some p → p.status = .created → (∀ j ∈ items, j.handle ≠ p.handle) →
    ∀ l, linkOf links i = some l → p.linkId ≠ some l
  duplicates : ∀ p q i j, ¬ Duplicated s links items p q i j

variable {s : CollectionRows} {links : HandleMap Resolved} {items : List ReplicaRemoteItem}

/-- Where link ids are distinct, an old row is the holder of its own. -/
theorem holder_of_unique (hu : s.LinkUnique) {p : ReplicaPlacement} {l : ReplicaLinkId}
    (hp : p ∈ s.spine) (hl : p.linkId = some l) : holder s.spine l = some p := by
  cases hh : holder s.spine l with
  | none =>
    rw [holder, List.getLast?_eq_none_iff, List.filter_eq_nil_iff] at hh
    exact absurd hl (by simpa using hh p hp)
  | some q =>
    obtain ⟨hq, hql⟩ := holder_linkId hh
    have hps := ((s.mem_spine p).mp hp).1
    have hqs := ((s.mem_spine q).mp hq).1
    have heq := hu q.handle p.handle q p l hqs hps hql hl
    rw [heq, hps] at hqs
    exact hqs.symm

/-- A rebuild keeps link ids unique and carries both copies of a duplicate exactly when what it
resolves tells every row apart, and no hint is reported for both copies. -/
theorem rekey_links_iff {collection : ReplicaCollectionId} {loaded : ReplicaLoaded}
    {snapshot : ReplicaRemoteSnapshot} {t : Transcript} (h : Rekeys collection loaded snapshot t)
    (hl : loaded.placements = s.placements) (hu : s.LinkUnique) :
    ((s.apply t.writes).LinkUnique ∧
      CarriesDuplicates s (s.apply t.writes) (resolveLinks t.fetched) snapshot.items) ↔
        Distinguished s (resolveLinks t.fetched) snapshot.items := by
  generalize hlinks : resolveLinks t.fetched = links
  obtain ⟨rows, survivors, drops, hb, hwrites⟩ := rebuild_batch collection snapshot links hl
  have hcases := hb.row_cases collection snapshot.checkpoint
  rw [h.writes, hlinks, hwrites]
  have hmember : ∀ i ∈ snapshot.items, Spared s links snapshot.items i →
      ∃ r, (s.apply (batchOps collection snapshot.checkpoint rows survivors
        drops)).rows[i.handle]? = some r ∧ r.linkId = linkOf links i := by
    intro i hi hspared
    rcases hcases i.handle with ⟨p, hp, hh, -⟩ | ⟨-, ⟨j, -, hh, r, hr, hholds⟩ | ⟨hnone, -⟩⟩
    · exact absurd hh (hspared p hp)
    · refine ⟨r, hr, ?_⟩
      rw [hholds.linkId, hh]
      rfl
    · exact absurd rfl (hnone i hi)
  constructor
  · rintro ⟨hunique, hdup⟩
    refine ⟨?_, ?_, ?_⟩
    · intro i hi j hj hsi hsj l hil hjl
      obtain ⟨r, hr, hrl⟩ := hmember i hi hsi
      obtain ⟨r', hr', hrl'⟩ := hmember j hj hsj
      exact hunique _ _ r r' l hr hr' (hrl.trans hil) (hrl'.trans hjl)
    · intro i hi hsi p hp hcreated hfree l hil hpl
      obtain ⟨r, hr, hrl⟩ := hmember i hi hsi
      rcases hcases p.handle with ⟨q, hq, hh, -⟩ | ⟨-, ⟨j, hj, hh, -⟩ | ⟨-, hrow⟩⟩
      · have hqs := (s.mem_spine q).mp hq.old
        rw [hh, hp] at hqs
        exact hqs.2 (Option.some.inj hqs.1 ▸ hcreated)
      · exact hfree j hj hh
      · rw [hp, Option.filter_some, if_pos (by simpa using hcreated)] at hrow
        exact hfree i hi (hunique _ _ r p l hr hrow (hrl.trans hil) hpl)
    · intro p q i j hd
      obtain ⟨r, r', hr, hr', hcarried⟩ := hdup p q i j hd
      obtain ⟨l, old, -, hql, hil, hjl⟩ := hd.hint
      have hnot : ∀ k ∈ snapshot.items, linkOf links k = some l → ∀ row,
          (s.apply (batchOps collection snapshot.checkpoint rows survivors
            drops)).rows[k.handle]? = some row → ¬ Carried q k row := by
        intro k hk hkl row hrow hc
        obtain ⟨b, hbase, -⟩ := hc.base
        rcases hcases k.handle with ⟨e, -, -, he⟩ | ⟨-, ⟨m, -, hh, r, hr, hholds⟩ | ⟨hnone, -⟩⟩
        · rw [hrow] at he
          rw [Option.some.inj he] at hbase
          cases hbase
        · rw [hrow] at hr
          have hlink := hholds.linkId
          rw [← Option.some.inj hr, hc.link, hql, hh] at hlink
          exact ReplicaUpgrade.mint_ne l old (Option.some.inj (hlink.trans hkl))
        · exact hnone k hk rfl
      rcases hcarried with ⟨-, hc⟩ | ⟨hc, -⟩
      · exact hnot j hd.second hjl r' hr' hc
      · exact hnot i hd.first hil r hr hc
  · intro hd
    refine ⟨?_, fun p q i j hdup => absurd hdup (hd.duplicates p q i j)⟩
    have hsource : ∀ g p l, (s.apply (batchOps collection snapshot.checkpoint rows survivors
        drops)).rows[g]? = some p → p.linkId = some l →
        (∃ q, s.rows[g]? = some q ∧ q.linkId = some l ∧
          ∀ i ∈ snapshot.items, Spared s links snapshot.items i → linkOf links i ≠ some l) ∨
        ∃ i ∈ snapshot.items, i.handle = g ∧ Spared s links snapshot.items i ∧
          linkOf links i = some l := by
      intro g p l hp hpl
      rcases hcases g with ⟨q, hq, rfl, hrow⟩ | ⟨hspared, ⟨i, hi, rfl, r, hr, hholds⟩ | ⟨hfree, hrow⟩⟩
      · rw [hp] at hrow
        rw [Option.some.inj hrow] at hpl
        refine Or.inl ⟨q, ((s.mem_spine q).mp hq.old).1, hpl, ?_⟩
        intro i hi _ hil
        obtain ⟨r, hr, hrl⟩ := Option.map_eq_some_iff.mp hil
        exact hq.unmatched ⟨i, hi, r, hr, by rw [hrl, holder_of_unique hu hq.old hpl]⟩
      · rw [hp] at hr
        rw [Option.some.inj hr] at hpl
        exact Or.inr ⟨i, hi, rfl, hspared, hholds.linkId.symm.trans hpl⟩
      · rw [hp] at hrow
        obtain ⟨hstored, hcreated⟩ := Option.filter_eq_some_iff.mp hrow.symm
        have hg : p.handle = g := s.keyed g p hstored
        refine Or.inl ⟨p, hstored, hpl, ?_⟩
        intro i hi hsi hil
        exact hd.creates i hi hsi p (hg.symm ▸ hstored) (of_decide_eq_true hcreated)
          (hg.symm ▸ hfree) l hil hpl
    intro g g' p q l hp hq hpl hql
    rcases hsource g p l hp hpl with ⟨r, hr, hrl, hnew⟩ | ⟨i, hi, rfl, hsi, hil⟩
    · rcases hsource g' q l hq hql with ⟨r', hr', hrl', -⟩ | ⟨j, hj, -, hsj, hjl⟩
      · exact hu g g' r r' l hr hr' hrl hrl'
      · exact absurd hjl (hnew j hj hsj)
    · rcases hsource g' q l hq hql with ⟨r', -, -, hnew⟩ | ⟨j, hj, rfl, hsj, hjl⟩
      · exact absurd hil (hnew i hi hsi)
      · exact hd.members i hi j hj hsi hsj l hil hjl

section Runs

/-- A mail in sync, under a handle and a link id. -/
def mail (handle : ReplicaHandle) (link : ReplicaLinkId) : ReplicaPlacement where
  collection := ⟨"inbox"⟩
  handle := handle
  linkId := some link
  object := some ⟨"body"⟩
  level := .full
  metadata := none
  sortKey := .unknown
  flags := .empty
  status := .clean
  conflictRevision := none
  conflictObject := none
  base := some ⟨.empty, none, some ⟨"body"⟩⟩
  origin := none

/-- Two mails of one mailbox, the second under `link`. -/
def mailbox (link : ReplicaLinkId) : CollectionRows :=
  (CollectionRows.empty.write (.upsertPlacement (mail ⟨"1"⟩ ⟨"x"⟩))).write
    (.upsertPlacement (mail ⟨"2"⟩ link))

/-- The mailbox renumbered. -/
def bumped : ReplicaRemoteSnapshot :=
  ⟨[⟨⟨"11"⟩, .empty, none⟩, ⟨⟨"12"⟩, .empty, none⟩], [], true, ⟨[]⟩⟩

/-- What the remote reports for the two mails: the second under `link`. -/
def reported (link : ReplicaLinkId) : List ReplicaFetchedItem :=
  [⟨⟨"11"⟩, ⟨"x"⟩, ⟨""⟩, .unknown, none, none⟩, ⟨⟨"12"⟩, link, ⟨""⟩, .unknown, none, none⟩]

theorem linkUnique_of_placements {s : CollectionRows}
    (h : ∀ p ∈ s.placements, ∀ q ∈ s.placements, p.linkId = q.linkId → p.handle = q.handle) :
    s.LinkUnique := by
  intro g g' p q l hp hq hpl hql
  have hg : p.handle = g := s.keyed g p hp
  have hg' : q.handle = g' := s.keyed g' q hq
  subst hg hg'
  exact h p ((s.mem_placements p).mpr hp) q ((s.mem_placements q).mpr hq) (hpl.trans hql.symm)

/-- A renumbered duplicate: both new members take the bare link id, the minted row is gone. -/
theorem renumbered_duplicate_shares_link : ∃ t,
    Rekeys ⟨"inbox"⟩ ⟨(mailbox (mint ⟨"x"⟩ ⟨"2"⟩)).placements, none⟩ bumped t ∧
      (mailbox (mint ⟨"x"⟩ ⟨"2"⟩)).LinkUnique ∧
      ¬ (((mailbox (mint ⟨"x"⟩ ⟨"2"⟩)).apply t.writes).LinkUnique ∧
        CarriesDuplicates (mailbox (mint ⟨"x"⟩ ⟨"2"⟩))
          ((mailbox (mint ⟨"x"⟩ ⟨"2"⟩)).apply t.writes) (resolveLinks t.fetched) bumped.items) := by
  obtain ⟨t, ht, hf⟩ := rekeys_total ⟨"inbox"⟩ ⟨(mailbox (mint ⟨"x"⟩ ⟨"2"⟩)).placements, none⟩ bumped
    (reported ⟨"x"⟩)
  have hfetched : t.fetched = reported ⟨"x"⟩ := hf.trans (if_pos (by decide))
  refine ⟨t, ht, linkUnique_of_placements (by decide), ?_⟩
  rintro ⟨hunique, -⟩
  have hrows : ((mailbox (mint ⟨"x"⟩ ⟨"2"⟩)).apply t.writes).rows[(⟨"11"⟩ : ReplicaHandle)]?.any
        (fun p => p.linkId = some ⟨"x"⟩) = true ∧
      ((mailbox (mint ⟨"x"⟩ ⟨"2"⟩)).apply t.writes).rows[(⟨"12"⟩ : ReplicaHandle)]?.any
        (fun p => p.linkId = some ⟨"x"⟩) = true := by
    rw [ht.writes, hfetched]
    decide
  obtain ⟨p, hp, hpl⟩ := (Option.any_eq_true _ _).mp hrows.1
  obtain ⟨q, hq, hql⟩ := (Option.any_eq_true _ _).mp hrows.2
  have hsame := hunique _ _ p q ⟨"x"⟩ hp hq (of_decide_eq_true hpl) (of_decide_eq_true hql)
  exact absurd hsame (by decide)

/-- Two identities renumbered stay two. -/
theorem renumbered_identities_kept : ∃ t,
    Rekeys ⟨"inbox"⟩ ⟨(mailbox ⟨"y"⟩).placements, none⟩ bumped t ∧
      ((mailbox ⟨"y"⟩).apply t.writes).LinkUnique ∧
      CarriesDuplicates (mailbox ⟨"y"⟩) ((mailbox ⟨"y"⟩).apply t.writes)
        (resolveLinks t.fetched) bumped.items := by
  obtain ⟨t, ht, hf⟩ := rekeys_total ⟨"inbox"⟩ ⟨(mailbox ⟨"y"⟩).placements, none⟩ bumped
    (reported ⟨"y"⟩)
  have hfetched : t.fetched = reported ⟨"y"⟩ := hf.trans (if_pos (by decide))
  have happart : ∀ i ∈ bumped.items, ∀ j ∈ bumped.items,
      linkOf (resolveLinks t.fetched) i = linkOf (resolveLinks t.fetched) j →
        i.handle = j.handle := by
    rw [hfetched]
    decide
  refine ⟨t, ht, (rekey_links_iff ht rfl (linkUnique_of_placements (by decide))).mpr ⟨?_, ?_, ?_⟩⟩
  · intro i hi j hj _ _ l hil hjl
    exact happart i hi j hj (hil.trans hjl.symm)
  · intro i _ _ p hp hcreated
    have hnone : ∀ p ∈ (mailbox ⟨"y"⟩).placements, p.status ≠ .created := by decide
    exact absurd hcreated (hnone p (((mailbox ⟨"y"⟩).mem_placements p).mpr hp))
  · rintro p q i j ⟨-, -, ⟨l, -, -, -, hil, hjl⟩, hi, hj, hne⟩
    exact hne (happart i hi j hj (hil.trans hjl.symm))

end Runs
end ReplicaRekey
end IoReplica

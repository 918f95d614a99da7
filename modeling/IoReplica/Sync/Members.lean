import IoReplica.Sync.Based

/-! The rows with a base a run leaves, against the members it takes its remote to hold. -/
namespace IoReplica

/-- The members a run takes the remote to hold: not shown gone, and listed or known by a base. -/
def taken (rows : HandleMap ReplicaPlacement) (snapshot : ReplicaRemoteSnapshot) :
    Set ReplicaHandle :=
  {h | ¬ snapshot.Gone h ∧ ((snapshot.reported h).isSome ∨ Based rows[h]?)}

/-- The remote confirmed a removal of the member. -/
def Transcript.Removes (t : Transcript) (h : ReplicaHandle) : Prop :=
  ∃ e ∈ t.pushes, ∃ r ∈ e.2, r.outcome = .accepted ∧ r.handle = h ∧
    ∀ k ∈ e.1, k.handle = h → ∃ dest link ifMatch, k.kind = .remove h dest link ifMatch

/-- The remote gave the handle to a member the run created. -/
def Transcript.Assigns (t : Transcript) (h : ReplicaHandle) : Prop :=
  ∃ e ∈ t.pushes, ∃ r ∈ e.2, r.assigned = some h

theorem Transcript.pushes_append (t u : Transcript) : (t ++ u).pushes = t.pushes ++ u.pushes :=
  List.filterMap_append

theorem Transcript.Removes.mono {t u : Transcript} {h : ReplicaHandle}
    (hr : t.Removes h) : (t ++ u).Removes h := by
  obtain ⟨e, he, hrest⟩ := hr
  exact ⟨e, t.pushes_append u ▸ List.mem_append_left _ he, hrest⟩

theorem Transcript.Assigns.mono {t u : Transcript} {h : ReplicaHandle}
    (ha : t.Assigns h) : (t ++ u).Assigns h := by
  obtain ⟨e, he, hrest⟩ := ha
  exact ⟨e, t.pushes_append u ▸ List.mem_append_left _ he, hrest⟩

section Candidates

variable {loaded : ReplicaLoaded} {snapshot : ReplicaRemoteSnapshot} {c : Candidate}
  {h : ReplicaHandle}

/-- A candidate shows its member where the run takes the remote to hold it, and a row with a base it
shows nothing of is one the snapshot shows gone. -/
theorem mergedCandidates_taken (hc : c ∈ mergedCandidates loaded snapshot) :
    (c.remote.isSome → c.handle ∈ taken (collectPlacements loaded.placements) snapshot) ∧
      (c.remote = none → Based c.loc → snapshot.Gone c.handle) := by
  have hat := (mem_mergedCandidates c).mp hc
  have hloc := (Merge.candidateAt_spec hat).2
  have hsel := hat
  simp only [Merge.candidateAt] at hsel
  split at hsel
  case isFalse => cases hsel
  case isTrue hsome =>
  cases hcomplete : snapshot.complete with
  | true =>
    simp only [Merge.select, Merge.between, hcomplete, if_true, Option.some.injEq] at hsel
    have hremote : c.remote = snapshot.reported c.handle := by rw [← hsel]
    have hgone : snapshot.Gone c.handle ↔ snapshot.reported c.handle = none := by
      simp [ReplicaRemoteSnapshot.Gone, hcomplete]
    rw [hremote]
    refine ⟨fun hlisted => ⟨?_, Or.inl hlisted⟩, fun hnone _ => hgone.mpr hnone⟩
    rw [hgone]
    exact Option.isSome_iff_ne_none.mp hlisted
  | false =>
    have hgone : snapshot.Gone c.handle ↔ c.handle ∈ snapshot.vanished := by
      simp [ReplicaRemoteSnapshot.Gone, hcomplete]
    by_cases hv : c.handle ∈ snapshot.vanished
    · rw [Merge.candidateAt_vanished hcomplete hv, if_pos hsome, Option.some.injEq] at hat
      have hremote : c.remote = none := by rw [← hat]
      refine ⟨fun hlisted => ?_, fun _ _ => hgone.mpr hv⟩
      rw [hremote] at hlisted
      cases hlisted
    · cases hi : snapshot.reported c.handle with
      | some item =>
        rw [Merge.candidateAt_listed hcomplete hv hi, Option.some.injEq] at hat
        have hremote : c.remote = some item := by rw [← hat]
        refine ⟨fun _ => ⟨fun hg => hv (hgone.mp hg), Or.inl ?_⟩, fun hnone => ?_⟩
        · rw [hi]
          rfl
        · rw [hremote] at hnone
          cases hnone
      | none =>
        rw [Merge.candidateAt_unlisted hcomplete hv hi] at hat
        obtain ⟨p, hp, hcand⟩ := Option.bind_eq_some_iff.mp hat
        split at hcand
        · cases hcand
        · have hremote : c.remote = Merge.standIn c.handle p := by rw [← Option.some.inj hcand]
          have hcloc : c.loc = some p := by rw [← Option.some.inj hcand]
          have hshown : c.remote.isSome = p.base.isSome := by
            rw [hremote, Merge.standIn, Option.isSome_map]
          refine ⟨fun hlisted => ⟨fun hg => hv (hgone.mp hg), Or.inr ?_⟩, fun hnone hbased => ?_⟩
          · rw [hp, based_some, ← hshown]
            exact hlisted
          · rw [hcloc, based_some, ← hshown, hnone] at hbased
            cases hbased

/-- A member the run takes the remote to hold, and has no base for, is a candidate it shows. -/
theorem shown_of_taken (ht : h ∈ taken (collectPlacements loaded.placements) snapshot)
    (hb : ¬ Based (collectPlacements loaded.placements)[h]?) :
    ∃ c ∈ mergedCandidates loaded snapshot, c.handle = h ∧ c.remote.isSome ∧
      c.loc = (collectPlacements loaded.placements)[h]? := by
  obtain ⟨hgone, hlisted | hbased⟩ := ht
  · obtain ⟨item, hi⟩ := Option.isSome_iff_exists.mp hlisted
    have hat : Merge.candidateAt (collectPlacements loaded.placements) snapshot h =
        some ⟨h, (collectPlacements loaded.placements)[h]?, some item⟩ := by
      cases hcomplete : snapshot.complete with
      | true => simp [Merge.candidateAt, Merge.select, Merge.between, hcomplete, hi]
      | false =>
        have hv : h ∉ snapshot.vanished := by
          simpa [ReplicaRemoteSnapshot.Gone, hcomplete] using hgone
        exact Merge.candidateAt_listed hcomplete hv hi
    let c : Candidate := ⟨h, (collectPlacements loaded.placements)[h]?, some item⟩
    exact ⟨c, (mem_mergedCandidates c).mpr hat, rfl, rfl, rfl⟩
  · exact absurd hbased hb

/-- A row with a base that the snapshot shows gone is a candidate nothing is shown of. -/
theorem unshown_of_gone (hg : snapshot.Gone h)
    (hb : Based (collectPlacements loaded.placements)[h]?) :
    ∃ c ∈ mergedCandidates loaded snapshot, c.handle = h ∧ c.remote = none ∧ Based c.loc := by
  obtain ⟨p, hp, hbase⟩ := hb
  have hat := seen_of_gone (s := CollectionRows.ofLoad loaded.placements) hp hg
  let c : Candidate := ⟨h, some p, none⟩
  exact ⟨c, (mem_mergedCandidates c).mpr hat, rfl, rfl, p, rfl, hbase⟩

end Candidates

section Runs

variable {collection : ReplicaCollectionId} {opts : ReplicaSyncOptions} {loaded : ReplicaLoaded}
  {snapshot : ReplicaRemoteSnapshot} {t u v : Transcript} {box : Outbox} {h : ReplicaHandle}
  {op : ReplicaWriteOp}

open ReplicaSync

/-- What a run awaits push results with is what its candidates left. -/
structure Awaiting (collection : ReplicaCollectionId) (opts : ReplicaSyncOptions)
    (loaded : ReplicaLoaded) (snapshot : ReplicaRemoteSnapshot) (box : Outbox) : Prop where
  awaits : ∀ c ∈ mergedCandidates loaded snapshot,
    box c.handle = (effect collection opts c).1.pendingAt c.handle
  idle : ∀ h, (∀ c ∈ mergedCandidates loaded snapshot, c.handle ≠ h) → box h = .none

/-- What recording an accepted result may write: a row with a base of a member taken to be there,
the drop of a row whose removal was asked for, the drop of a row the remote never showed, or the row
of the member created, with a base. -/
inductive ResultWrites (collection : ReplicaCollectionId) (opts : ReplicaSyncOptions)
    (loaded : ReplicaLoaded) (snapshot : ReplicaRemoteSnapshot) (r : ReplicaPushResult) :
    ReplicaWriteOp → Prop
  | based {q : ReplicaPlacement} (own : q.handle = r.handle) (some : q.base.isSome)
      (there : r.handle ∈ taken (collectPlacements loaded.placements) snapshot) :
      ResultWrites collection opts loaded snapshot r (.upsertPlacement q)
  | removed {c : Candidate} {dest : Option ReplicaCollectionId} {link : Option ReplicaLinkId}
      {ifMatch : Option String} (mem : c ∈ mergedCandidates loaded snapshot)
      (own : c.handle = r.handle)
      (asked : (effect collection opts c).2 = .some (.remove r.handle dest link ifMatch)) :
      ResultWrites collection opts loaded snapshot r (.dropPlacement collection r.handle .deleted)
  | superseded {c : Candidate} (mem : c ∈ mergedCandidates loaded snapshot)
      (own : c.handle = r.handle) (unshown : c.remote = none) :
      ResultWrites collection opts loaded snapshot r (.dropPlacement collection r.handle .superseded)
  | created {q : ReplicaPlacement} {a : ReplicaHandle} (assigned : r.assigned = .some a)
      (own : q.handle = a) (some : q.base.isSome) :
      ResultWrites collection opts loaded snapshot r (.upsertPlacement q)

theorem Awaiting.recorded (hbox : Awaiting collection opts loaded snapshot box)
    {r : ReplicaPushResult} (hop : op ∈ (box r.handle).record collection r) :
    ResultWrites collection opts loaded snapshot r op := by
  by_cases hc : ∃ c ∈ mergedCandidates loaded snapshot, c.handle = r.handle
  case neg =>
    push Not at hc
    rw [hbox.idle _ hc, Pending.record_none] at hop
    cases hop
  case pos =>
    obtain ⟨c, hc, hch⟩ := hc
    have hpaired := mergedCandidates_paired hc
    have hplaced : (box r.handle).Placed r.handle := by
      rw [← hch, hbox.awaits c hc]
      refine ((new collection opts).merge_local hpaired).1.placed ?_
      rw [new_pendingAt]
      exact .none _
    have howed : ∀ m, (box r.handle).holds m = true → ∃ kind p,
        (effect collection opts c).2 = some kind ∧ kind.awaitedIn = m ∧ c.loc = some p ∧
          Derived opts p c.remote kind := by
      intro m hm
      rw [← hch, hbox.awaits c hc] at hm
      exact effect_awaits collection opts hpaired hm
    have hthere : ∀ m, (box r.handle).holds m = true → m ≠ .creates →
        r.handle ∈ taken (collectPlacements loaded.placements) snapshot := by
      intro m hm hne
      obtain ⟨kind, p, -, hin, -, hderived⟩ := howed m hm
      rw [← hch]
      refine (mergedCandidates_taken hc).1 ?_
      generalize c.remote = remote at hderived
      cases hderived with
      | flags | edit | overwritten | remove => rfl
      | create => exact absurd hin.symm hne
    simp only [Pending.record, List.mem_append, Option.mem_toList, Option.map_eq_some_iff] at hop
    rcases hop with ((⟨q, hq, rfl⟩ | ⟨q, hq, rfl⟩) | hop) | hop
    · refine .based (hplaced.flags q hq) rfl (hthere .flags ?_ (by decide))
      exact Option.isSome_of_eq_some hq
    · refine .based (hplaced.content q hq) rfl (hthere .content ?_ (by decide))
      exact Option.isSome_of_eq_some hq
    · split at hop
      · rename_i hdropped
        obtain ⟨kind, p, hkind, hin, -, -⟩ := howed .drops hdropped
        have hnames := ((new collection opts).merge_local hpaired).2 kind hkind
        rw [List.mem_singleton.mp hop]
        cases kind with
        | remove g dest link ifMatch =>
          have hg : g = r.handle := Eq.trans hnames hch
          exact .removed hc hch (hg ▸ hkind)
        | add | update | setFlags => cases hin
      · cases hop
    · cases hcreated : (box r.handle).created with
      | none => simp [hcreated] at hop
      | some q =>
        have hq := hplaced.created q hcreated
        simp only [hcreated, Option.map_some, Option.getD_some, Pending.recordCreate, List.mem_cons,
          Option.mem_toList, Option.map_eq_some_iff] at hop
        rcases hop with rfl | ⟨a, ha, rfl⟩
        · obtain ⟨kind, p, -, hin, -, hderived⟩ := howed .creates (Option.isSome_of_eq_some hcreated)
          have hunshown : c.remote = none := by
            generalize c.remote = remote at hderived
            cases hderived with
            | flags | edit | overwritten | remove => cases hin
            | create => rfl
          rw [hq]
          exact .superseded hc hch hunshown
        · exact .created ha rfl rfl

/-- The change a run derives for a handle is its candidate's, whichever push it goes out with. -/
theorem WholeRun.pushed (hwhole : WholeRun collection opts loaded snapshot t box) {c : Candidate}
    (hc : c ∈ mergedCandidates loaded snapshot) {kind : ReplicaChangeKind}
    (hkind : (effect collection opts c).2 = some kind) {e : PushExchange} (he : e ∈ t.pushes)
    {k : ReplicaChange} (hk : k ∈ e.1) (hh : k.handle = c.handle) : k.kind = kind := by
  have hchange : k ∈ t.changes := List.mem_flatten_of_mem (List.mem_map_of_mem he) hk
  obtain ⟨d, hd, hdh, hmap⟩ := hwhole.mem_changes.mp hchange
  rw [mergedCandidates_unique hd hc (hdh.trans hh), hkind] at hmap
  cases hmap
  rfl

/-- A drop recorded as a removal is of one the remote confirmed. -/
theorem ResultWrites.removes {r : ReplicaPushResult} {c : Candidate}
    {dest : Option ReplicaCollectionId} {link : Option ReplicaLinkId} {ifMatch : Option String}
    (hwhole : WholeRun collection opts loaded snapshot (u ++ v) box)
    (hc : c ∈ mergedCandidates loaded snapshot) (hch : c.handle = r.handle)
    (hkind : (effect collection opts c).2 = some (.remove r.handle dest link ifMatch))
    {e : PushExchange} (he : e ∈ u.pushes) (hr : r ∈ e.2) (hacc : r.outcome = .accepted) :
    u.Removes r.handle := by
  refine ⟨e, he, r, hr, hacc, rfl, fun k hk hh => ⟨dest, link, ifMatch, ?_⟩⟩
  have he' : e ∈ (u ++ v).pushes := u.pushes_append v ▸ List.mem_append_left _ he
  exact hwhole.pushed hc hkind he' hk (hh.trans hch.symm)

/-- Where a write of a run so far comes from. -/
theorem Syncs.wrote (hsync : Syncs collection opts loaded snapshot (u ++ v)) (hop : op ∈ u.writes) :
    (∃ c ∈ mergedCandidates loaded snapshot, op ∈ (effect collection opts c).1.writes) ∨
      op = .setCheckpoint collection snapshot.checkpoint ∨
      ∃ e ∈ u.pushes, ∃ r ∈ e.2, r.outcome = .accepted ∧
        ResultWrites collection opts loaded snapshot r op := by
  obtain ⟨box, hvouched⟩ := hsync.vouched
  have hbox : Awaiting collection opts loaded snapshot box := ⟨hvouched.awaits, hvouched.idle⟩
  obtain ⟨⟨y, answer⟩, hmem, hin⟩ := List.mem_flatMap.mp hop
  cases y with
  | wantsWrite ops =>
    obtain ⟨pre, post, rfl⟩ := List.append_of_mem hmem
    have hsplit : pre ++ (.wantsWrite ops, answer) :: post ++ v =
        pre ++ (.wantsWrite ops, answer) :: (post ++ v) := by simp
    rcases hvouched.written pre ops answer (post ++ v) hsplit op hin with
      hmerged | hclosing | ⟨e, he, r, hr, hacc, hrec⟩
    · exact Or.inl hmerged
    · exact Or.inr (Or.inl hclosing)
    · have he' : e ∈ Transcript.pushes (pre ++ (.wantsWrite ops, answer) :: post) :=
        Transcript.pushes_append pre _ ▸ List.mem_append_left _ he
      exact Or.inr (Or.inr ⟨e, he', r, hr, hacc, hbox.recorded hrec⟩)
  | wantsEnumerate | wantsFetch | wantsPush | wantsLoad | wantsLookupObject => cases hin

/-- A write with a base is of a member taken to be there, or of one created; one without is of a row
with none, of a member not taken to be there, or of one removed. -/
theorem Syncs.write_based (hsync : Syncs collection opts loaded snapshot (u ++ v))
    (hop : op ∈ u.writes) (hrow : op.row = some h) :
    (Based op.leaves → h ∈ taken (collectPlacements loaded.placements) snapshot ∨ u.Assigns h) ∧
      (¬ Based op.leaves → h.Plain → Based (collectPlacements loaded.placements)[h]? →
        h ∈ taken (collectPlacements loaded.placements) snapshot → u.Removes h) := by
  obtain ⟨box, hwhole⟩ := hsync.whole
  have hunshown : ∀ {c : Candidate}, c ∈ mergedCandidates loaded snapshot → c.handle = h →
      c.remote = none → Based (collectPlacements loaded.placements)[h]? →
      h ∉ taken (collectPlacements loaded.placements) snapshot := by
    intro c hc hch hnone hbased htaken
    have hloc := (Merge.candidateAt_spec ((mem_mergedCandidates c).mp hc)).2
    rw [← hch] at hbased htaken
    exact htaken.1 ((mergedCandidates_taken hc).2 hnone (hloc ▸ hbased))
  rcases hsync.wrote hop with ⟨c, hc, hop⟩ | rfl | ⟨e, he, r, hr, hacc, hwrites⟩
  · have hpaired := mergedCandidates_paired hc
    have hshown := (mergedCandidates_taken hc).1
    have hloc := (Merge.candidateAt_spec ((mem_mergedCandidates c).mp hc)).2
    obtain ⟨g, loc, remote⟩ := c
    cases remote with
    | none =>
      obtain ⟨hall, -⟩ := merge_unshown collection opts hpaired
      obtain ⟨hown, hless⟩ := hall op hop
      have hg : g = h := Option.some.inj (hown.symm.trans hrow)
      refine ⟨fun hbased => absurd hbased hless, fun _ _ hbased htaken => ?_⟩
      exact absurd htaken (hunshown hc hg rfl hbased)
    | some item =>
      obtain ⟨hall, -⟩ := merge_shown collection opts hpaired
      obtain ⟨q, rfl, hq⟩ := hall op hop
      have hqh : q.handle = h := Option.some.inj hrow
      rw [ReplicaWriteOp.leaves, based_some]
      cases hq with
      | based own some =>
        have hg : g = h := own.symm.trans hqh
        exact ⟨fun _ => Or.inl (hg ▸ hshown rfl), fun hnone => absurd some hnone⟩
      | collided own none stood =>
        have hg : g = h := own.symm.trans hqh
        rw [none]
        refine ⟨fun hb => (by cases hb), fun _ _ hbased _ => ?_⟩
        obtain ⟨p, hp, hbase⟩ := hbased
        have hlocp : loc = some p := hloc.trans (hg ▸ hp)
        rw [hlocp, Option.bind_some] at stood
        rw [stood] at hbase
        cases hbase
      | forked other none =>
        rw [none]
        exact ⟨fun hb => (by cases hb), fun _ hplain => absurd (hqh ▸ hplain) other⟩
  · cases hrow
  · cases hwrites with
    | @based q own some there =>
      have hrh : r.handle = h := own.symm.trans (Option.some.inj hrow)
      rw [ReplicaWriteOp.leaves, based_some]
      exact ⟨fun _ => Or.inl (hrh ▸ there), fun hnone => absurd some hnone⟩
    | @removed c dest link ifMatch mem own asked =>
      have hrh : r.handle = h := Option.some.inj hrow
      refine ⟨fun hb => absurd hb not_based_none, fun _ _ _ _ => ?_⟩
      exact hrh ▸ ResultWrites.removes hwhole mem own asked he hr hacc
    | @superseded c mem own unshown =>
      have hrh : r.handle = h := Option.some.inj hrow
      refine ⟨fun hb => absurd hb not_based_none, fun _ _ hbased htaken => ?_⟩
      exact absurd htaken (hunshown mem (own.trans hrh) unshown hbased)
    | @created q a assigned own some =>
      have hah : a = h := own.symm.trans (Option.some.inj hrow)
      rw [ReplicaWriteOp.leaves, based_some]
      exact ⟨fun _ => Or.inr ⟨e, he, r, hr, hah ▸ assigned⟩, fun hnone => absurd some hnone⟩

/-- What a run wrote so far of the rows with a base: it gives one to members it takes the remote to
hold and to those it created, and takes one away from members not there or removed. -/
theorem Syncs.based_so_far (hsync : Syncs collection opts loaded snapshot (u ++ v))
    (h : ReplicaHandle) :
    (Based (rowAfter h (collectPlacements loaded.placements)[h]? u.writes) →
      Based (collectPlacements loaded.placements)[h]? ∨
        h ∈ taken (collectPlacements loaded.placements) snapshot ∨ u.Assigns h) ∧
      (h.Plain → Based (collectPlacements loaded.placements)[h]? →
        h ∈ taken (collectPlacements loaded.placements) snapshot →
        Based (rowAfter h (collectPlacements loaded.placements)[h]? u.writes) ∨ u.Removes h) := by
  rcases rowAfter_cases h (collectPlacements loaded.placements)[h]? u.writes with
    ⟨-, hrow⟩ | ⟨pre, op, post, hsplit, hop, -, hrow⟩
  · rw [hrow]
    exact ⟨Or.inl, fun _ hbased _ => Or.inl hbased⟩
  · have hmem : op ∈ u.writes := by simp [hsplit]
    obtain ⟨hbases, hunbases⟩ := hsync.write_based hmem hop
    rw [hrow]
    refine ⟨fun hbased => Or.inr (hbases hbased), fun hplain hbased htaken => ?_⟩
    by_cases hleaves : Based op.leaves
    · exact Or.inl hleaves
    · exact Or.inr (hunbases hleaves hplain hbased htaken)

/-- What a whole run leaves of the rows with a base: they are the members it takes the remote to
hold, less those it removed, and those it created. -/
theorem Syncs.based (hsync : Syncs collection opts loaded snapshot t) (h : ReplicaHandle) :
    (Based (rowAfter h (collectPlacements loaded.placements)[h]? t.writes) →
      h ∈ taken (collectPlacements loaded.placements) snapshot ∨ t.Assigns h) ∧
      (h.Plain → h ∈ taken (collectPlacements loaded.placements) snapshot →
        Based (rowAfter h (collectPlacements loaded.placements)[h]? t.writes) ∨ t.Removes h) := by
  have hstart : Syncs collection opts loaded snapshot (t ++ []) := (List.append_nil t).symm ▸ hsync
  obtain ⟨hgains, hloses⟩ := hstart.based_so_far h
  obtain ⟨box, hwhole⟩ := hsync.whole
  refine ⟨fun hbased => ?_, fun hplain htaken => ?_⟩
  · rcases hgains hbased with hstood | hnew
    · by_cases htaken : h ∈ taken (collectPlacements loaded.placements) snapshot
      · exact Or.inl htaken
      -- a row with a base not taken to be there is one the run drops or unbases
      · have hgone : snapshot.Gone h := by
          by_contra hgone
          exact htaken ⟨hgone, Or.inr hstood⟩
        obtain ⟨c, hc, rfl, hnone, hloc⟩ := unshown_of_gone hgone hstood
        obtain ⟨g, loc, remote⟩ := c
        subst hnone
        obtain ⟨hall, hwrites⟩ := merge_unshown collection opts (mergedCandidates_paired hc)
        obtain ⟨o, ops, hops⟩ := List.exists_cons_of_ne_nil (hwrites hloc)
        have hmem : o ∈ t.writes := by
          rw [hwhole.writes]
          refine List.mem_append_left _ (List.mem_flatMap.mpr ⟨_, hc, ?_⟩)
          rw [hops]
          exact List.mem_cons_self
        have hown := (hall o (hops ▸ List.mem_cons_self)).1
        rcases rowAfter_cases g (collectPlacements loaded.placements)[g]? t.writes with
          ⟨huntouched, -⟩ | ⟨pre, op, post, hsplit, hop, -, hrow⟩
        · exact absurd hown (huntouched o hmem)
        · have hlast : op ∈ t.writes := by simp [hsplit]
          rw [hrow] at hbased
          exact (hstart.write_based (List.append_nil t ▸ hlast) hop).1 hbased
    · exact hnew
  · by_cases hstood : Based (collectPlacements loaded.placements)[h]?
    · exact hloses hplain hstood htaken
    -- the run joins the row to its member, and records over it nothing but a removal
    · obtain ⟨c, hc, rfl, hshown, hloc⟩ := shown_of_taken htaken hstood
      obtain ⟨earlier, hrow⟩ := hwhole.row_at hc (collectPlacements loaded.placements)[c.handle]?
      obtain ⟨item, hitem⟩ := Option.isSome_iff_exists.mp hshown
      rw [← hloc] at hstood
      obtain ⟨g, loc, remote⟩ := c
      subst hitem
      obtain ⟨ops, q, hops, hq, hbase⟩ :=
        (merge_shown collection opts (mergedCandidates_paired hc)).2 hstood
      dsimp only at hrow ⊢
      rw [hrow, hops, rowAfter_append, rowAfter_upsert, if_pos hq, rowAfter_nil]
      have hbox : Awaiting collection opts loaded snapshot box := ⟨hwhole.awaits, hwhole.idle⟩
      rcases rowAfter_cases g (some q) (box.recordAll collection t.pushes) with
        ⟨-, hlast⟩ | ⟨pre, op, post, hsplit, hop, -, hlast⟩
      · rw [hlast, based_some]
        exact Or.inl hbase
      · rw [hlast]
        have hmem : op ∈ box.recordAll collection t.pushes := by simp [hsplit]
        obtain ⟨r, ⟨e, he, hr⟩, hacc, hrec⟩ := Outbox.recordAll_mem t.pushes hmem
        cases hbox.recorded hrec with
        | based own some there => exact Or.inl ((based_some _).mpr some)
        | removed mem own asked =>
          have hrg : r.handle = g := Option.some.inj hop
          exact Or.inr (hrg ▸ ResultWrites.removes (v := []) (List.append_nil t ▸ hwhole) mem own asked
            he hr hacc)
        | superseded mem own unshown =>
          have hrg : r.handle = g := Option.some.inj hop
          have hsame := mergedCandidates_unique mem hc (own.trans hrg)
          rw [hsame] at unshown
          cases unshown
        | created assigned own some => exact Or.inl ((based_some _).mpr some)

end Runs
end IoReplica

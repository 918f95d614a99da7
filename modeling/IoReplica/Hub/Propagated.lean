import IoReplica.Hub.Delivered
import IoReplica.Hub.Settled

/-! A change one source makes of a shared item, and the syncs that take it to another. -/
namespace IoReplica

/-- Any number of such syncs, with what each pushed for the item. -/
inductive Delivers (collection : ReplicaCollectionId) (source : ReplicaSourceId)
    (link : ReplicaLinkId) (h : ReplicaHandle) : ReplicaHub → Option RemoteMember →
    List (List ReplicaChangeKind) → ReplicaHub → Option RemoteMember → Prop
  | nil {hub : ReplicaHub} {m : Option RemoteMember} :
      Delivers collection source link h hub m [] hub m
  | sync {hub hub' hub'' : ReplicaHub} {m m' m'' : Option RemoteMember} {t : Transcript}
      {pushes : List (List ReplicaChangeKind)}
      (first : Delivery collection source link h hub m t hub' m')
      (rest : Delivers collection source link h hub' m' pushes hub'' m'') :
      Delivers collection source link h hub m (t.pushedFor h link :: pushes) hub'' m''

/-- One a run, in order, then nothing. -/
def oneEach {α : Type} : ℕ → List α → List (List α)
  | 0, _ => []
  | n + 1, [] => [] :: oneEach n []
  | n + 1, k :: ks => [k] :: oneEach n ks

section Runs

variable {hub hub' : ReplicaHub} {collection : ReplicaCollectionId} {source : ReplicaSourceId}
  {link : ReplicaLinkId} {h : ReplicaHandle} {item : ReplicaHubItem}
  {binding : ReplicaSourceBinding} {m m' : Option RemoteMember}
  {pushes : List (List ReplicaChangeKind)}

theorem oneEach_cons {α : Type} (n : ℕ) (l : List α) :
    oneEach (n + 1) l = l.head?.toList :: oneEach n l.tail := by
  cases l <;> rfl

/-- Syncs after the item is gone push nothing for it. -/
theorem Delivers.gone (hd : Delivers collection source link h hub m pushes hub' m')
    (hg : Gone hub source link) (hm : m = none) :
    pushes = oneEach pushes.length [] ∧ Gone hub' source link ∧ m' = none := by
  induction hd with
  | nil => exact ⟨rfl, hg, hm⟩
  | sync first rest ih =>
    obtain ⟨hpushed, hgone, hnone⟩ := hg.step hm first
    obtain ⟨hrest, hgone', hnone'⟩ := ih hgone hnone
    refine ⟨?_, hgone', hnone'⟩
    rw [hpushed, List.length_cons, oneEach_cons, List.head?_nil, List.tail_nil, ← hrest]
    rfl

/-- Syncs of a live item push what it owes one by one, and move nothing shared. -/
theorem Delivers.live (hd : Delivers collection source link h hub m pushes hub' m')
    (ho : Owing hub source link item binding m) (hlive : item.deleted = false)
    (hh : binding.handle = h) :
    pushes = oneEach pushes.length (item.owed link binding) ∧
      ∃ item' binding', Owing hub' source link item' binding' m' ∧ item'.deleted = false ∧
        item'.flags = item.flags ∧ item'.object = item.object ∧ binding'.handle = h ∧
        item'.owed link binding' = (item.owed link binding).drop pushes.length := by
  induction hd generalizing item binding with
  | nil => exact ⟨rfl, item, binding, ho, hlive, rfl, rfl, hh, rfl⟩
  | sync first rest ih =>
    subst hh
    obtain ⟨item', binding', hpaid⟩ := ho.step_live hlive first
    obtain ⟨hrest, item'', binding'', ho'', hlive'', hflags, hobject, hh, howed⟩ :=
      ih hpaid.owing hpaid.live hpaid.handle
    refine ⟨?_, item'', binding'', ho'', hlive'', hflags.trans hpaid.flags,
      hobject.trans hpaid.object, hh, ?_⟩
    · rw [hpaid.owed] at hrest
      rw [hpaid.pushed, List.length_cons, oneEach_cons, ← hrest]
    · rw [howed, hpaid.owed, List.length_cons, List.drop_tail]

/-- An absorb's change of an item: its flags to a known set, its body to a new one, both, or its
deletion. -/
def ReplicaHubItem.Changes (item item' : ReplicaHubItem) : Prop :=
  item'.deleted = true ∨
    ((item'.flags = item.flags ∨ item'.flags.isUnknown = false) ∧
      (item'.object = item.object ∨ item'.object.isSome))

/-- The change is where it was headed: the source reads clean at the shared content, which its
remote holds, or neither holds anything of a deleted item. -/
def Reached (collection : ReplicaCollectionId) (source : ReplicaSourceId) (link : ReplicaLinkId)
    (h : ReplicaHandle) (changed : ReplicaHubItem) (hub : ReplicaHub) (m : Option RemoteMember) :
    Prop :=
  if changed.deleted then hub.binding link source = none ∧ m = none
  else (∃ p ∈ hub.project collection source, p.linkId = some link ∧ p.handle = h ∧
      p.status = .clean ∧ p.flags = changed.flags ∧ p.object = changed.object) ∧
    ∃ revision, m = some ⟨changed.flags, revision, changed.object⟩

/-- An item that has paid all it owed is where it was headed. -/
theorem Owing.reached (ho : Owing hub source link item binding m) (hlive : item.deleted = false)
    (howed : item.owed link binding = []) {changed : ReplicaHubItem}
    (hchanged : changed.deleted = false) (hflags : item.flags = changed.flags)
    (hobject : item.object = changed.object) :
    Reached collection source link binding.handle changed hub m := by
  obtain ⟨hclean, hmember⟩ := ho.clean_of_nothing hlive howed
  rw [hflags, hobject] at hmember
  rw [Reached, hchanged, if_neg Bool.false_ne_true]
  have hp : item.placement collection link source =
      some (item.boundPlacement collection link binding) := by
    simp only [ReplicaHubItem.placement, hlive, ho.bound]
  exact ⟨⟨_, ReplicaHub.mem_project.mpr ⟨link, item, ho.shared, hp⟩, rfl, rfl, hclean, hflags,
    hobject⟩, hmember⟩

theorem owed_length (item : ReplicaHubItem) (link : ReplicaLinkId)
    (binding : ReplicaSourceBinding) :
    (item.owed link binding).length ≤ 2 := by
  simp only [ReplicaHubItem.owed]
  split
  · simp
  · rw [List.length_append]
    have hbody : ∀ o : Option ReplicaHash, (if binding.base.bind (·.object) = o then []
        else (o.map (fun o => ReplicaChangeKind.update binding.handle o
          (binding.base.bind (·.revision)))).toList).length ≤ 1 := by
      intro o
      split
      · simp
      · cases o <;> simp
    have hset : (if binding.base.map (·.flags) = some item.flags then []
        else [ReplicaChangeKind.setFlags binding.handle item.flags]).length ≤ 1 := by
      split <;> simp
    have hone := hbody item.object
    omega

/-- No absorb leaves a binding stuck. -/
theorem ReplicaHub.absorbs_unstuck (policy : ReplicaHubConflict)
    (batches : List (ReplicaSourceId × List ReplicaWriteOp)) :
    ((ReplicaHub.empty policy).absorbs batches).All HubStore.Unstuck := by
  suffices hall : ∀ hub : ReplicaHub, hub.All HubStore.Unstuck →
      (hub.absorbs batches).All HubStore.Unstuck by
    refine hall _ ?_
    intro link item hitem
    simp [ReplicaHub.empty] at hitem
  induction batches with
  | nil => exact fun hub hall => hall
  | cons batch batches ih =>
    exact fun hub hall => ih _ (HubStore.unstuck_absorb rfl hall batch.1 batch.2).1

/-- A change another source makes of an item in sync here reaches this source's remote: its syncs
push what the change owes, one a run and nothing else for the item, and two at most leave it
there. -/
theorem change_reaches (policy : ReplicaHubConflict)
    (batches : List (ReplicaSourceId × List ReplicaWriteOp))
    (hitem : ((ReplicaHub.empty policy).absorbs batches).items[link]? = some item)
    (hb : item.sources[source]? = some binding) (hclean : item.boundStatus binding = .clean)
    {other : ReplicaSourceId} (hne : other ≠ source) (ops : List ReplicaWriteOp)
    {changed : ReplicaHubItem}
    (hchanged : (((ReplicaHub.empty policy).absorbs batches).absorb other ops).items[link]? =
      some changed) (hchange : item.Changes changed)
    (hd : Delivers collection source link binding.handle
      (((ReplicaHub.empty policy).absorbs batches).absorb other ops) binding.member pushes hub'
      m') :
    pushes = oneEach pushes.length (changed.owed link binding) ∧
      (changed.owed link binding).length ≤ 2 ∧
      ((changed.owed link binding).length ≤ pushes.length →
        Reached collection source link binding.handle changed hub' m') := by
  obtain ⟨hsettled, base, hbase, hflags, hobject⟩ := HubStore.clean_base hclean
  have hquiet := ReplicaHub.absorbs_unstuck policy batches link item hitem source binding hb
    hsettled
  have hbound : changed.sources[source]? = some binding := by
    have hkept : (((ReplicaHub.empty policy).absorbs batches).absorbs [(other, ops)]).binding link
        source = ((ReplicaHub.empty policy).absorbs batches).binding link source :=
      ReplicaHub.binding_of_others _ link (by simpa using hne)
    rw [ReplicaHub.binding, ReplicaHub.binding, hitem, Option.bind_some, hb] at hkept
    have habsorbed : (((ReplicaHub.empty policy).absorbs batches).absorbs
        [(other, ops)]).items[link]? = some changed := hchanged
    rw [habsorbed] at hkept
    exact hkept
  have ho : Owing (((ReplicaHub.empty policy).absorbs batches).absorb other ops) source link changed
      binding binding.member := by
    refine ⟨hchanged, hbound, hsettled, hquiet, base, hbase, ?_, ?_⟩
    · rw [ReplicaSourceBinding.member, hbase]
      rfl
    · intro hlive
      rcases hchange with hdeleted | hknown
      · rw [hlive] at hdeleted
        cases hdeleted
      · rw [hflags, hobject]
        exact hknown
  refine ⟨?_, owed_length changed link binding, ?_⟩
  · cases hdeleted : changed.deleted with
    | false => exact (hd.live ho hdeleted rfl).1
    | true =>
      cases hd with
      | nil => rfl
      | sync first rest =>
        obtain ⟨hpushed, hgone, hnone⟩ := ho.step_deleted hdeleted first
        obtain ⟨hrest, -, -⟩ := rest.gone hgone hnone
        have htail : (changed.owed link binding).tail = [] := by
          simp [ReplicaHubItem.owed, hdeleted]
        rw [List.length_cons, oneEach_cons, htail, ← hpushed, ← hrest]
  · intro henough
    cases hdeleted : changed.deleted with
    | false =>
      obtain ⟨-, item', binding', ho', hlive', hf, hob, hh, howed⟩ := hd.live ho hdeleted rfl
      rw [List.drop_eq_nil_of_le henough] at howed
      rw [← hh]
      exact ho'.reached hlive' howed hdeleted hf hob
    | true =>
      have hone : (changed.owed link binding).length = 1 := by simp [ReplicaHubItem.owed, hdeleted]
      rw [Reached, hdeleted, if_pos rfl]
      cases hd with
      | nil =>
        rw [hone] at henough
        cases henough
      | sync first rest =>
        obtain ⟨-, hgone, hnone⟩ := ho.step_deleted hdeleted first
        obtain ⟨-, hgone', hnone'⟩ := rest.gone hgone hnone
        refine ⟨?_, hnone'⟩
        rw [ReplicaHub.binding]
        cases hi : hub'.items[link]? with
        | none => rfl
        | some item' => exact (hgone'.unbound item' hi).2

end Runs

section Cards

open ReplicaHub (cardRow sharedCard)

/-- The right source's sync of the card it holds, answered with these results. -/
def cardSync (hub : ReplicaHub) (snapshot : ReplicaRemoteSnapshot)
    (replies : List (List ReplicaPushResult)) : Option Transcript :=
  ((Seam.mk (.ofLoad (hub.project ⟨"contacts"⟩ ⟨"right"⟩)) none snapshot replies).sync 9
    ⟨"contacts"⟩ .default).map (·.2)

/-- The hub after such a sync. -/
def absorbed (hub : ReplicaHub) (t : Transcript) : ReplicaHub :=
  hub.absorbs (t.batches.map (fun ops => (⟨"right"⟩, ops)))

/-- The sync is a delivery: the card is the only row, listed as it stands, and every push is
accepted. -/
def cardDelivered (hub : ReplicaHub) (m : Option RemoteMember) (snapshot : ReplicaRemoteSnapshot)
    (t : Transcript) : Bool :=
  let rows := hub.project ⟨"contacts"⟩ ⟨"right"⟩
  decide ((CollectionRows.ofLoad rows).placements = rows) &&
  snapshot.complete &&
  m.any (fun m => decide (snapshot.reported ⟨"a"⟩ = some ⟨⟨"a"⟩, m.flags, m.revision⟩)) &&
  decide (∀ k ∈ t.changes, (Outbox.confirmation k.handle t.pushes).isSome) &&
  decide (∀ e ∈ t.pushes, ∀ r ∈ e.2, r.assigned = none) &&
  decide (∀ p ∈ rows, p.handle = ⟨"a"⟩ ∧ p.linkId = some ⟨"ada"⟩)

theorem cardDelivered_delivery {hub : ReplicaHub} {m : Option RemoteMember}
    {snapshot : ReplicaRemoteSnapshot} {replies : List (List ReplicaPushResult)} {t : Transcript}
    (hsync : cardSync hub snapshot replies = some t) (h : cardDelivered hub m snapshot t = true) :
    Delivery ⟨"contacts"⟩ ⟨"right"⟩ ⟨"ada"⟩ ⟨"a"⟩ hub m t (absorbed hub t)
      (RemoteMember.after ⟨"a"⟩ t m) := by
  simp only [cardDelivered, Bool.and_eq_true, decide_eq_true_eq, Option.any_eq_true] at h
  obtain ⟨⟨⟨⟨⟨hrows, hcomplete⟩, own, rfl, htold⟩, haccepted⟩, hassigned⟩, honly⟩ := h
  obtain ⟨⟨s', t'⟩, hdriven, rfl⟩ := Option.map_eq_some_iff.mp hsync
  have halone : ∀ (g : ReplicaHandle) (p : ReplicaPlacement),
      (CollectionRows.ofLoad (hub.project ⟨"contacts"⟩ ⟨"right"⟩)).rows[g]? = some p →
        g = ⟨"a"⟩ := by
    intro g p hp
    rw [← CollectionRows.collect_keyed hp]
    exact (honly p (CollectionRows.mem_of_collect hp)).1
  refine ⟨⟨.default, _, snapshot, rfl, rfl, hrows, (Seam.sync_syncs hdriven).1,
    ⟨Or.inl hcomplete, Or.inl htold⟩⟩, haccepted, rfl, rfl, ?_, ⟨?_, ?_⟩, ?_⟩
  · exact fun p hp _ => (honly p hp).2
  · exact fun g p hp hg => absurd (halone g p hp) hg
  · intro e he r hr _
    rw [hassigned e he r hr]
    simp
  · exact fun p hp hne => absurd (honly p hp).1 hne

/-- The left source rewrites the card and marks it seen. -/
def rewritten : List ReplicaWriteOp :=
  [.upsertPlacement { cardRow ⟨"1"⟩ .dirty (some ⟨"new"⟩) (some ⟨"old"⟩) with
    flags := .known {"seen"} }]

/-- Such syncs in a row, each a delivery. -/
def cardsDelivered (hub : ReplicaHub) (m : Option RemoteMember) :
    List (ReplicaRemoteSnapshot × List (List ReplicaPushResult)) → Bool
  | [] => true
  | (snapshot, replies) :: rest => (cardSync hub snapshot replies).any (fun t =>
    cardDelivered hub m snapshot t &&
      cardsDelivered (absorbed hub t) (RemoteMember.after ⟨"a"⟩ t m) rest)

theorem cardsDelivered_delivers
    {script : List (ReplicaRemoteSnapshot × List (List ReplicaPushResult))} :
    ∀ {hub : ReplicaHub} {m : Option RemoteMember}, cardsDelivered hub m script = true →
      ∃ pushes hub' m', Delivers ⟨"contacts"⟩ ⟨"right"⟩ ⟨"ada"⟩ ⟨"a"⟩ hub m pushes hub' m' ∧
        pushes.length = script.length := by
  induction script with
  | nil => exact fun _ => ⟨[], _, _, .nil, rfl⟩
  | cons sync rest ih =>
    intro hub m h
    obtain ⟨snapshot, replies⟩ := sync
    obtain ⟨t, hsync, hboth⟩ := (Option.any_eq_true _ _).mp h
    obtain ⟨hfirst, hrest⟩ := Bool.and_eq_true_iff.mp hboth
    obtain ⟨pushes, hub', m', hdelivers, hlength⟩ := ih hrest
    exact ⟨_, hub', m', .sync (cardDelivered_delivery hsync hfirst) hdelivers,
      congrArg (· + 1) hlength⟩

/-- The remote at the card's base, then at the body pushed to it. -/
def rewrittenScript : List (ReplicaRemoteSnapshot × List (List ReplicaPushResult)) :=
  [(⟨[⟨⟨"a"⟩, .empty, some "1"⟩], [], true, ⟨[]⟩⟩, [[⟨⟨"a"⟩, .accepted, none, some "2"⟩]]),
    (⟨[⟨⟨"a"⟩, .empty, some "2"⟩], [], true, ⟨[]⟩⟩, [[⟨⟨"a"⟩, .accepted, none, none⟩]])]

/-- A body and flags changed at once take two syncs: the body, then the flags. -/
theorem rewritten_reaches : ∃ hub' m',
    Delivers ⟨"contacts"⟩ ⟨"right"⟩ ⟨"ada"⟩ ⟨"a"⟩ (sharedCard.absorb ⟨"left"⟩ rewritten)
      (some ⟨.empty, some "1", some ⟨"old"⟩⟩)
      [[.update ⟨"a"⟩ ⟨"new"⟩ (some "1")], [.setFlags ⟨"a"⟩ (.known {"seen"})]] hub' m' ∧
    ∃ p ∈ hub'.project ⟨"contacts"⟩ ⟨"right"⟩, p.status = .clean ∧ p.flags = .known {"seen"} ∧
      p.object = some ⟨"new"⟩ := by
  have hshared : sharedCard.items[(⟨"ada"⟩ : ReplicaLinkId)]?.any (fun item =>
      decide (item.flags = .empty ∧ item.object = some ⟨"old"⟩) &&
        item.sources[(⟨"right"⟩ : ReplicaSourceId)]?.any (fun b => decide (b.handle = ⟨"a"⟩ ∧
          b.base = some ⟨.empty, some "1", some ⟨"old"⟩⟩ ∧ item.boundStatus b = .clean))) =
      true := by decide +kernel
  have hrewritten : (sharedCard.absorb ⟨"left"⟩ rewritten).items[(⟨"ada"⟩ : ReplicaLinkId)]?.any
      (fun item => decide (item.deleted = false ∧ item.flags = .known {"seen"} ∧
        item.object = some ⟨"new"⟩)) = true := by decide +kernel
  have hscript : cardsDelivered (sharedCard.absorb ⟨"left"⟩ rewritten)
      (some ⟨.empty, some "1", some ⟨"old"⟩⟩) rewrittenScript = true := by decide +kernel
  obtain ⟨item, hitem, hi⟩ := (Option.any_eq_true _ _).mp hshared
  obtain ⟨hcontent, hbound⟩ := Bool.and_eq_true_iff.mp hi
  obtain ⟨binding, hb, hbinding⟩ := (Option.any_eq_true _ _).mp hbound
  obtain ⟨hflags, hobject⟩ := of_decide_eq_true hcontent
  obtain ⟨hh, hbase, hclean⟩ := of_decide_eq_true hbinding
  obtain ⟨changed, hchanged, hc⟩ := (Option.any_eq_true _ _).mp hrewritten
  obtain ⟨hlive, hseen, hnew⟩ := of_decide_eq_true hc
  obtain ⟨pushes, hub', m', hdelivers, hlength⟩ := cardsDelivered_delivers hscript
  have hmember : binding.member = some ⟨.empty, some "1", some ⟨"old"⟩⟩ := by
    rw [ReplicaSourceBinding.member, hbase]
    rfl
  have howed : changed.owed ⟨"ada"⟩ binding =
      [.update ⟨"a"⟩ ⟨"new"⟩ (some "1"), .setFlags ⟨"a"⟩ (.known {"seen"})] := by
    simp [ReplicaHubItem.owed, hlive, hbase, hh, hseen, hnew, ReplicaFlags.empty]
  have hdelivered := hdelivers
  rw [← hh, ← hmember] at hdelivered
  have hne : (⟨"left"⟩ : ReplicaSourceId) ≠ ⟨"right"⟩ := by decide
  obtain ⟨hpushes, -, hreached⟩ := change_reaches .manual _ hitem hb hclean hne rewritten hchanged
    (Or.inr ⟨Or.inr (by rw [hseen]; rfl), Or.inr (by rw [hnew]; rfl)⟩) hdelivered
  have hdone := hreached (by rw [howed, hlength]; exact Nat.le_refl 2)
  rw [howed, hlength] at hpushes
  rw [Reached, hlive, if_neg Bool.false_ne_true] at hdone
  obtain ⟨⟨p, hp, -, -, hstatus, hpflags, hpobject⟩, -⟩ := hdone
  refine ⟨hub', m', ?_, p, hp, hstatus, hpflags.trans hseen, hpobject.trans hnew⟩
  rw [hpushes] at hdelivers
  exact hdelivers

end Cards
end IoReplica

import IoReplica.Upgrade.Scoped

/-! Fetch replies in any order, each item written over the row of its own handle. -/
namespace IoReplica
namespace ReplicaUpgrade

/-- An answer given in another order: a reply or a load that names no handle twice. -/
inductive Reordered : ReplicaArg → ReplicaArg → Prop
  | same (a : ReplicaArg) : Reordered a a
  | fetch {items items' : List ReplicaFetchedItem} (perm : items.Perm items')
      (apart : (items.map (·.handle)).Nodup) : Reordered (.fetch items) (.fetch items')
  | load {rows rows' : List ReplicaPlacement} (checkpoint : Option ReplicaCheckpoint)
      (perm : rows.Perm rows') (apart : (rows.map (·.handle)).Nodup) :
      Reordered (.load ⟨rows, checkpoint⟩) (.load ⟨rows', checkpoint⟩)

/-- The same request, a link check's links in another order. -/
inductive AsksAlike : ReplicaYield → ReplicaYield → Prop
  | same (y : ReplicaYield) : AsksAlike y y
  | links (collection : ReplicaCollectionId) {links links' : List ReplicaLinkId}
      (perm : links.Perm links') :
      AsksAlike (.wantsLoad collection (.links links)) (.wantsLoad collection (.links links'))

/-- Two upgrades apart from the order of the reply they hold. -/
def Alike (self other : ReplicaUpgrade) : Prop :=
  ∃ items, other = { self with fetched := items } ∧ inOrder items = inOrder self.fetched ∧
    items.Perm self.fetched

theorem Alike.refl (self : ReplicaUpgrade) : Alike self self := ⟨self.fetched, rfl, rfl, .refl _⟩

theorem collectPlacements_perm {rows rows' : List ReplicaPlacement} (hperm : rows.Perm rows')
    (hapart : (rows.map (·.handle)).Nodup) : collectPlacements rows = collectPlacements rows' := by
  refine hperm.foldl_eq' ?_ ∅
  intro p hp q hq m
  by_cases hh : p.handle = q.handle
  · rw [List.inj_on_of_nodup_map hapart hp hq hh]
  · apply Std.ExtTreeMap.ext_getElem?
    intro k
    simp only [OrderedMap.get_insert]
    grind

theorem foldIn_perm {rows rows' : List ReplicaPlacement} (hperm : rows.Perm rows')
    (hapart : (rows.map (·.handle)).Nodup) (m : HandleMap ReplicaPlacement) :
    rows.foldl foldIn m = rows'.foldl foldIn m := by
  refine hperm.foldl_eq' ?_ m
  intro p hp q hq m
  by_cases hh : p.handle = q.handle
  · rw [List.inj_on_of_nodup_map hapart hp hq hh]
  · apply Std.ExtTreeMap.ext_getElem?
    intro k
    simp only [foldIn, Std.ExtTreeMap.mem_iff_isSome_getElem?]
    grind [OrderedMap.get_insert]

theorem writeFetched_alike {self other : ReplicaUpgrade} (h : Alike self other) :
    other.writeFetched = self.writeFetched := by
  obtain ⟨items, rfl, horder, -⟩ := h
  rw [inOrder, inOrder] at horder
  simp only [writeFetched, horder]

theorem freshLinks_perm (self : ReplicaUpgrade) {items items' : List ReplicaFetchedItem}
    (hperm : items.Perm items') : (self.freshLinks items).Perm (self.freshLinks items') :=
  (hperm.filter _).map _

theorem lookUp_fetched (known : LinkMap ReplicaHash) (self : ReplicaUpgrade)
    (items : List ReplicaFetchedItem) (hs toFetch : List ReplicaHandle) :
    hs.foldl (lookUp known) ({ self with fetched := items }, toFetch) =
      ({ (hs.foldl (lookUp known) (self, toFetch)).1 with fetched := items },
        (hs.foldl (lookUp known) (self, toFetch)).2) := by
  induction hs generalizing self toFetch with
  | nil => rfl
  | cons h hs ih =>
    have hone : lookUp known ({ self with fetched := items }, toFetch) h =
        ({ (lookUp known (self, toFetch) h).1 with fetched := items },
          (lookUp known (self, toFetch) h).2) := by
      simp only [lookUp]
      split
      · rfl
      · split <;> rfl
    rw [List.foldl_cons, List.foldl_cons, hone, ih]

/-- Before its fetch is answered an upgrade reads no reply. -/
theorem resume_unanswered {self self' : ReplicaUpgrade} {a : Option ReplicaArg} {step : Step}
    (h : self.resume a = (self', step)) (items : List ReplicaFetchedItem)
    (hfetch : self.state ≠ .pendingFetch) (hcheck : self.state ≠ .pendingLinkCheck) :
    resume { self with fetched := items } a = ({ self' with fetched := items }, step) := by
  obtain ⟨collection, handles, tier, placements, fetched, ops, report, state⟩ := self
  simp only [resume] at h ⊢
  split at h
  case h_2 loaded _ =>
    split at h
    · rename_i hempty
      cases h
      exact if_pos hempty
    · rename_i hempty
      refine (if_neg hempty).trans ?_
      cases tier with
      | metadata =>
        cases h
        rfl
      | full =>
        simp only at h ⊢
        split at h
        · rename_i hlinks
          cases h
          exact if_pos hlinks
        · rename_i hlinks
          cases h
          exact if_neg hlinks
  case h_3 known =>
    let self : ReplicaUpgrade :=
      ⟨collection, handles, tier, placements, fetched, ops, report, .pendingLookup⟩
    have hfold := lookUp_fetched known self items self.pendingHandles []
    have hpending : pendingHandles { self with fetched := items } = self.pendingHandles := rfl
    rw [← hpending] at hfold
    rw [hfold]
    split at h
    · rename_i hempty
      cases h
      exact if_pos hempty
    · rename_i hempty
      cases h
      exact if_neg hempty
  case h_4 => exact absurd rfl hfetch
  case h_5 => exact absurd rfl hcheck
  case h_1 | h_6 | h_7 | h_8 =>
    cases h
    rfl

/-- The order of a load does not show, nor that of a reply nobody waits for. -/
theorem resume_load_reordered (self : ReplicaUpgrade) {a b : Option ReplicaArg}
    (hab : Option.Rel Reordered a b) (hfetch : self.state ≠ .pendingFetch)
    (hcheck : self.state ≠ .pendingLinkCheck) : self.resume b = self.resume a := by
  cases hab with
  | none => rfl
  | some hab =>
    cases hab with
    | same => rfl
    | fetch =>
      cases hs : self.state with
      | pendingFetch => exact absurd hs hfetch
      | pendingLinkCheck => exact absurd hs hcheck
      | start | pendingLoad | pendingLookup | pendingWrite | done => simp only [resume, hs]
    | load checkpoint perm apart =>
      cases hs : self.state with
      | pendingFetch => exact absurd hs hfetch
      | pendingLinkCheck => exact absurd hs hcheck
      | pendingLoad => simp only [resume, hs, collectPlacements_perm perm apart]
      | start | pendingLookup | pendingWrite | done => simp only [resume, hs]

theorem step_rel (step : Step) : Coroutine.Step.Rel AsksAlike step step := by
  cases step with
  | yielded y => exact .yielded (.same y)
  | complete r => exact .complete r

theorem writeFetched_reordered {self other : ReplicaUpgrade} (h : Alike self other) :
    Coroutine.Step.Rel AsksAlike self.writeFetched.2 other.writeFetched.2 ∧
      Alike self.writeFetched.1 other.writeFetched.1 := by
  rw [writeFetched_alike h]
  exact ⟨step_rel _, .refl _⟩

theorem resume_fetch {self : ReplicaUpgrade} (hstate : self.state = .pendingFetch)
    (items : List ReplicaFetchedItem) : self.resume (some (.fetch items)) =
      if (self.freshLinks items).isEmpty then { self with fetched := items }.writeFetched
      else ({ self with fetched := items, state := .pendingLinkCheck },
        .yielded (.wantsLoad self.collection (.links (self.freshLinks items)))) := by
  simp only [resume, hstate]

theorem resume_check {self : ReplicaUpgrade} (hstate : self.state = .pendingLinkCheck)
    (loaded : ReplicaLoaded) : self.resume (some (.load loaded)) =
      { self with placements := loaded.placements.foldl foldIn self.placements }.writeFetched := by
  simp only [resume, hstate]

/-- A reply and the same reply reordered lead to the same write, or to link checks alike. -/
theorem fetch_reordered {self : ReplicaUpgrade} (hstate : self.state = .pendingFetch)
    (held : List ReplicaFetchedItem) {items items' : List ReplicaFetchedItem}
    (hsame : inOrder items' = inOrder items) (hperm : items'.Perm items) :
    Coroutine.Step.Rel AsksAlike (self.resume (some (.fetch items))).2
        (resume { self with fetched := held } (some (.fetch items'))).2 ∧
      Alike (self.resume (some (.fetch items))).1
        (resume { self with fetched := held } (some (.fetch items'))).1 := by
  have hfresh := self.freshLinks_perm hperm
  have hlinks : freshLinks { self with fetched := held } items' = self.freshLinks items' := rfl
  have hheld : ({ self with fetched := held } : ReplicaUpgrade).state = .pendingFetch := hstate
  rw [resume_fetch hstate, resume_fetch hheld, hlinks, hfresh.isEmpty_eq]
  split
  · exact writeFetched_reordered ⟨items', rfl, hsame, hperm⟩
  · exact ⟨.yielded (.links _ hfresh.symm), items', rfl, hsame, hperm⟩

/-- What an upgrade does on an answer it does on the answer reordered. -/
theorem resume_reordered {self other : ReplicaUpgrade} {a b : Option ReplicaArg}
    (halike : Alike self other) (hab : Option.Rel Reordered a b) :
    Coroutine.Step.Rel AsksAlike (self.resume a).2 (other.resume b).2 ∧
      Alike (self.resume a).1 (other.resume b).1 := by
  obtain ⟨held, heq, horder, hheld⟩ := id halike
  have hstate : other.state = self.state := by rw [heq]
  by_cases hfetch : self.state = .pendingFetch
  · rw [hfetch] at hstate
    have hrefused : ∀ e, Coroutine.Step.Rel AsksAlike (self, (.complete (.error e) : Step)).2
        (other, (.complete (.error e) : Step)).2 ∧ Alike self other :=
      fun e => ⟨step_rel _, halike⟩
    cases hab with
    | none =>
      simp only [resume, hfetch, hstate]
      exact hrefused _
    | some hab =>
      cases hab with
      | fetch perm apart =>
        rw [heq]
        exact fetch_reordered hfetch held
          (Listing.insertionSort_perm (fun item : ReplicaFetchedItem => item.handle) perm
            apart).symm perm.symm
      | load =>
        simp only [resume, hfetch, hstate]
        exact hrefused _
      | same =>
        rename_i answer
        cases answer with
        | fetch items =>
          rw [heq]
          exact fetch_reordered hfetch held rfl (.refl _)
        | load | enumerate | push | write | lookupObject =>
          simp only [resume, hfetch, hstate]
          exact hrefused _
  by_cases hcheck : self.state = .pendingLinkCheck
  · rw [hcheck] at hstate
    have hrefused : ∀ e, Coroutine.Step.Rel AsksAlike (self, (.complete (.error e) : Step)).2
        (other, (.complete (.error e) : Step)).2 ∧ Alike self other :=
      fun e => ⟨step_rel _, halike⟩
    have hload : ∀ rows rows' : List ReplicaPlacement,
        rows.foldl foldIn self.placements = rows'.foldl foldIn self.placements →
        Alike { self with placements := rows.foldl foldIn self.placements }
          { other with placements := rows'.foldl foldIn other.placements } := by
      intro rows rows' hrows
      refine ⟨held, ?_, horder, hheld⟩
      rw [heq, hrows]
    cases hab with
    | none =>
      simp only [resume, hcheck, hstate]
      exact hrefused _
    | some hab =>
      cases hab with
      | fetch =>
        simp only [resume, hcheck, hstate]
        exact hrefused _
      | load checkpoint perm apart =>
        rw [resume_check hcheck, resume_check hstate]
        exact writeFetched_reordered (hload _ _ (foldIn_perm perm apart self.placements))
      | same =>
        rename_i answer
        cases answer with
        | load loaded =>
          rw [resume_check hcheck, resume_check hstate]
          exact writeFetched_reordered (hload _ _ rfl)
        | fetch | enumerate | push | write | lookupObject =>
          simp only [resume, hcheck, hstate]
          exact hrefused _
  have hone : self.resume a = ((self.resume a).1, (self.resume a).2) := rfl
  have hkept : (self.resume a).1.fetched = self.fetched :=
    congrArg (·.1.fetched) (resume_unanswered hone self.fetched hfetch hcheck)
  rw [heq, resume_load_reordered { self with fetched := held } hab hfetch hcheck,
    resume_unanswered hone held hfetch hcheck]
  refine ⟨step_rel _, held, rfl, ?_⟩
  rw [hkept]
  exact ⟨horder, hheld⟩

theorem batches_alike {t u : Transcript}
    (h : List.Forall₂ AsksAlike (t.map (·.1)) (u.map (·.1))) : u.batches = t.batches := by
  induction t generalizing u with
  | nil =>
    cases u with
    | nil => rfl
    | cons => cases h
  | cons e t ih =>
    cases u with
    | nil => cases h
    | cons e' u =>
      obtain ⟨y, a⟩ := e
      obtain ⟨y', a'⟩ := e'
      cases h with
      | cons hy hrest =>
        have hrest := ih hrest
        simp only [Transcript.batches] at hrest ⊢
        cases hy with
        | same => rw [List.filterMap_cons, List.filterMap_cons, hrest]
        | links collection perm => exact hrest

/-- The item says something of the row: all but a full answer without a body, to a conflict. -/
def Answers (tier : ReplicaTier) (p : ReplicaPlacement) (item : ReplicaFetchedItem) : Prop :=
  ¬ (tier = .full ∧ isConflicted p = true ∧ item.body = none)

/-- The row an item leaves of the placement it names. -/
inductive WrittenFrom (tier : ReplicaTier) (p : ReplicaPlacement) (item : ReplicaFetchedItem) :
    ReplicaPlacement → Prop
  | conflicted (full : tier = .full) (conflict : isConflicted p = true) (body : ReplicaFetchedBody)
      (hb : item.body = some body) :
      WrittenFrom tier p item { p with conflictObject := some (storedBody body).1.hash }
  | answered (plain : ¬ (tier = .full ∧ isConflicted p = true)) (claimed : LinkMap ReplicaHandle) :
      WrittenFrom tier p item (answer tier claimed p item)

/-- What an item writes: the row it names, and at the full tier its body. -/
inductive Writes (tier : ReplicaTier) (p : ReplicaPlacement) (item : ReplicaFetchedItem) :
    ReplicaWriteOp → Prop
  | row (q : ReplicaPlacement) (written : WrittenFrom tier p item q) :
      Writes tier p item (.upsertPlacement q)
  | object (full : tier = .full) (body : ReplicaFetchedBody) (hb : item.body = some body) :
      Writes tier p item (.storeObject (storedBody body).1 (storedBody body).2)

theorem WrittenFrom.handle {tier : ReplicaTier} {p q : ReplicaPlacement} {item : ReplicaFetchedItem}
    (h : WrittenFrom tier p item q) : q.handle = p.handle := by
  cases h with
  | conflicted => rfl
  | answered plain claimed => exact (answer_leaves tier claimed p item).handle

/-- A fetch never re-identifies a linked row. -/
theorem WrittenFrom.linkId {tier : ReplicaTier} {p q : ReplicaPlacement} {item : ReplicaFetchedItem}
    (h : WrittenFrom tier p item q) (hlinked : p.linkId.isSome) : q.linkId = p.linkId := by
  obtain ⟨link, hlink⟩ := Option.isSome_iff_exists.mp hlinked
  cases h with
  | conflicted => rfl
  | answered plain claimed =>
    have hid : (identify claimed p item).2 = p := by simp only [identify, hlink]
    simp only [answer, hid]
    split <;> rfl

variable {s : CollectionRows} {m : HandleMap ReplicaPlacement} {tier : ReplicaTier}

/-- One item's ops: the row it names, and its body. -/
theorem itemOps_writes (claimed : LinkMap ReplicaHandle) (item : ReplicaFetchedItem) :
    ∀ op ∈ (itemOps tier m claimed item).2, ∃ p, m[item.handle]? = some p ∧ Answers tier p item ∧
      Writes tier p item op := by
  intro op hop
  cases hp : m[item.handle]? with
  | none => simp [itemOps, hp] at hop
  | some p =>
    refine ⟨p, rfl, ?_⟩
    simp only [itemOps, hp] at hop
    by_cases hc : tier = .full ∧ isConflicted p = true
    · rw [if_pos hc] at hop
      cases hb : item.body with
      | none =>
        rw [hb] at hop
        cases hop
      | some body =>
        rw [hb] at hop
        refine ⟨fun h => ?_, ?_⟩
        · rw [hb] at h
          cases h.2.2
        · rcases List.mem_cons.mp hop with rfl | hop
          · exact .object hc.1 body hb
          · rw [List.mem_singleton.mp hop]
            exact .row _ (.conflicted hc.1 hc.2 body hb)
    · rw [if_neg hc] at hop
      refine ⟨fun h => hc ⟨h.1, h.2.1⟩, ?_⟩
      have hanswer : WrittenFrom tier p item (answer tier claimed p item) := .answered hc claimed
      cases tier with
      | metadata =>
        rw [List.mem_singleton.mp hop]
        exact .row _ hanswer
      | full =>
        cases hb : item.body with
        | none =>
          simp only [hb] at hop
          simp only [answer, hb] at hanswer
          rw [List.mem_singleton.mp hop]
          exact .row _ hanswer
        | some body =>
          simp only [hb] at hop
          simp only [answer, hb] at hanswer
          rcases List.mem_cons.mp hop with rfl | hop
          · exact .object rfl body hb
          · rw [List.mem_singleton.mp hop]
            exact .row _ hanswer

/-- An item that says something of a row held writes it, with its body at the full tier. -/
theorem itemOps_answered (claimed : LinkMap ReplicaHandle) {item : ReplicaFetchedItem}
    {p : ReplicaPlacement} (hh : p.handle = item.handle) (hp : m[item.handle]? = some p)
    (hanswers : Answers tier p item) :
    ∃ q, .upsertPlacement q ∈ (itemOps tier m claimed item).2 ∧ WrittenFrom tier p item q ∧
      (∀ init, rowAfter item.handle init (itemOps tier m claimed item).2 = some q) ∧
      (tier = .full → ∀ body, item.body = some body →
        .storeObject (storedBody body).1 (storedBody body).2 ∈ (itemOps tier m claimed item).2) := by
  by_cases hc : tier = .full ∧ isConflicted p = true
  · cases hb : item.body with
    | none => exact absurd ⟨hc.1, hc.2, hb⟩ hanswers
    | some body =>
      have hops : (itemOps tier m claimed item).2 =
          [.storeObject (storedBody body).1 (storedBody body).2,
            .upsertPlacement { p with conflictObject := some (storedBody body).1.hash }] := by
        simp only [itemOps, hp, if_pos hc, hb]
      rw [hops]
      refine ⟨_, List.mem_cons_of_mem _ (List.mem_singleton_self _),
        .conflicted hc.1 hc.2 body hb, fun init => if_pos hh, ?_⟩
      intro _ body' hb'
      cases hb'
      exact List.mem_cons_self
  · have hwritten : WrittenFrom tier p item (answer tier claimed p item) := .answered hc claimed
    have hhandle : (answer tier claimed p item).handle = item.handle := hwritten.handle.trans hh
    have hops : (itemOps tier m claimed item).2 = (if tier = .full then
        (item.body.map (fun body =>
          ReplicaWriteOp.storeObject (storedBody body).1 (storedBody body).2)).toList else []) ++
        [.upsertPlacement (answer tier claimed p item)] := by
      simp only [itemOps, hp, if_neg hc, answer]
      cases tier with
      | metadata => rfl
      | full => cases item.body <;> rfl
    rw [hops]
    refine ⟨_, List.mem_append_right _ (List.mem_singleton_self _), hwritten, fun init => ?_, ?_⟩
    · rw [rowAfter_append]
      exact if_pos hhandle
    · intro htier body hb
      rw [if_pos htier, hb]
      exact List.mem_append_left _ (List.mem_singleton_self _)

/-- Of items that name no handle twice, each writes the row it names, and no other undoes it. -/
theorem itemsOps_answered (hm : Held s m) {items : List ReplicaFetchedItem}
    (hapart : (items.map (·.handle)).Nodup) {item : ReplicaFetchedItem} (hi : item ∈ items)
    {p : ReplicaPlacement} (hp : m[item.handle]? = some p) (hanswers : Answers tier p item)
    (claimed : LinkMap ReplicaHandle) (init : Option ReplicaPlacement) :
    ∃ q, rowAfter item.handle init (itemsOps tier m claimed items) = some q ∧
      WrittenFrom tier p item q := by
  induction items generalizing claimed init with
  | nil => cases hi
  | cons i items ih =>
    rw [List.map_cons, List.nodup_cons] at hapart
    rw [itemsOps, rowAfter_append]
    rcases List.mem_cons.mp hi with rfl | hi
    · obtain ⟨q, -, hwritten, hrow, -⟩ := itemOps_answered claimed (s.keyed _ _ (hm _ _ hp)) hp
        hanswers
      refine ⟨q, ?_, hwritten⟩
      rw [hrow]
      apply rowAfter_of_ne
      intro op hop heq
      obtain ⟨i, hi, claimed', hop⟩ := mem_itemsOps hop
      rcases itemOps_row hm tier claimed' i op hop with hnone | ⟨hsome, -⟩
      · rw [hnone] at heq
        cases heq
      · rw [hsome] at heq
        exact hapart.1 (List.mem_map.mpr ⟨i, hi, Option.some.inj heq⟩)
    · have hne : i.handle ≠ item.handle :=
        fun h => hapart.1 (List.mem_map.mpr ⟨item, hi, h.symm⟩)
      rw [rowAfter_itemOps_other hm tier claimed (Or.inl hne)]
      exact ih hapart.2 hi _ init

/-- Handed its answers in any order, the upgrade completes with the same batch and report. -/
def Orderless (collection : ReplicaCollectionId) (handles : List ReplicaHandle) (tier : ReplicaTier)
    (t : Transcript) (report : ReplicaUpgradeReport) : Prop :=
  ∀ answers, List.Forall₂ Reordered (t.map (·.2)) answers → ∃ u : Transcript,
    Coroutine.Runs resume (new collection handles tier) none u (.ok report) ∧
      u.map (·.2) = answers ∧ u.batches = t.batches

/-- Every answered row is written from the item carrying its handle, a row not answered and an item
naming no row of the batch cause no write, and a linked row keeps its link id. A row of the batch is
one loaded under a handle the upgrade names: a load may return more. -/
structure ByHandle (s : CollectionRows) (handles : List ReplicaHandle) (tier : ReplicaTier)
    (loaded : ReplicaLoaded) (t : Transcript) : Prop where
  answered : ∀ item ∈ t.fetched, ∀ p ∈ loaded.placements, p.handle = item.handle →
    Answers tier p item → ∃ q, (s.apply t.writes).rows[item.handle]? = some q ∧
      WrittenFrom tier p item q
  bodies : tier = .full → ∀ item ∈ t.fetched, ∀ p ∈ loaded.placements, p.handle = item.handle →
    ∀ body, item.body = some body →
      .storeObject (storedBody body).1 (storedBody body).2 ∈ t.writes
  sources : ∀ op ∈ t.writes,
    (∃ p ∈ loaded.placements, ∃ hash, hit handles tier loaded t p = some hash ∧
      op = .upsertPlacement (linked p hash)) ∨
    ∃ item ∈ t.fetched, ∃ p ∈ loaded.placements, p.handle ∈ handles ∧ p.handle = item.handle ∧
      Writes tier p item op
  links : ∀ p : ReplicaPlacement, s.rows[p.handle]? = some p → p.linkId.isSome →
    ∀ q, .upsertPlacement q ∈ t.writes → q.handle = p.handle → q.linkId = p.linkId

/-- No item answers for a row the upgrade does not name, or that only the link check loaded. -/
def Solicited (handles : List ReplicaHandle) (tier : ReplicaTier) (loaded : ReplicaLoaded)
    (t : Transcript) : Prop :=
  ∀ item ∈ t.fetched, ∀ p ∈ t.loaded, p.handle = item.handle → Answers tier p item →
    p ∈ loaded.placements ∧ p.handle ∈ handles

end ReplicaUpgrade

open ReplicaUpgrade

/-- An upgrade writes over the rows its loads returned, the link check's folded in last. -/
theorem Upgrades.writes_held {collection : ReplicaCollectionId} {handles : List ReplicaHandle}
    {tier : ReplicaTier} {loaded : ReplicaLoaded} {t : Transcript} {s : CollectionRows}
    (h : Upgrades collection handles tier loaded t) (hs : Serves s t) :
    ∃ m : HandleMap ReplicaPlacement, Held s m ∧
      (∀ p : ReplicaPlacement, s.rows[p.handle]? = some p →
        (m[p.handle]? = some p ↔ p ∈ t.loaded)) ∧
      t.writes = (asked handles tier loaded).flatMap
        (linkOps t.known (collectPlacements loaded.placements)) ++ fetchedOps tier m t.fetched := by
  obtain ⟨more, hwhole⟩ := h.whole
  have hmore : ∀ q ∈ more, s.rows[q.handle]? = some q :=
    fun q hq => hs q (hwhole.loads ▸ List.mem_append_right _ hq)
  obtain ⟨hheld, hget⟩ := held_collect (h.first_served hs)
  obtain ⟨hheld', hget'⟩ := held_foldl (fun _ _ hm hq => takes_foldIn hm hq) hheld hmore
  refine ⟨_, hheld', ?_, ?_⟩
  · intro p hp
    rw [hget' p hp, hget p hp, hwhole.loads, List.mem_append]
  · rw [← t.flatten_batches, hwhole.batches]
    split
    · rename_i hempty
      rw [List.isEmpty_iff.mp hempty, hwhole.idle hempty]
      rfl
    · rw [List.flatten_cons, List.flatten_nil, List.append_nil]

/-- A body linked from the store is one a lookup found for a row of the batch. -/
theorem ReplicaUpgrade.linkOps_hit {s : CollectionRows} {handles : List ReplicaHandle}
    {tier : ReplicaTier} {loaded : ReplicaLoaded} {t : Transcript}
    (hserved : ∀ p ∈ loaded.placements, s.rows[p.handle]? = some p) {op : ReplicaWriteOp}
    (hop : op ∈ (asked handles tier loaded).flatMap
      (linkOps t.known (collectPlacements loaded.placements))) :
    ∃ p ∈ loaded.placements, ∃ hash, hit handles tier loaded t p = some hash ∧
      op = .upsertPlacement (linked p hash) := by
  obtain ⟨hheld, hget⟩ := held_collect hserved
  obtain ⟨g, hg, hop⟩ := List.mem_flatMap.mp hop
  simp only [linkOps, Option.mem_toList, Option.bind_eq_some_iff, Option.map_eq_some_iff] at hop
  obtain ⟨p, hp, hash, hknown, rfl⟩ := hop
  have hstored := hheld g p hp
  have hh : p.handle = g := s.keyed g p hstored
  rw [← hh] at hp hstored hg
  have hmem := (hget p hstored).mp hp
  obtain ⟨hrequested, hpending⟩ := List.mem_filter.mp hg
  rw [hp] at hpending
  refine ⟨p, hmem, hash, ?_, rfl⟩
  rw [hit, if_pos ⟨hmem, hrequested, hpending⟩, hknown]

/-- An answer with a body says something of any row. -/
theorem ReplicaUpgrade.answers_of_body {tier : ReplicaTier} {p : ReplicaPlacement}
    {item : ReplicaFetchedItem} {body : ReplicaFetchedBody} (hb : item.body = some body) :
    Answers tier p item := by
  rintro ⟨-, -, hnone⟩
  rw [hb] at hnone
  cases hnone

section Writes

variable {collection : ReplicaCollectionId} {handles : List ReplicaHandle} {tier : ReplicaTier}
  {loaded : ReplicaLoaded} {t : Transcript} {s : CollectionRows}

/-- Every op of an upgrade links a row of the batch from the store, or is an item's for a row
loaded. -/
theorem Upgrades.sources (h : Upgrades collection handles tier loaded t) (hs : Serves s t)
    {op : ReplicaWriteOp} (hop : op ∈ t.writes) :
    (∃ p ∈ loaded.placements, ∃ hash, hit handles tier loaded t p = some hash ∧
        op = .upsertPlacement (linked p hash)) ∨
      ∃ item ∈ t.fetched, ∃ p ∈ t.loaded, p.handle = item.handle ∧ Answers tier p item ∧
        Writes tier p item op := by
  obtain ⟨m, hheld, hget, hwrites⟩ := h.writes_held hs
  rw [hwrites] at hop
  rcases List.mem_append.mp hop with hop | hop
  · exact Or.inl (linkOps_hit (h.first_served hs) hop)
  · obtain ⟨item, hi, claimed, hop⟩ := mem_itemsOps hop
    rw [inOrder, List.mem_insertionSort] at hi
    obtain ⟨p, hp, hanswers, hrow⟩ := itemOps_writes claimed item op hop
    have hstored := hheld _ _ hp
    have hh : p.handle = item.handle := s.keyed _ _ hstored
    rw [← hh] at hstored hp
    exact Or.inr ⟨item, hi, p, (hget p hstored).mp hp, hh, hanswers, hrow⟩

/-- An item that says something of a row loaded writes it, with its body at the full tier. -/
theorem Upgrades.answered (h : Upgrades collection handles tier loaded t) (hs : Serves s t)
    {item : ReplicaFetchedItem} (hi : item ∈ t.fetched) {p : ReplicaPlacement} (hp : p ∈ t.loaded)
    (hh : p.handle = item.handle) (hanswers : Answers tier p item) :
    ∃ q, .upsertPlacement q ∈ t.writes ∧ WrittenFrom tier p item q ∧
      (tier = .full → ∀ body, item.body = some body →
        .storeObject (storedBody body).1 (storedBody body).2 ∈ t.writes) := by
  obtain ⟨m, -, hget, hwrites⟩ := h.writes_held hs
  have hheld : m[item.handle]? = some p := by
    rw [← hh]
    exact (hget p (hs p hp)).mpr hp
  have hordered : item ∈ inOrder t.fetched := by
    rw [inOrder, List.mem_insertionSort]
    exact hi
  obtain ⟨claimed, hall⟩ := itemOps_mem tier m (claims m) hordered
  obtain ⟨q, hq, hwritten, -, hbody⟩ := itemOps_answered claimed hh hheld hanswers
  have hmem : ∀ op ∈ (itemOps tier m claimed item).2, op ∈ t.writes := by
    intro op hop
    rw [hwrites]
    exact List.mem_append_right _ (hall op hop)
  exact ⟨q, hmem _ hq, hwritten, fun htier body hb => hmem _ (hbody htier body hb)⟩

end Writes

/-- A reply may come in any order and every row gets its own answer exactly when no item answers for
a row outside the batch: one the upgrade does not name, or that only the link check loaded. -/
theorem replies_by_handle_iff {collection : ReplicaCollectionId} {handles : List ReplicaHandle}
    {tier : ReplicaTier} {loaded : ReplicaLoaded} {t rest : Transcript}
    {report : ReplicaUpgradeReport} {s : CollectionRows}
    (h : Coroutine.Runs resume (new collection handles tier) none t (.ok report))
    (ht : t = (.wantsLoad collection (.handles handles), .load loaded) :: rest) (hs : Serves s t)
    (hapart : (t.fetched.map (·.handle)).Nodup) :
    (Orderless collection handles tier t report ∧ ByHandle s handles tier loaded t) ↔
      Solicited handles tier loaded t := by
  have hupgrades : Upgrades collection handles tier loaded t := ⟨rest, report, ht, h⟩
  obtain ⟨m, hheld, hget, hwrites⟩ := hupgrades.writes_held hs
  have hperm : (inOrder t.fetched).Perm t.fetched := List.perm_insertionSort _ _
  have hsorted : ((inOrder t.fetched).map (·.handle)).Nodup :=
    (hperm.map _).nodup_iff.mpr hapart
  have hloaded : ∀ p ∈ loaded.placements, p ∈ t.loaded := fun _ hp => hupgrades.mem_loaded hp
  constructor
  · rintro ⟨-, hown⟩ item hi p hp hh hanswers
    obtain ⟨q, hmem, hwritten, -⟩ := hupgrades.answered hs hi hp hh hanswers
    have hsame : ∀ r ∈ loaded.placements, r.handle ∈ handles → r.handle = q.handle →
        p ∈ loaded.placements ∧ p.handle ∈ handles := by
      intro r hr hnamed hrq
      have hstored := hs r (hloaded r hr)
      rw [hrq, hwritten.handle, hs p hp] at hstored
      exact Option.some.inj hstored ▸ ⟨hr, hnamed⟩
    rcases hown.sources _ hmem with ⟨r, hr, hash, hhit, heq⟩ | ⟨i, -, r, hr, hnamed, -, hrow⟩
    · cases heq
      exact hsame r hr (of_hit hhit).1 rfl
    · cases hrow with
      | row q' written => exact hsame r hr hnamed written.handle.symm
  · intro hsol
    refine ⟨?_, ?_⟩
    · intro answers hanswers
      obtain ⟨u, hu, hargs, hyields⟩ := h.matching (fun c d a b hcd hab => resume_reordered hcd hab)
        (.refl _) .none hanswers
      exact ⟨u, hu, hargs, batches_alike hyields⟩
    have hheldRow : ∀ p ∈ loaded.placements, ∀ item : ReplicaFetchedItem,
        p.handle = item.handle → m[item.handle]? = some p := by
      intro p hp item hh
      rw [← hh]
      exact (hget p (hs p (hloaded p hp))).mpr (hloaded p hp)
    have hsources : ∀ op ∈ t.writes,
        (∃ p ∈ loaded.placements, ∃ hash, hit handles tier loaded t p = some hash ∧
          op = .upsertPlacement (linked p hash)) ∨
        ∃ item ∈ t.fetched, ∃ p ∈ loaded.placements, p.handle ∈ handles ∧
          p.handle = item.handle ∧ Writes tier p item op := by
      intro op hop
      rcases hupgrades.sources hs hop with hlinked | ⟨item, hi, p, hp, hh, hanswers, hrow⟩
      · exact Or.inl hlinked
      · obtain ⟨hfirst, hnamed⟩ := hsol item hi p hp hh hanswers
        exact Or.inr ⟨item, hi, p, hfirst, hnamed, hh, hrow⟩
    refine ⟨?_, ?_, hsources, ?_⟩
    · intro item hi p hp hh hanswers
      obtain ⟨q, hq, hwritten⟩ := itemsOps_answered hheld hsorted (hperm.mem_iff.mpr hi)
        (hheldRow p hp item hh) hanswers (claims m)
        (rowAfter item.handle s.rows[item.handle]? ((asked handles tier loaded).flatMap
          (linkOps t.known (collectPlacements loaded.placements))))
      refine ⟨q, ?_, hwritten⟩
      rw [CollectionRows.get_apply, hwrites, rowAfter_append]
      exact hq
    · intro htier item hi p hp hh body hb
      obtain ⟨-, -, -, hbody⟩ :=
        hupgrades.answered hs hi (hloaded p hp) hh (answers_of_body hb)
      exact hbody htier body hb
    · intro p hp hlinked q hq hh
      have hsame : ∀ r ∈ loaded.placements, r.handle = q.handle → r = p := by
        intro r hr hrq
        have hstored := hs r (hloaded r hr)
        rw [hrq, hh, hp] at hstored
        exact (Option.some.inj hstored).symm
      rcases hsources _ hq with ⟨r, hr, hash, -, heq⟩ | ⟨item, -, r, hr, -, -, hrow⟩
      · cases heq
        exact congrArg (·.linkId) (hsame r hr rfl)
      · cases hrow with
        | row q' written =>
          have hrp := hsame r hr written.handle.symm
          rw [hrp] at written
          exact written.linkId hlinked

section Runs

/-- A card only probed, and one edited offline that already holds the identity. -/
def probedCard : ReplicaPlacement where
  collection := ⟨"contacts"⟩
  handle := ⟨"1"⟩
  linkId := none
  object := none
  level := .probed
  metadata := none
  sortKey := .unknown
  flags := .empty
  status := .clean
  conflictRevision := none
  conflictObject := none
  base := some ⟨.empty, some "1", none⟩
  origin := none

def holderCard : ReplicaPlacement :=
  { probedCard with
    handle := ⟨"2"⟩
    linkId := some ⟨"ada"⟩
    object := some ⟨"edit"⟩
    level := .full
    status := .dirty
    base := some ⟨.empty, some "1", some ⟨"old"⟩⟩ }

def heldRows : CollectionRows :=
  CollectionRows.empty.apply [.upsertPlacement probedCard, .upsertPlacement holderCard,
    .upsertPlacement { probedCard with handle := ⟨"3"⟩ }]

/-- The remote's answer for a card of the identity. -/
def adaItem (handle : ReplicaHandle) : ReplicaFetchedItem :=
  ⟨handle, ⟨"ada"⟩, ⟨"Ada"⟩, .unknown, some (.persisted ⟨"new"⟩ 3), some "2"⟩

/-- An upgrade of the cards of `handles`, answered with `items`. -/
def probedRun (handles : List ReplicaHandle) (items : List ReplicaFetchedItem) :
    Option (CollectionRows × Transcript) :=
  exactRun 9 ∅ (fun _ _ => items) ⟨"contacts"⟩ handles .full heldRows

/-- Answered for both cards, the upgrade of one overwrites the other's edit. -/
theorem holder_overwritten_unasked : ∃ (t rest : Transcript) (report : ReplicaUpgradeReport),
    Coroutine.Runs resume (new ⟨"contacts"⟩ [⟨"1"⟩] .full) none t (.ok report) ∧
    t = (.wantsLoad ⟨"contacts"⟩ (.handles [⟨"1"⟩]), .load (firstLoad heldRows [⟨"1"⟩])) :: rest ∧
    Serves heldRows t ∧ (t.fetched.map (·.handle)).Nodup ∧
    ¬ (Orderless ⟨"contacts"⟩ [⟨"1"⟩] .full t report ∧
      ByHandle heldRows [⟨"1"⟩] .full (firstLoad heldRows [⟨"1"⟩]) t) := by
  have hrun : (probedRun [⟨"1"⟩] [adaItem ⟨"2"⟩, adaItem ⟨"1"⟩]).any (fun o =>
      decide ((o.2.fetched.map (·.handle)).Nodup) &&
      o.2.writes.any (fun op => decide (op.row = some ⟨"2"⟩))) = true := by decide +kernel
  obtain ⟨⟨s', t⟩, hd, hall⟩ := (Option.any_eq_true _ _).mp hrun
  simp only [Bool.and_eq_true, decide_eq_true_eq, List.any_eq_true] at hall
  obtain ⟨hapart, op, hop, hrow⟩ := hall
  obtain ⟨⟨rest, report, ht, hruns⟩, -, hserves, -⟩ := exactRun_upgrades hd
  refine ⟨t, rest, report, hruns, ht, hserves, hapart, ?_⟩
  rintro ⟨-, hown⟩
  have honly : ∀ p ∈ (firstLoad heldRows [⟨"1"⟩]).placements, some p.handle ≠ op.row := by
    rw [hrow]
    decide +kernel
  rcases hown.sources op hop with ⟨p, hp, hash, -, rfl⟩ | ⟨item, -, p, hp, -, -, hwrites⟩
  · exact honly p hp rfl
  · cases hwrites with
    | row q written => exact honly p hp (congrArg some written.handle.symm)
    | object => cases hrow

/-- Two cards of one identity, answered for them alone: the third card keeps its edit. -/
theorem probed_cards_answered : ∃ (t rest : Transcript) (report : ReplicaUpgradeReport),
    Coroutine.Runs resume (new ⟨"contacts"⟩ [⟨"1"⟩, ⟨"3"⟩] .full) none t (.ok report) ∧
    t = (.wantsLoad ⟨"contacts"⟩ (.handles [⟨"1"⟩, ⟨"3"⟩]),
      .load (firstLoad heldRows [⟨"1"⟩, ⟨"3"⟩])) :: rest ∧
    t.fetched = [adaItem ⟨"3"⟩, adaItem ⟨"1"⟩] ∧
    Orderless ⟨"contacts"⟩ [⟨"1"⟩, ⟨"3"⟩] .full t report ∧
    ByHandle heldRows [⟨"1"⟩, ⟨"3"⟩] .full (firstLoad heldRows [⟨"1"⟩, ⟨"3"⟩]) t := by
  have hrun : (probedRun [⟨"1"⟩, ⟨"3"⟩] [adaItem ⟨"3"⟩, adaItem ⟨"1"⟩]).any (fun o =>
      decide (o.2.fetched = [adaItem ⟨"3"⟩, adaItem ⟨"1"⟩]) &&
      decide (∀ p ∈ o.2.loaded, p.handle ∈ o.2.fetched.map (·.handle) →
        p ∈ (firstLoad heldRows [⟨"1"⟩, ⟨"3"⟩]).placements ∧
          p.handle ∈ [(⟨"1"⟩ : ReplicaHandle), ⟨"3"⟩])) = true := by decide +kernel
  obtain ⟨⟨s', t⟩, hd, hall⟩ := (Option.any_eq_true _ _).mp hrun
  simp only [Bool.and_eq_true, decide_eq_true_eq] at hall
  obtain ⟨hfetched, hloaded⟩ := hall
  obtain ⟨⟨rest, report, ht, hruns⟩, -, hserves, -⟩ := exactRun_upgrades hd
  refine ⟨t, rest, report, hruns, ht, hfetched,
    (replies_by_handle_iff hruns ht hserves (by rw [hfetched]; decide)).mpr ?_⟩
  intro item hi p hp hh _
  exact hloaded p hp (List.mem_map.mpr ⟨item, hi, hh.symm⟩)

end Runs
end IoReplica

import IoReplica.Library.Listing
import IoReplica.Upgrade.Machine

/-! The one batch a completed upgrade writes: the bodies linked from the store, then the fetched
items in handle order. -/
namespace IoReplica

/-- A completed upgrade: what it loaded of the handles it names, and every exchange. -/
def Upgrades (collection : ReplicaCollectionId) (handles : List ReplicaHandle) (tier : ReplicaTier)
    (loaded : ReplicaLoaded) (t : Transcript) : Prop :=
  ∃ rest report, t = (.wantsLoad collection (.handles handles), .load loaded) :: rest ∧
    Coroutine.Runs ReplicaUpgrade.resume (ReplicaUpgrade.new collection handles tier) none t
      (.ok report)

namespace ReplicaUpgrade

/-- The op linking one placement to the body known for it. -/
def linkOps (known : LinkMap ReplicaHash) (m : HandleMap ReplicaPlacement) (h : ReplicaHandle) :
    List ReplicaWriteOp :=
  (m[h]?.bind (fun p => (knownBody known p).map
    (fun hash => .upsertPlacement (linked p hash)))).toList

theorem lookUp_foldl (known : LinkMap ReplicaHash) (self : ReplicaUpgrade)
    (hs toFetch : List ReplicaHandle) :
    ∃ report toFetch', hs.foldl (lookUp known) (self, toFetch) =
      ({ self with ops := self.ops ++ hs.flatMap (linkOps known self.placements), report := report },
        toFetch') := by
  induction hs generalizing self toFetch with
  | nil => exact ⟨self.report, toFetch, by simp⟩
  | cons h hs ih =>
    have hone : ∃ report toFetch', lookUp known (self, toFetch) h =
        ({ self with ops := self.ops ++ linkOps known self.placements h, report := report },
          toFetch') := by
      cases hp : self.placements[h]? with
      | none => exact ⟨self.report, toFetch, by simp [lookUp, linkOps, hp]⟩
      | some p =>
        cases hk : knownBody known p with
        | none => exact ⟨self.report, toFetch ++ [h], by simp [lookUp, linkOps, hp, hk]⟩
        | some hash =>
          refine ⟨⟨self.report.upgraded + 1, self.report.fetched, self.report.deduped + 1⟩, toFetch,
            ?_⟩
          simp [lookUp, linkOps, hp, hk]
    obtain ⟨report, toFetch', hstep⟩ := hone
    obtain ⟨report', toFetch'', hrest⟩ := ih
      { self with ops := self.ops ++ linkOps known self.placements h, report := report } toFetch'
    refine ⟨report', toFetch'', ?_⟩
    rw [List.foldl_cons, hstep, hrest]
    simp

/-- The ops that write one fetched item, beside the links claimed once it is written. -/
def itemOps (tier : ReplicaTier) (placements : HandleMap ReplicaPlacement)
    (claimed : LinkMap ReplicaHandle) (item : ReplicaFetchedItem) :
    LinkMap ReplicaHandle × List ReplicaWriteOp :=
  match placements[item.handle]? with
  | none => (claimed, [])
  | some p =>
    if tier = .full ∧ isConflicted p = true then
      match item.body with
      | none => (claimed, [])
      | some body =>
        (claimed, [.storeObject (storedBody body).1 (storedBody body).2,
          .upsertPlacement { p with conflictObject := some (storedBody body).1.hash }])
    else
      let patched := summarised (identify claimed p item).2 item
      match tier, item.body with
      | .full, some body =>
        ((identify claimed p item).1, [.storeObject (storedBody body).1 (storedBody body).2,
          .upsertPlacement (filled patched (storedBody body).1.hash item.revision)])
      | _, _ => ((identify claimed p item).1, [.upsertPlacement { patched with level := .metadata }])

def itemsOps (tier : ReplicaTier) (placements : HandleMap ReplicaPlacement) :
    LinkMap ReplicaHandle → List ReplicaFetchedItem → List ReplicaWriteOp
  | _, [] => []
  | claimed, item :: items =>
    (itemOps tier placements claimed item).2 ++
      itemsOps tier placements (itemOps tier placements claimed item).1 items

theorem writeItem_eq (self : ReplicaUpgrade) (claimed : LinkMap ReplicaHandle)
    (item : ReplicaFetchedItem) :
    ∃ report, writeItem (claimed, self) item =
      ((itemOps self.tier self.placements claimed item).1,
        { self with
          ops := self.ops ++ (itemOps self.tier self.placements claimed item).2
          report := report }) := by
  cases hr : self.placements[item.handle]? with
  | none => exact ⟨self.report, by simp [writeItem, itemOps, hr]⟩
  | some r =>
    by_cases hc : self.tier = .full ∧ isConflicted r = true
    · cases hb : item.body with
      | none =>
        exact ⟨self.report, by
          simp only [writeItem, itemOps, hr, if_pos hc, hb, List.append_nil]⟩
      | some body => exact ⟨_, by simp only [writeItem, itemOps, hr, if_pos hc, hb]; rfl⟩
    · cases ht : self.tier with
      | metadata => exact ⟨_, by simp only [writeItem, itemOps, hr, ht]; rfl⟩
      | full =>
        have hconf : isConflicted r = false := by simpa [ht] using hc
        cases hb : item.body with
        | none =>
          exact ⟨_, by
            simp only [writeItem, itemOps, hr, ht, hconf, hb, Bool.false_eq_true, and_false,
              if_false]
            rfl⟩
        | some body =>
          exact ⟨_, by
            simp only [writeItem, itemOps, hr, ht, hconf, hb, Bool.false_eq_true, and_false,
              if_false]
            rfl⟩

theorem writeItems_eq (self : ReplicaUpgrade) (claimed : LinkMap ReplicaHandle)
    (items : List ReplicaFetchedItem) :
    ∃ claimed' report, items.foldl writeItem (claimed, self) =
      (claimed', { self with
        ops := self.ops ++ itemsOps self.tier self.placements claimed items
        report := report }) := by
  induction items generalizing self claimed with
  | nil => exact ⟨claimed, self.report, by simp [itemsOps]⟩
  | cons item items ih =>
    obtain ⟨report, hstep⟩ := self.writeItem_eq claimed item
    obtain ⟨claimed', report', hrest⟩ := ih
      { self with
        ops := self.ops ++ (itemOps self.tier self.placements claimed item).2
        report := report } (itemOps self.tier self.placements claimed item).1
    refine ⟨claimed', report', ?_⟩
    rw [List.foldl_cons, hstep, hrest]
    simp [itemsOps]

/-- The fetched items as they are written. -/
def inOrder (items : List ReplicaFetchedItem) : List ReplicaFetchedItem :=
  items.insertionSort (fun a b => a.handle ≤ b.handle)

/-- The ops of a fetch answered with `items`, over the placements the run then holds. -/
def fetchedOps (tier : ReplicaTier) (placements : HandleMap ReplicaPlacement)
    (items : List ReplicaFetchedItem) : List ReplicaWriteOp :=
  itemsOps tier placements (claims placements) (inOrder items)

/-- What an upgrade asks for: its collection's rows, bodies, and one write, the last thing it asks. -/
inductive Asks (self self' : ReplicaUpgrade) : ReplicaYield → Prop
  | load (scope : ReplicaLoadScope) : Asks self self' (.wantsLoad self.collection scope)
  | lookup (links : List ReplicaLinkId) : Asks self self' (.wantsLookupObject links)
  | fetch (hs : List ReplicaHandle) (next : self'.state = .pendingFetch) :
      Asks self self' (.wantsFetch self.collection hs self.tier)
  | write (ops : List ReplicaWriteOp) (last : self'.state = .pendingWrite) :
      Asks self self' (.wantsWrite ops)

theorem writeFetched_asks {self self' : ReplicaUpgrade} {y : ReplicaYield}
    (h : self.writeFetched = (self', .yielded y)) :
    self'.collection = self.collection ∧ Asks self self' y := by
  obtain ⟨claimed, report, hfold⟩ := writeItems_eq { self with fetched := [] }
    (claims self.placements) (self.fetched.insertionSort (fun a b => a.handle ≤ b.handle))
  simp only [writeFetched, hfold, yieldWrite, Prod.mk.injEq, Coroutine.Step.yielded.injEq] at h
  obtain ⟨rfl, rfl⟩ := h
  exact ⟨rfl, .write _ rfl⟩

theorem resume_asks {self self' : ReplicaUpgrade} {a : Option ReplicaArg} {y : ReplicaYield}
    (h : self.resume a = (self', .yielded y)) :
    self.state ≠ .pendingWrite ∧ self'.collection = self.collection ∧ Asks self self' y := by
  simp only [resume] at h
  split at h
  case h_1 hstate =>
    cases h
    exact ⟨by simp [hstate], rfl, .load _⟩
  case h_2 hstate =>
    refine ⟨by simp [hstate], ?_⟩
    split at h
    · cases h
    · split at h
      · cases h
        exact ⟨rfl, .fetch _ rfl⟩
      · split at h
        · cases h
          exact ⟨rfl, .fetch _ rfl⟩
        · cases h
          exact ⟨rfl, .lookup _⟩
  case h_3 known hstate =>
    refine ⟨by simp [hstate], ?_⟩
    obtain ⟨report, toFetch, hfold⟩ := lookUp_foldl known self self.pendingHandles []
    simp only [hfold] at h
    split at h
    · cases h
      exact ⟨rfl, .write _ rfl⟩
    · cases h
      exact ⟨rfl, .fetch _ rfl⟩
  case h_4 hstate =>
    refine ⟨by simp [hstate], ?_⟩
    split at h
    · obtain ⟨hcollection, hasks⟩ := writeFetched_asks h
      refine ⟨hcollection, ?_⟩
      cases hasks with
      | load scope => exact .load scope
      | lookup links => exact .lookup links
      | fetch hs next => exact .fetch hs next
      | write ops last => exact .write ops last
    · cases h
      exact ⟨rfl, .load _⟩
  case h_5 hstate =>
    refine ⟨by simp [hstate], ?_⟩
    obtain ⟨hcollection, hasks⟩ := writeFetched_asks h
    refine ⟨hcollection, ?_⟩
    cases hasks with
    | load scope => exact .load scope
    | lookup links => exact .lookup links
    | fetch hs next => exact .fetch hs next
    | write ops last => exact .write ops last
  case h_6 => cases h
  case h_7 => cases h
  case h_8 => cases h

/-- The exchanges left once the fetch is answered: the link check, if any, and the write. -/
inductive Closing (ops : List ReplicaWriteOp) : Transcript → List ReplicaPlacement → Prop
  | write : Closing ops [(.wantsWrite ops, .write)] []
  | check (collection : ReplicaCollectionId) (scope : ReplicaLoadScope) (loaded : ReplicaLoaded) :
      Closing ops [(.wantsLoad collection scope, .load loaded), (.wantsWrite ops, .write)]
        loaded.placements

theorem Closing.writes {ops : List ReplicaWriteOp} {u : Transcript} {l : List ReplicaPlacement}
    (h : Closing ops u l) : u.writes = ops ∧ u.loaded = l ∧ u.fetched = [] := by
  cases h <;> simp [Transcript.writes, Transcript.loaded, Transcript.fetched]

theorem Closing.known {ops : List ReplicaWriteOp} {u : Transcript} {l : List ReplicaPlacement}
    (h : Closing ops u l) : u.findSome? (fun e => e.2.known?) = none := by
  cases h <;> rfl

theorem writeFetched_batch {self : ReplicaUpgrade} {t : Transcript} {report : ReplicaUpgradeReport}
    (h : Coroutine.Ends resume self.writeFetched t (.ok report)) :
    t = [(.wantsWrite (self.ops ++ fetchedOps self.tier self.placements self.fetched), .write)] := by
  obtain ⟨claimed, report', hfold⟩ := writeItems_eq { self with fetched := [] }
    (claims self.placements) (inOrder self.fetched)
  rw [inOrder] at hfold
  rw [writeFetched, hfold] at h
  obtain ⟨b, u, rfl, hruns⟩ := h
  cases b with
  | write =>
    obtain ⟨rfl, -⟩ := hruns.ends
    rfl
  | load | enumerate | push | fetch | lookupObject => exact absurd hruns.ends.2 (by simp)

/-- The exchanges of a run from its fetch on: the second load, if any, is folded in. -/
theorem fetch_batch {self : ReplicaUpgrade} (hstate : self.state = .pendingFetch) {b : ReplicaArg}
    {u : Transcript} {report : ReplicaUpgradeReport}
    (h : Coroutine.Runs resume self (some b) u (.ok report)) :
    ∃ items, b = .fetch items ∧ Closing (self.ops ++
      fetchedOps self.tier (u.loaded.foldl foldIn self.placements) items) u u.loaded := by
  have hends := h.ends
  obtain ⟨items, rfl⟩ : ∃ items, b = .fetch items := by
    cases b with
    | fetch items => exact ⟨items, rfl⟩
    | load | enumerate | push | write | lookupObject => simp [resume, hstate, Coroutine.Ends] at hends
  refine ⟨items, rfl, ?_⟩
  simp only [resume, hstate] at hends
  split at hends
  · rw [writeFetched_batch hends]
    exact .write
  · obtain ⟨b, v, rfl, hcheck⟩ := hends
    have hends := hcheck.ends
    obtain ⟨loaded, rfl⟩ : ∃ loaded, b = .load loaded := by
      cases b with
      | load loaded => exact ⟨loaded, rfl⟩
      | fetch | enumerate | push | write | lookupObject => simp [resume, Coroutine.Ends] at hends
    simp only [resume] at hends
    rw [writeFetched_batch hends]
    have hloaded : ∀ ops, Transcript.loaded [(.wantsLoad self.collection
        (.links (self.freshLinks items)), .load loaded), (.wantsWrite ops, .write)] =
          loaded.placements := by simp [Transcript.loaded]
    rw [hloaded]
    exact .check _ _ _

/-- The handles a run asks bodies or summaries for. -/
def asked (handles : List ReplicaHandle) (tier : ReplicaTier) (loaded : ReplicaLoaded) :
    List ReplicaHandle :=
  handles.filter (fun h => (collectPlacements loaded.placements)[h]?.any (pending tier))

/-- A completed upgrade in full: nothing was pending, or one batch over the rows loaded. -/
structure Whole (handles : List ReplicaHandle) (tier : ReplicaTier) (loaded : ReplicaLoaded)
    (t : Transcript) (more : List ReplicaPlacement) : Prop where
  loads : t.loaded = loaded.placements ++ more
  batches : t.batches = if (asked handles tier loaded).isEmpty then [] else
    [(asked handles tier loaded).flatMap
        (linkOps t.known (collectPlacements loaded.placements)) ++
      fetchedOps tier (more.foldl foldIn (collectPlacements loaded.placements)) t.fetched]
  idle : (asked handles tier loaded).isEmpty = true → t.fetched = []

theorem Closing.batches {ops : List ReplicaWriteOp} {u : Transcript} {l : List ReplicaPlacement}
    (h : Closing ops u l) : u.batches = [ops] := by
  cases h <;> simp [Transcript.batches]

/-- The run that asked for a fetch, the links from the store already made. -/
theorem fetch_whole (self : ReplicaUpgrade) (pre : Transcript) {handles : List ReplicaHandle}
    {tier : ReplicaTier} {loaded : ReplicaLoaded} (hstate : self.state = .pendingFetch)
    (htier : self.tier = tier) (hplaced : self.placements = collectPlacements loaded.placements)
    {collection : ReplicaCollectionId} {scope : ReplicaLoadScope} {hs : List ReplicaHandle}
    {b : ReplicaArg} {t u : Transcript} {report : ReplicaUpgradeReport}
    (ht : t = (.wantsLoad collection scope, .load loaded) ::
      (pre ++ (.wantsFetch collection hs tier, b) :: u))
    (hpre : pre.batches = [] ∧ pre.loaded = [] ∧ pre.fetched = [])
    (hsome : (asked handles tier loaded).isEmpty = false)
    (hops : self.ops = (asked handles tier loaded).flatMap
      (linkOps t.known (collectPlacements loaded.placements)))
    (h : Coroutine.Runs resume self (some b) u (.ok report)) :
    ∃ more, Whole handles tier loaded t more := by
  obtain ⟨items, rfl, hclosing⟩ := fetch_batch hstate h
  have hbatches := hclosing.batches
  obtain ⟨-, -, hfetched⟩ := hclosing.writes
  obtain ⟨hpreBatches, hpreLoaded, hpreFetched⟩ := hpre
  rw [htier, hplaced, hops] at hbatches
  refine ⟨u.loaded, ?_, ?_, ?_⟩
  · simp only [Transcript.loaded] at hpreLoaded ⊢
    simp [ht, hpreLoaded]
  · have hitems : t.fetched = items := by
      simp only [Transcript.fetched] at hpreFetched hfetched ⊢
      simp [ht, hpreFetched, hfetched]
    rw [hsome, hitems]
    have hcut : t.batches = u.batches := by
      simp only [Transcript.batches] at hpreBatches ⊢
      simp [ht, hpreBatches]
    rw [hcut, hbatches]
    rfl
  · intro hempty
    rw [hsome] at hempty
    cases hempty

end ReplicaUpgrade

open ReplicaUpgrade in
theorem Upgrades.whole {collection : ReplicaCollectionId} {handles : List ReplicaHandle}
    {tier : ReplicaTier} {loaded : ReplicaLoaded} {t : Transcript}
    (h : Upgrades collection handles tier loaded t) :
    ∃ more, Whole handles tier loaded t more := by
  obtain ⟨rest, report, ht, hruns⟩ := h
  rw [ht] at hruns
  obtain ⟨b, u, hload, hruns⟩ := hruns.ends
  cases hload
  let self : ReplicaUpgrade :=
    { new collection handles tier with
      placements := collectPlacements loaded.placements
      state := .pendingLoad }
  have hasked : self.pendingHandles = asked handles tier loaded := rfl
  let links := self.pendingHandles.filterMap (fun h => self.placements[h]?.bind lookupLink)
  have hends : Coroutine.Ends resume (if self.pendingHandles.isEmpty then
      ({ self with state := .done }, .complete (.ok self.report))
    else if self.tier = .metadata then self.yieldFetch self.pendingHandles
    else if links.isEmpty then self.yieldFetch self.pendingHandles
    else ({ self with state := .pendingLookup }, .yielded (.wantsLookupObject links)))
      rest (.ok report) := by
    have hends := hruns.ends
    cases tier <;> exact hends
  rw [hasked] at hends
  by_cases hempty : (asked handles tier loaded).isEmpty = true
  · rw [if_pos hempty] at hends
    obtain ⟨rfl, -⟩ := hends
    refine ⟨[], by simp [ht, Transcript.loaded], ?_, ?_⟩
    · rw [if_pos hempty, ht]
      rfl
    · intro _
      rw [ht]
      rfl
  rw [if_neg hempty] at hends
  have hsome := Bool.eq_false_iff.mpr hempty
  have hask : Coroutine.Ends resume (self.yieldFetch (asked handles tier loaded)) rest
      (.ok report) → ∃ more, Whole handles tier loaded t more := by
    rintro ⟨b, u, rfl, hfetch⟩
    obtain ⟨items, rfl, hclosing⟩ := fetch_batch rfl hfetch
    have hf : (ReplicaArg.fetch items).known? = none := rfl
    have hl : (ReplicaArg.load loaded).known? = none := rfl
    have hknown : t.known = ∅ := by
      rw [ht, Transcript.known]
      simp [hl, hf, hclosing.known]
    have hnolink : ∀ h, linkOps ∅ (collectPlacements loaded.placements) h = [] := by
      intro h
      simp [linkOps, knownBody]
    refine fetch_whole { self with state := .pendingFetch } [] rfl rfl rfl ht
      (by simp [Transcript.batches, Transcript.loaded, Transcript.fetched]) hsome ?_ hfetch
    rw [hknown]
    simp [hnolink, self, new]
  split at hends
  · exact hask hends
  · split at hends
    · exact hask hends
    · obtain ⟨b, u, rfl, hlookup⟩ := hends
      have hends := hlookup.ends
      obtain ⟨known, rfl⟩ : ∃ known, b = .lookupObject known := by
        cases b with
        | lookupObject known => exact ⟨known, rfl⟩
        | load | enumerate | push | write | fetch => simp [resume, Coroutine.Ends] at hends
      have htknown : t.known = known := by simp [ht, Transcript.known, ReplicaArg.known?]
      obtain ⟨report', toFetch, hfold⟩ := lookUp_foldl known
        { self with state := .pendingLookup } (asked handles tier loaded) []
      have hends : Coroutine.Ends resume (if toFetch.isEmpty then
          ((asked handles tier loaded).foldl (lookUp known)
            ({ self with state := .pendingLookup }, [])).1.yieldWrite
        else ((asked handles tier loaded).foldl (lookUp known)
            ({ self with state := .pendingLookup }, [])).1.yieldFetch toFetch) u (.ok report) := by
        have hends := hlookup.ends
        simp only [resume] at hends
        rw [show ({ self with state := .pendingLookup } : ReplicaUpgrade).pendingHandles =
          asked handles tier loaded from rfl, hfold] at hends
        rw [hfold]
        exact hends
      rw [hfold] at hends
      split at hends
      · obtain ⟨b, v, rfl, hwrite⟩ := hends
        cases b with
        | write =>
          obtain ⟨rfl, -⟩ := hwrite.ends
          refine ⟨[], by simp [ht, Transcript.loaded], ?_, ?_⟩
          · rw [hsome, htknown]
            simp [ht, Transcript.batches, Transcript.fetched, self, new, fetchedOps, inOrder,
              itemsOps]
          · intro hempty
            rw [hsome] at hempty
            cases hempty
        | load | enumerate | push | fetch | lookupObject => exact absurd hwrite.ends.2 (by simp)
      · obtain ⟨b, v, rfl, hfetch⟩ := hends
        refine fetch_whole _ [(_, .lookupObject known)] ?_ ?_ ?_ ht ?_ hsome ?_ hfetch
        · rfl
        · rfl
        · rfl
        · simp [Transcript.batches, Transcript.loaded, Transcript.fetched]
        · rw [htknown]
          simp [self, new]

end IoReplica

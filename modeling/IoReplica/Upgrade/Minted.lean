import IoReplica.Library.Claims
import IoReplica.Rekey.Links
import IoReplica.Upgrade.Reply
import IoReplica.Upgrade.Tombstone

/-! The link ids an upgrade gives, claimed in handle order over the ids the collection holds. -/
namespace IoReplica

/-- Some row of the collection holds the link id. -/
def CollectionRows.Linked (s : CollectionRows) (l : ReplicaLinkId) : Prop :=
  ∃ p : ReplicaPlacement, s.rows[p.handle]? = some p ∧ p.linkId = some l

/-- Every link check returned the rows holding one of its links, and no others. -/
def ChecksExactly (s : CollectionRows) (t : Transcript) : Prop :=
  ∀ (collection : ReplicaCollectionId) (links : List ReplicaLinkId) (loaded : ReplicaLoaded),
    (.wantsLoad collection (.links links), .load loaded) ∈ t → ∀ p : ReplicaPlacement,
      p ∈ loaded.placements ↔ s.rows[p.handle]? = some p ∧ ∃ l ∈ links, p.linkId = some l

theorem ServesExactly.checks {s : CollectionRows} {t : Transcript} (h : ServesExactly s t) :
    ChecksExactly s t := by
  intro collection links loaded hmem p
  rw [h collection (.links links) loaded hmem p]
  refine and_congr_right (fun _ => ?_)
  simp only [ReplicaLoadScope.names]
  cases p.linkId <;> simp

namespace ReplicaUpgrade

/-- A fetch gives the row a link id: it has none, and a full fetch does not answer for the other side
of its conflict. -/
def fresh (tier : ReplicaTier) (p : ReplicaPlacement) : Bool :=
  p.linkId.isNone && !(decide (tier = .full) && isConflicted p)

/-- The items that name a fresh row, each as its handle and its hint. -/
def entriesOf (tier : ReplicaTier) (m : HandleMap ReplicaPlacement)
    (items : List ReplicaFetchedItem) : List (ReplicaHandle × ReplicaLinkId) :=
  (items.filter (fun item => m[item.handle]?.any (fresh tier))).map
    (fun item => (item.handle, item.linkId))

/-- The link id a fresh row gets, beside those claimed. -/
def takenLink (claimed : LinkMap ReplicaHandle) (item : ReplicaFetchedItem) : ReplicaLinkId :=
  if item.linkId ∈ claimed then mint item.linkId item.handle else item.linkId

/-- The links claimed once the items are written. -/
def claimedAfter (tier : ReplicaTier) (m : HandleMap ReplicaPlacement)
    (claimed : LinkMap ReplicaHandle) (items : List ReplicaFetchedItem) : LinkMap ReplicaHandle :=
  items.foldl (fun claimed item => (itemOps tier m claimed item).1) claimed

theorem fresh_iff {tier : ReplicaTier} {p : ReplicaPlacement} : fresh tier p = true ↔
    p.linkId = none ∧ ¬ (tier = .full ∧ isConflicted p = true) := by
  simp [fresh, imp_iff_not_or]

variable {tier : ReplicaTier} {m : HandleMap ReplicaPlacement}

theorem itemsOps_append (claimed : LinkMap ReplicaHandle) (items items' : List ReplicaFetchedItem) :
    itemsOps tier m claimed (items ++ items') =
      itemsOps tier m claimed items ++ itemsOps tier m (claimedAfter tier m claimed items) items' := by
  induction items generalizing claimed with
  | nil => rfl
  | cons item items ih =>
    rw [List.cons_append, itemsOps, itemsOps, ih, List.append_assoc]
    rfl

theorem claimed_fresh {item : ReplicaFetchedItem} {p : ReplicaPlacement}
    (hp : m[item.handle]? = some p) (hfresh : fresh tier p = true)
    (claimed : LinkMap ReplicaHandle) :
    (itemOps tier m claimed item).1 = claimed.insert (takenLink claimed item) item.handle := by
  obtain ⟨hlink, hplain⟩ := fresh_iff.mp hfresh
  have hid : (identify claimed p item).1 = claimed.insert (takenLink claimed item) item.handle := by
    simp only [identify, hlink, takenLink, Std.ExtTreeMap.contains_iff_mem]
  simp only [itemOps, hp, if_neg hplain]
  split <;> exact hid

theorem claimed_settled {item : ReplicaFetchedItem}
    (hsettled : m[item.handle]?.any (fresh tier) = false) (claimed : LinkMap ReplicaHandle) :
    (itemOps tier m claimed item).1 = claimed := by
  cases hp : m[item.handle]? with
  | none => simp only [itemOps, hp]
  | some p =>
    rw [hp] at hsettled
    simp only [itemOps, hp]
    split
    · split <;> rfl
    · rename_i hplain
      obtain ⟨link, hlink⟩ : ∃ link, p.linkId = some link := by
        cases hl : p.linkId with
        | some link => exact ⟨link, rfl⟩
        | none => exact absurd (fresh_iff.mpr ⟨hl, hplain⟩) (by simpa using hsettled)
      have hid : (identify claimed p item).1 = claimed := by simp only [identify, hlink]
      split <;> exact hid

theorem entriesOf_append (items : List ReplicaFetchedItem) (item : ReplicaFetchedItem) :
    entriesOf tier m (items ++ [item]) = entriesOf tier m items ++
      if m[item.handle]?.any (fresh tier) then [(item.handle, item.linkId)] else [] := by
  simp only [entriesOf, List.filter_append, List.map_append]
  split
  · rename_i hf
    simp [hf]
  · rename_i hf
    simp [hf]

theorem claimedAfter_append (claimed : LinkMap ReplicaHandle) (items : List ReplicaFetchedItem)
    (item : ReplicaFetchedItem) : claimedAfter tier m claimed (items ++ [item]) =
      (itemOps tier m (claimedAfter tier m claimed items) item).1 := by
  rw [claimedAfter, List.foldl_append]
  rfl

/-- The next fresh row gets the next claimant's name. -/
theorem gets_taken {claimed : LinkMap ReplicaHandle} {items : List ReplicaFetchedItem}
    (hclaimed : ∀ l, l ∈ claimedAfter tier m claimed items ↔ l ∈ claimed ∨
      ∃ i, Claims.Gets mint (· ∈ claimed) (entriesOf tier m items) i l)
    (item : ReplicaFetchedItem) (l : ReplicaLinkId) :
    Claims.Gets mint (· ∈ claimed) (entriesOf tier m items ++ [(item.handle, item.linkId)])
      (entriesOf tier m items).length l ↔
        l = takenLink (claimedAfter tier m claimed items) item := by
  have hentry : (entriesOf tier m items ++ [(item.handle, item.linkId)])[(entriesOf tier m
    items).length]? = some (item.handle, item.linkId) := by simp
  have hsecond := (Claims.second_last (item.handle, item.linkId)).trans (hclaimed item.linkId).symm
  rw [takenLink]
  by_cases hmem : item.linkId ∈ claimedAfter tier m claimed items
  · have hgets := Claims.Gets.minted hentry (hsecond.mpr hmem)
    rw [if_pos hmem]
    constructor
    · intro h
      exact Claims.Gets.unique h hgets
    · intro h
      rw [h]
      exact hgets
  · have hgets := Claims.Gets.bare hentry (fun hc => hmem (hsecond.mp hc))
    rw [if_neg hmem]
    constructor
    · intro h
      exact Claims.Gets.unique h hgets
    · intro h
      rw [h]
      exact hgets

/-- The links claimed in the end are those claimed at first and those the fresh rows got. -/
theorem mem_claimedAfter (claimed : LinkMap ReplicaHandle) (items : List ReplicaFetchedItem)
    (l : ReplicaLinkId) : l ∈ claimedAfter tier m claimed items ↔ l ∈ claimed ∨
      ∃ i, Claims.Gets mint (· ∈ claimed) (entriesOf tier m items) i l := by
  induction items using List.reverseRecOn generalizing l with
  | nil =>
    refine ⟨Or.inl, ?_⟩
    rintro (h | ⟨i, h⟩)
    · exact h
    · exact absurd h.lt (Nat.not_lt_zero i)
  | append_singleton items item ih =>
    rw [claimedAfter_append, entriesOf_append]
    by_cases hfresh : m[item.handle]?.any (fresh tier) = true
    · obtain ⟨p, hp, hp'⟩ := (Option.any_eq_true _ _).mp hfresh
      rw [claimed_fresh hp hp', if_pos hfresh, Std.ExtTreeMap.mem_insert, ih, Claims.gets_push,
        gets_taken ih]
      rw [Std.compare_eq_iff_eq]
      grind
    · rw [claimed_settled (by simpa using hfresh), if_neg hfresh, List.append_nil]
      exact ih l

theorem answer_linkId (claimed : LinkMap ReplicaHandle) (p : ReplicaPlacement)
    (item : ReplicaFetchedItem) :
    (answer tier claimed p item).linkId = (identify claimed p item).2.linkId := by
  simp only [answer]
  split <;> rfl

/-- An item written over a row that is not fresh leaves it its link. -/
theorem WrittenFrom.linkId_settled {p q : ReplicaPlacement} {item : ReplicaFetchedItem}
    (h : WrittenFrom tier p item q) (hsettled : fresh tier p = false) : q.linkId = p.linkId := by
  cases hl : p.linkId with
  | some link =>
    rw [← hl]
    exact h.linkId (by rw [hl]; rfl)
  | none =>
    cases h with
    | conflicted => exact hl
    | answered plain claimed =>
      rw [fresh_iff.mpr ⟨hl, plain⟩] at hsettled
      cases hsettled

theorem mem_entriesOf {items : List ReplicaFetchedItem} {e : ReplicaHandle × ReplicaLinkId}
    (he : e ∈ entriesOf tier m items) : m[e.1]?.any (fresh tier) = true ∧
      ∃ item ∈ items, item.handle = e.1 ∧ item.linkId = e.2 := by
  obtain ⟨item, hitem, rfl⟩ := List.mem_map.mp he
  obtain ⟨hi, hfresh⟩ := List.mem_filter.mp hitem
  exact ⟨hfresh, item, hi, rfl, rfl⟩

theorem itemOps_silent {item : ReplicaFetchedItem} {p : ReplicaPlacement}
    (hp : m[item.handle]? = some p) (hsilent : ¬ Answers tier p item)
    (claimed : LinkMap ReplicaHandle) : (itemOps tier m claimed item).2 = [] := by
  obtain ⟨hfull, hconf, hbody⟩ := not_not.mp hsilent
  simp only [itemOps, hp, if_pos (And.intro hfull hconf), hbody]

/-- The claimant is the last of its handle: the one whose name the row ends with. -/
def LastOf (entries : List (ReplicaHandle × ReplicaLinkId)) (i : ℕ) : Prop :=
  ∀ e, entries[i]? = some e → ∀ j > i, ∀ e', entries[j]? = some e' → e'.1 ≠ e.1

/-- The link a row ends with: its own, or for a fresh row the name its last claimant gets. -/
inductive LinkAfter (held : ReplicaLinkId → Prop)
    (entries : List (ReplicaHandle × ReplicaLinkId)) (p : ReplicaPlacement) :
    Option ReplicaLinkId → Prop
  | kept (unnamed : ∀ e ∈ entries, e.1 ≠ p.handle) : LinkAfter held entries p p.linkId
  | given {i : ℕ} {e : ReplicaHandle × ReplicaLinkId} {l : ReplicaLinkId}
      (entry : entries[i]? = some e) (own : e.1 = p.handle) (last : LastOf entries i)
      (gets : Claims.Gets mint held entries i l) (unlinked : p.linkId = none) :
      LinkAfter held entries p (some l)

/-- A claimant of another handle leaves the row its link. -/
theorem LinkAfter.push {held : ReplicaLinkId → Prop}
    {entries : List (ReplicaHandle × ReplicaLinkId)} {p : ReplicaPlacement}
    {link : Option ReplicaLinkId} (h : LinkAfter held entries p link)
    {e : ReplicaHandle × ReplicaLinkId} (hother : e.1 ≠ p.handle) :
    LinkAfter held (entries ++ [e]) p link := by
  cases h with
  | kept unnamed =>
    refine .kept ?_
    intro e' he'
    rcases List.mem_append.mp he' with he' | he'
    · exact unnamed e' he'
    · rw [List.mem_singleton.mp he']
      exact hother
  | @given i e₀ l entry own last gets unlinked =>
    have hlt := gets.lt
    have hentry : (entries ++ [e])[i]? = some e₀ := by
      rw [List.getElem?_append_left hlt]
      exact entry
    refine .given hentry own ?_ ((Claims.gets_append [e] hlt).mpr gets) unlinked
    intro e₁ he₁ j hj e₂ he₂
    rw [hentry] at he₁
    cases he₁
    rcases List.mem_append.mp (List.mem_of_getElem? he₂) with hmem | hmem
    · by_cases hjlt : j < entries.length
      · rw [List.getElem?_append_left hjlt] at he₂
        exact last e₀ entry j hj e₂ he₂
      · have hlen := (List.getElem?_eq_some_iff.mp he₂).1
        rw [List.length_append, List.length_singleton] at hlen
        have hje : j = entries.length := by omega
        rw [hje, List.getElem?_concat_length] at he₂
        cases he₂
        rw [own]
        exact hother
    · rw [List.mem_singleton.mp hmem, own]
      exact hother

variable {s : CollectionRows}

/-- The items leave every row held at the link its last claimant gets, or at its own. -/
theorem rowAfter_itemsOps_link (hm : Held s m) {p : ReplicaPlacement}
    (hp : s.rows[p.handle]? = some p) (claimed : LinkMap ReplicaHandle)
    (items : List ReplicaFetchedItem) {q : ReplicaPlacement} (hq : q.linkId = p.linkId) :
    ∃ r, rowAfter p.handle (some q) (itemsOps tier m claimed items) = some r ∧
      LinkAfter (· ∈ claimed) (entriesOf tier m items) p r.linkId := by
  induction items using List.reverseRecOn with
  | nil =>
    refine ⟨q, rfl, ?_⟩
    rw [hq]
    exact .kept (fun e he => by cases he)
  | append_singleton items item ih =>
    obtain ⟨r, hr, hlink⟩ := ih
    rw [itemsOps_append, rowAfter_append, hr, entriesOf_append]
    generalize hc : claimedAfter tier m claimed items = taken
    have hone : itemsOps tier m taken [item] = (itemOps tier m taken item).2 := by
      simp [itemsOps]
    rw [hone]
    by_cases hnamed : item.handle = p.handle ∧ m[p.handle]? = some p
    · obtain ⟨hh, hmp⟩ := hnamed
      have hmi : m[item.handle]? = some p := by rw [hh, hmp]
      by_cases hfresh : fresh tier p = true
      · obtain ⟨hnone, hplain⟩ := fresh_iff.mp hfresh
        rw [rowAfter_itemOps_named hmp hplain taken hh, hmi, Option.any_some, if_pos hfresh]
        refine ⟨_, rfl, ?_⟩
        have hid : (answer tier taken p item).linkId = some (takenLink taken item) := by
          rw [answer_linkId]
          simp only [identify, hnone, takenLink, Std.ExtTreeMap.contains_iff_mem]
        have hgets := (gets_taken (fun l => mem_claimedAfter claimed items l) item
          (takenLink taken item)).mpr (by rw [hc])
        rw [hid]
        refine .given (i := (entriesOf tier m items).length) (e := (item.handle, item.linkId)) ?_ hh
          ?_ hgets hnone
        · simp
        · intro e _ j hj e' he'
          have hlen := (List.getElem?_eq_some_iff.mp he').1
          rw [List.length_append, List.length_singleton] at hlen
          omega
      · have hsettled : fresh tier p = false := by simpa using hfresh
        rw [hmi, Option.any_some, if_neg hfresh, List.append_nil]
        have hunnamed : ∀ e ∈ entriesOf tier m items, e.1 ≠ p.handle := by
          intro e he hown
          have hf := (mem_entriesOf he).1
          rw [hown, hmp, Option.any_some] at hf
          exact hfresh hf
        have hkept : r.linkId = p.linkId := by
          generalize hrl : r.linkId = link at hlink
          cases hlink with
          | kept => rfl
          | given entry own => exact absurd own (hunnamed _ (List.mem_of_getElem? entry))
        obtain ⟨r', hr', hlink'⟩ : ∃ r', rowAfter p.handle (some r) (itemOps tier m taken item).2 =
            some r' ∧ r'.linkId = p.linkId := by
          by_cases hanswers : Answers tier p item
          · obtain ⟨q', -, hwritten, hrow, -⟩ := itemOps_answered taken hh.symm hmi hanswers
            exact ⟨q', hh ▸ hrow (some r), hwritten.linkId_settled hsettled⟩
          · rw [itemOps_silent hmi hanswers]
            exact ⟨r, rfl, hkept⟩
        refine ⟨r', hr', ?_⟩
        rw [hlink']
        exact .kept hunnamed
    · have hother : item.handle ≠ p.handle ∨ m[p.handle]? = none := by
        rcases hm.get hp with hget | hget
        · exact Or.inl (fun hh => hnamed ⟨hh, hget⟩)
        · exact Or.inr hget
      rw [rowAfter_itemOps_other hm tier taken hother]
      refine ⟨r, rfl, ?_⟩
      split
      · rename_i hfresh
        refine hlink.push ?_
        rcases hother with hne | hnone
        · exact hne
        · intro hh
          rw [show item.handle = p.handle from hh, hnone] at hfresh
          cases hfresh
      · rw [List.append_nil]
        exact hlink

/-- The exchanges of a run from its fetch on: the links it would establish are checked, if any. -/
theorem fetch_checks {self : ReplicaUpgrade} (hstate : self.state = .pendingFetch) {b : ReplicaArg}
    {u : Transcript} {report : ReplicaUpgradeReport}
    (h : Coroutine.Runs resume self (some b) u (.ok report)) :
    ∃ items, b = .fetch items ∧ u.fetched = [] ∧
      ((self.freshLinks items = [] ∧ u.loaded = []) ∨ ∃ loaded,
        (.wantsLoad self.collection (.links (self.freshLinks items)), .load loaded) ∈ u ∧
          u.loaded = loaded.placements) := by
  have hends := h.ends
  obtain ⟨items, rfl⟩ : ∃ items, b = .fetch items := by
    cases b with
    | fetch items => exact ⟨items, rfl⟩
    | load | enumerate | push | write | lookupObject =>
      simp [resume, hstate, Coroutine.Ends] at hends
  refine ⟨items, rfl, ?_⟩
  rw [resume_fetch hstate] at hends
  split at hends
  · rename_i hempty
    rw [writeFetched_batch hends]
    exact ⟨rfl, Or.inl ⟨List.isEmpty_iff.mp hempty, rfl⟩⟩
  · obtain ⟨b, v, rfl, hcheck⟩ := hends
    have hends := hcheck.ends
    obtain ⟨loaded, rfl⟩ : ∃ loaded, b = .load loaded := by
      cases b with
      | load loaded => exact ⟨loaded, rfl⟩
      | fetch | enumerate | push | write | lookupObject => simp [resume, Coroutine.Ends] at hends
    rw [resume_check rfl] at hends
    rw [writeFetched_batch hends]
    exact ⟨rfl, Or.inr ⟨loaded, List.mem_cons_self, by simp [Transcript.loaded]⟩⟩

/-- The links a fetched item would establish beside the rows `m`, and the rows a run loads more, go
through a link check. -/
structure Checked (collection : ReplicaCollectionId) (m : HandleMap ReplicaPlacement)
    (t : Transcript) : Prop where
  rows : ∀ p ∈ t.loaded, ∃ links loaded,
    (.wantsLoad collection (.links links), .load loaded) ∈ t ∧ p ∈ loaded.placements
  links : ∀ item ∈ t.fetched, ∀ p, m[item.handle]? = some p → p.linkId = none →
    ∃ links loaded, (.wantsLoad collection (.links links), .load loaded) ∈ t ∧
      item.linkId ∈ links

/-- The rows loaded first are held: an upgrade about to look bodies up, or handed its first load. -/
def Holding (self : ReplicaUpgrade) (a : Option ReplicaArg) (m : HandleMap ReplicaPlacement) :
    Prop :=
  (self.state = .pendingLookup ∧ self.placements = m) ∨
    self.state = .pendingLoad ∧ ∃ loaded, a = some (.load loaded) ∧
      collectPlacements loaded.placements = m

/-- The handles asked for whose rows the tier would raise. -/
def wanted (self : ReplicaUpgrade) (m : HandleMap ReplicaPlacement) : List ReplicaHandle :=
  self.handles.filter (fun h => m[h]?.any (pending self.tier))

/-- A fetch asks for wanted rows, among them every one without a link. -/
def AsksFor (self : ReplicaUpgrade) (m : HandleMap ReplicaPlacement) (hs : List ReplicaHandle) :
    Prop :=
  hs.Sublist (self.wanted m) ∧
    ∀ h ∈ self.wanted m, m[h]?.any (·.linkId.isNone) = true → h ∈ hs

/-- What a lookup leaves to the fetch: the rows it knows no body for. -/
theorem lookUp_toFetch (known : LinkMap ReplicaHash) (self : ReplicaUpgrade)
    (hs toFetch : List ReplicaHandle) : (hs.foldl (lookUp known) (self, toFetch)).2 =
      toFetch ++ hs.filter (fun h => self.placements[h]?.any
        (fun p => (knownBody known p).isNone)) := by
  induction hs generalizing self toFetch with
  | nil => simp
  | cons h hs ih =>
    rw [List.foldl_cons]
    have hone : (lookUp known (self, toFetch) h).1.placements = self.placements ∧
        (lookUp known (self, toFetch) h).2 = toFetch ++ [h].filter (fun h =>
          self.placements[h]?.any (fun p => (knownBody known p).isNone)) := by
      cases hp : self.placements[h]? with
      | none => simp [lookUp, hp]
      | some p => cases hk : knownBody known p <;> simp [lookUp, hp, hk]
    obtain ⟨hplaced, hfetch⟩ := hone
    have hrest := ih (lookUp known (self, toFetch) h).1 (lookUp known (self, toFetch) h).2
    rw [hplaced] at hrest
    refine hrest.trans ?_
    rw [hfetch, List.append_assoc, ← List.filter_append]
    rfl

/-- A lookup of the wanted rows leaves a fetch to ask for every one without a link. -/
theorem lookUp_asksFor {known : LinkMap ReplicaHash} {self : ReplicaUpgrade}
    {m : HandleMap ReplicaPlacement} (hplaced : self.placements = m) :
    AsksFor self m (self.pendingHandles.foldl (lookUp known) (self, [])).2 := by
  have hpending : self.pendingHandles = self.wanted m := by rw [← hplaced]; rfl
  rw [lookUp_toFetch, List.nil_append, hpending, hplaced]
  refine ⟨List.filter_sublist, fun h hh hunlinked => List.mem_filter.mpr ⟨hh, ?_⟩⟩
  obtain ⟨p, hp, hlink⟩ := (Option.any_eq_true _ _).mp hunlinked
  rw [hp, Option.any_some]
  simp only [Option.isNone_iff_eq_none] at hlink ⊢
  simp [knownBody, lookupLink, hlink]

/-- An upgrade that holds its first load goes on to a lookup, to its fetch or to its write. -/
theorem Holding.next {self self' : ReplicaUpgrade} {a : Option ReplicaArg} {y : ReplicaYield}
    {m : HandleMap ReplicaPlacement} (h : Holding self a m)
    (hyields : self.resume a = (self', .yielded y)) :
    (∃ links, y = .wantsLookupObject links ∧ self'.state = .pendingLookup ∧ self'.placements = m ∧
      self'.handles = self.handles ∧ self'.tier = self.tier) ∨
    (∃ hs, y = .wantsFetch self.collection hs self.tier ∧ self'.state = .pendingFetch ∧
      self'.placements = m ∧ AsksFor self m hs) ∨
    ∃ ops, y = .wantsWrite ops ∧ self'.state = .pendingWrite ∧ AsksFor self m [] := by
  simp only [resume] at hyields
  split at hyields
  case h_2 loaded hstate =>
    obtain ⟨-, loaded', heq, hplaced⟩ := h.resolve_left (by simp [hstate])
    cases heq
    have hasks : AsksFor self m (self.wanted m) := ⟨.refl _, fun h hh _ => hh⟩
    rw [wanted, ← hplaced] at hasks
    split at hyields
    · cases hyields
    · split at hyields
      · cases hyields
        exact Or.inr (Or.inl ⟨_, rfl, rfl, hplaced, hplaced ▸ hasks⟩)
      · split at hyields
        · cases hyields
          exact Or.inr (Or.inl ⟨_, rfl, rfl, hplaced, hplaced ▸ hasks⟩)
        · cases hyields
          exact Or.inl ⟨_, rfl, rfl, hplaced, rfl, rfl⟩
  case h_3 known hstate =>
    obtain ⟨-, hplaced⟩ := h.resolve_right (by simp [hstate])
    have hasks := @lookUp_asksFor known _ _ hplaced
    obtain ⟨report, toFetch, hfold⟩ := lookUp_foldl known self self.pendingHandles []
    rw [hfold] at hasks
    simp only [hfold] at hyields
    split at hyields
    · rename_i hempty
      cases hyields
      exact Or.inr (Or.inr ⟨_, rfl, rfl, List.isEmpty_iff.mp hempty ▸ hasks⟩)
    · cases hyields
      exact Or.inr (Or.inl ⟨_, rfl, rfl, hplaced, hasks⟩)
  case h_1 hstate | h_4 hstate | h_5 hstate => simp [Holding, hstate] at h
  all_goals cases hyields

/-- From its first load on, a run checks what it would establish. -/
theorem runs_checked {self : ReplicaUpgrade} {a : Option ReplicaArg} {t : Transcript}
    {report : ReplicaUpgradeReport} {m : HandleMap ReplicaPlacement}
    (h : Coroutine.Runs resume self a t (.ok report)) (hholds : Holding self a m) :
    Checked self.collection m t := by
  generalize hr : (Except.ok report : Except ReplicaArgError ReplicaUpgradeReport) = r at h
  induction h with
  | done => exact ⟨fun p hp => (by cases hp), fun item hi => (by cases hi)⟩
  | @ask c c' a y b t r yields hrest ih =>
    subst hr
    have hcollection := (resume_asks yields).2.1
    rcases hholds.next yields with ⟨links, rfl, hnext, hplaced, -⟩ |
      ⟨handles, rfl, hnext, hplaced, -⟩ | ⟨ops, rfl, hnext, -⟩
    · have hends := hrest.ends
      obtain ⟨known, rfl⟩ : ∃ known, b = .lookupObject known := by
        cases b with
        | lookupObject known => exact ⟨known, rfl⟩
        | load | enumerate | push | write | fetch =>
          simp [resume, hnext, Coroutine.Ends] at hends
      have hchecked := ih (Or.inl ⟨hnext, hplaced⟩) rfl
      rw [hcollection] at hchecked
      refine ⟨?_, ?_⟩
      · intro p hp
        obtain ⟨links, loaded, hmem, hin⟩ := hchecked.rows p hp
        exact ⟨links, loaded, List.mem_cons_of_mem _ hmem, hin⟩
      · intro item hi p hp hunlinked
        obtain ⟨links, loaded, hmem, hin⟩ := hchecked.links item hi p hp hunlinked
        exact ⟨links, loaded, List.mem_cons_of_mem _ hmem, hin⟩
    · obtain ⟨items, rfl, hnone, hcheck⟩ := fetch_checks hnext hrest
      have hfetched : Transcript.fetched ((.wantsFetch c.collection handles c.tier, .fetch items) ::
          t) = items := by
        rw [Transcript.fetched, List.flatMap_cons, ← Transcript.fetched, hnone, List.append_nil]
      have hloaded : Transcript.loaded ((.wantsFetch c.collection handles c.tier, .fetch items) ::
          t) = Transcript.loaded t := rfl
      rw [hcollection] at hcheck
      refine ⟨?_, ?_⟩
      · intro p hp
        rw [hloaded] at hp
        rcases hcheck with ⟨-, hnil⟩ | ⟨loaded, hmem, heq⟩
        · rw [hnil] at hp
          cases hp
        · rw [heq] at hp
          exact ⟨_, loaded, List.mem_cons_of_mem _ hmem, hp⟩
      · intro item hi p hp hunlinked
        rw [hfetched] at hi
        have hfresh : item.linkId ∈ c'.freshLinks items := by
          refine List.mem_map.mpr ⟨item, List.mem_filter.mpr ⟨hi, ?_⟩, rfl⟩
          rw [hplaced, hp, Option.any_some, hunlinked]
          rfl
        rcases hcheck with ⟨hnil, -⟩ | ⟨loaded, hmem, -⟩
        · rw [hnil] at hfresh
          cases hfresh
        · exact ⟨_, loaded, List.mem_cons_of_mem _ hmem, hfresh⟩
    · have hends := hrest.ends
      have hnil : t = [] := by
        cases hrest with
        | done => rfl
        | ask yields' _ => exact absurd hnext (resume_asks yields').1
      subst hnil
      cases b with
      | write => exact ⟨fun p hp => (by cases hp), fun item hi => (by cases hi)⟩
      | load | enumerate | push | fetch | lookupObject =>
        simp [resume, hnext, Coroutine.Ends] at hends

/-- The items that name a loaded row with no link to keep, in handle order: each as its handle and
its hint. -/
def claimants (tier : ReplicaTier) (t : Transcript) : List (ReplicaHandle × ReplicaLinkId) :=
  ((inOrder t.fetched).filter (fun item =>
    t.loaded.any (fun p => decide (p.handle = item.handle) && fresh tier p))).map
      (fun item => (item.handle, item.linkId))

theorem claimants_eq {t : Transcript} (hm : Held s m)
    (hget : ∀ p : ReplicaPlacement, s.rows[p.handle]? = some p →
      (m[p.handle]? = some p ↔ p ∈ t.loaded)) (hs : Serves s t) :
    entriesOf tier m (inOrder t.fetched) = claimants tier t := by
  refine congrArg (List.map _) (List.filter_congr ?_)
  intro item _
  rw [Bool.eq_iff_iff, Option.any_eq_true, List.any_eq_true]
  constructor
  · rintro ⟨p, hp, hfresh⟩
    have hstored := hm _ _ hp
    have hh := s.keyed _ _ hstored
    rw [← hh] at hp hstored
    refine ⟨p, (hget p hstored).mp hp, ?_⟩
    simp [hh, hfresh]
  · rintro ⟨p, hp, hboth⟩
    simp only [Bool.and_eq_true, decide_eq_true_eq] at hboth
    refine ⟨p, ?_, hboth.2⟩
    rw [← hboth.1]
    exact (hget p (hs p hp)).mpr hp

end ReplicaUpgrade

open ReplicaUpgrade

/-- A run checks every link it would establish, and loads nothing else after its first load. -/
theorem Upgrades.checked {collection : ReplicaCollectionId} {handles : List ReplicaHandle}
    {tier : ReplicaTier} {loaded : ReplicaLoaded} {t : Transcript}
    (h : Upgrades collection handles tier loaded t) : ∃ rest,
      t = (.wantsLoad collection (.handles handles), .load loaded) :: rest ∧
        Checked collection (collectPlacements loaded.placements) rest := by
  obtain ⟨rest, report, ht, hruns⟩ := h
  rw [ht] at hruns
  obtain ⟨b, u, hload, hruns⟩ := hruns.ends
  cases hload
  exact ⟨rest, ht, runs_checked hruns (Or.inr ⟨rfl, loaded, rfl, rfl⟩)⟩

/-- A hint is claimed from the start exactly when some row of the collection holds it. -/
theorem Upgrades.hint_held {collection : ReplicaCollectionId} {handles : List ReplicaHandle}
    {tier : ReplicaTier} {loaded : ReplicaLoaded} {t : Transcript} {s : CollectionRows}
    (h : Upgrades collection handles tier loaded t) (hs : Serves s t) (hc : ChecksExactly s t)
    {m : HandleMap ReplicaPlacement} (hm : Held s m)
    (hget : ∀ p : ReplicaPlacement, s.rows[p.handle]? = some p →
      (m[p.handle]? = some p ↔ p ∈ t.loaded)) {e : ReplicaHandle × ReplicaLinkId}
    (he : e ∈ claimants tier t) : e.2 ∈ claims m ↔ s.Linked e.2 := by
  constructor
  · intro hmem
    obtain ⟨g, p, hp, hl⟩ := mem_claims.mp hmem
    have hstored := hm g p hp
    rw [← s.keyed g p hstored] at hstored
    exact ⟨p, hstored, hl⟩
  · rintro ⟨p, hp, hl⟩
    rw [← claimants_eq hm hget hs] at he
    obtain ⟨hfresh, item, hi, hh, hhint⟩ := mem_entriesOf he
    obtain ⟨q, hq, hfresh⟩ := (Option.any_eq_true _ _).mp hfresh
    obtain ⟨hunlinked, -⟩ := fresh_iff.mp hfresh
    have hqs := hm _ _ hq
    have hqh := s.keyed _ _ hqs
    obtain ⟨rest, ht, hchecked⟩ := h.checked
    rw [inOrder, List.mem_insertionSort] at hi
    rw [← hqh] at hq hqs
    have hmemt : ∀ x ∈ rest, x ∈ t := fun x hx => ht ▸ List.mem_cons_of_mem _ hx
    have hfirst : q ∈ loaded.placements := by
      have hloaded := (hget q hqs).mp hq
      rw [ht] at hloaded
      rcases List.mem_append.mp hloaded with hin | hin
      · exact hin
      · -- a link check returns linked rows alone
        obtain ⟨links, l, hmem, hin⟩ := hchecked.rows q hin
        obtain ⟨-, link, -, hlink⟩ := (hc _ links l (hmemt _ hmem) q).mp hin
        rw [hunlinked] at hlink
        cases hlink
    have hcollected := ((held_collect (h.first_served hs)).2 q hqs).mpr hfirst
    rw [hqh, ← hh] at hcollected
    have hi' : item ∈ Transcript.fetched rest := by
      rw [ht] at hi
      exact hi
    obtain ⟨links, l, hmem, hin⟩ := hchecked.links item hi' q hcollected hunlinked
    have hpl := (hc _ links l (hmemt _ hmem) p).mpr ⟨hp, item.linkId, hin, hhint ▸ hl⟩
    have hpt : p ∈ t.loaded := List.mem_flatMap.mpr ⟨_, hmemt _ hmem, hpl⟩
    exact mem_claims.mpr ⟨_, p, (hget p hp).mpr hpt, hl⟩

/-- Every row ends with its own link, or with the name its last claimant gets. -/
theorem Upgrades.link_after {collection : ReplicaCollectionId} {handles : List ReplicaHandle}
    {tier : ReplicaTier} {loaded : ReplicaLoaded} {t : Transcript} {s : CollectionRows}
    (h : Upgrades collection handles tier loaded t) (hs : Serves s t) (hc : ChecksExactly s t)
    {p : ReplicaPlacement} (hp : s.rows[p.handle]? = some p) :
    ∃ r, (s.apply t.writes).rows[p.handle]? = some r ∧
      LinkAfter s.Linked (claimants tier t) p r.linkId := by
  obtain ⟨m, hm, hget, hwrites⟩ := h.writes_held hs
  have hcollect := held_collect (h.first_served hs)
  rw [CollectionRows.get_apply, hwrites, rowAfter_append, hp, rowAfter_linkOps hcollect.1 hp]
  have hlink : ∀ q, q = (if (collectPlacements loaded.placements)[p.handle]? = some p ∧
      p.handle ∈ asked handles tier loaded then (knownBody t.known p).elim p (linked p) else p) →
      q.linkId = p.linkId := by
    rintro q rfl
    split
    · cases knownBody t.known p <;> rfl
    · rfl
  obtain ⟨r, hr, hafter⟩ := rowAfter_itemsOps_link hm hp (claims m)
    (inOrder t.fetched) (hlink _ rfl)
  refine ⟨r, hr, ?_⟩
  rw [claimants_eq hm hget hs] at hafter
  generalize r.linkId = link at hafter
  cases hafter with
  | kept unnamed => exact .kept unnamed
  | given entry own last gets unlinked =>
    exact .given entry own last (gets.congr (fun e he => h.hint_held hs hc hm hget he)) unlinked

/-- The keys an upgrade mints for the rows it links stay clear of every other link id: no row of the
collection held one, no earlier item keeps one as its hint, and no two are the same. -/
def MintsClear (s : CollectionRows) (tier : ReplicaTier) (t : Transcript) : Prop :=
  Claims.Clear mint s.Linked (claimants tier t) (LastOf (claimants tier t))

theorem ReplicaUpgrade.LinkAfter.eq_given {held : ReplicaLinkId → Prop}
    {entries : List (ReplicaHandle × ReplicaLinkId)} {p : ReplicaPlacement}
    {link : Option ReplicaLinkId} (h : LinkAfter held entries p link) {i : ℕ}
    {e : ReplicaHandle × ReplicaLinkId} {l : ReplicaLinkId} (hi : entries[i]? = some e)
    (hown : e.1 = p.handle) (hlast : LastOf entries i) (hgets : Claims.Gets mint held entries i l) :
    link = some l := by
  cases h with
  | kept unnamed => exact absurd hown (unnamed e (List.mem_of_getElem? hi))
  | @given j e' l' entry own last gets =>
    rcases Nat.lt_trichotomy i j with hlt | rfl | hlt
    · exact absurd (own.trans hown.symm) (hlast e hi j hlt e' entry)
    · rw [gets.unique hgets]
    · exact absurd (hown.trans own.symm) (last e' entry i hlt e hi)

theorem ReplicaUpgrade.LinkAfter.source {held : ReplicaLinkId → Prop}
    {entries : List (ReplicaHandle × ReplicaLinkId)} {p : ReplicaPlacement} {l : ReplicaLinkId}
    (h : LinkAfter held entries p (some l)) : p.linkId = some l ∨ ∃ i e, entries[i]? = some e ∧
      e.1 = p.handle ∧ LastOf entries i ∧ Claims.Gets mint held entries i l := by
  generalize hlink : some l = link at h
  cases h with
  | kept => exact Or.inl rfl
  | given entry own last gets =>
    cases hlink
    exact Or.inr ⟨_, _, entry, own, last, gets⟩

/-- After an upgrade the linked rows have distinct link ids exactly when the keys it mints stay
clear. -/
theorem upgrade_links_unique_iff {collection : ReplicaCollectionId} {handles : List ReplicaHandle}
    {tier : ReplicaTier} {loaded : ReplicaLoaded} {t : Transcript} {s : CollectionRows}
    (h : Upgrades collection handles tier loaded t) (hs : Serves s t) (hc : ChecksExactly s t)
    (hu : s.LinkUnique) : (s.apply t.writes).LinkUnique ↔ MintsClear s tier t := by
  rw [MintsClear, ← Claims.distinct_iff]
  have hclaimant : ∀ {i : ℕ} {l : ReplicaLinkId}, LastOf (claimants tier t) i →
      Claims.Gets mint s.Linked (claimants tier t) i l → ∃ e p r, (claimants tier t)[i]? = some e ∧
        s.rows[e.1]? = some p ∧ p.linkId = none ∧ (s.apply t.writes).rows[e.1]? = some r ∧
          r.linkId = some l := by
    intro i l hlast hgets
    obtain ⟨e, he⟩ : ∃ e, (claimants tier t)[i]? = some e := by
      cases hgets with
      | bare entry | minted entry => exact ⟨_, entry⟩
    obtain ⟨item, hitem, rfl⟩ := List.mem_map.mp (List.mem_of_getElem? he)
    obtain ⟨p, hp, hboth⟩ := List.any_eq_true.mp (List.mem_filter.mp hitem).2
    simp only [Bool.and_eq_true, decide_eq_true_eq] at hboth
    obtain ⟨hh, hfresh⟩ := hboth
    obtain ⟨r, hr, hafter⟩ := h.link_after hs hc (hs p hp)
    have hl := hafter.eq_given he hh.symm hlast hgets
    have hstored := hs p hp
    rw [hh] at hstored hr
    exact ⟨_, p, r, he, hstored, (fresh_iff.mp hfresh).1, hr, hl⟩
  constructor
  · intro hunique
    refine ⟨?_, ?_⟩
    · rintro i l hlast hgets ⟨p', hp', hl'⟩
      obtain ⟨e, p, r, -, hp, hnone, hr, hl⟩ := hclaimant hlast hgets
      obtain ⟨r', hr', hafter⟩ := h.link_after hs hc hp'
      have hkept : r'.linkId = some l := by
        generalize r'.linkId = link at hafter
        cases hafter with
        | kept => exact hl'
        | given _ _ _ _ unlinked =>
          rw [hl'] at unlinked
          cases unlinked
      have hsame := hunique _ _ r r' l hr hr' hl hkept
      rw [hsame, hp', Option.some.injEq] at hp
      rw [hp, hnone] at hl'
      cases hl'
    · intro i j l hji hi hj hgets hgets'
      obtain ⟨e, p, r, he, -, -, hr, hl⟩ := hclaimant hi hgets
      obtain ⟨e', p', r', he', -, -, hr', hl'⟩ := hclaimant hj hgets'
      exact hj e' he' i hji e he (hunique _ _ r r' l hr hr' hl hl')
  · rintro ⟨hnew, hdistinct⟩ g g' r r' l hr hr' hl hl'
    have hstored : ∀ {g : ReplicaHandle} {r : ReplicaPlacement},
        (s.apply t.writes).rows[g]? = some r → ∃ p, s.rows[p.handle]? = some p ∧ p.handle = g ∧
          LinkAfter s.Linked (claimants tier t) p r.linkId := by
      intro g r hr
      cases hp : s.rows[g]? with
      | none =>
        rw [h.absent hs hp] at hr
        cases hr
      | some p =>
        have hh := s.keyed g p hp
        rw [← hh] at hp hr
        obtain ⟨r₀, hr₀, hafter⟩ := h.link_after hs hc hp
        rw [hr₀] at hr
        cases hr
        exact ⟨p, hp, hh, hafter⟩
    obtain ⟨p, hp, rfl, hafter⟩ := hstored hr
    obtain ⟨p', hp', rfl, hafter'⟩ := hstored hr'
    rw [hl] at hafter
    rw [hl'] at hafter'
    rcases hafter.source with hold | ⟨i, e, he, hown, hlast, hgets⟩
    · rcases hafter'.source with hold' | ⟨i, e, he, hown, hlast, hgets⟩
      · exact hu _ _ p p' l hp hp' hold hold'
      · exact absurd ⟨p, hp, hold⟩ (hnew i l hlast hgets)
    · rcases hafter'.source with hold' | ⟨j, e', he', hown', hlast', hgets'⟩
      · exact absurd ⟨p', hp', hold'⟩ (hnew i l hlast hgets)
      · rcases Nat.lt_trichotomy i j with hlt | rfl | hlt
        · exact absurd hgets (hdistinct j i l hlt hlast' hlast hgets')
        · rw [he] at he'
          cases he'
          exact hown.symm.trans hown'
        · exact absurd hgets' (hdistinct i j l hlt hlast hlast' hgets)

section Runs

/-- A message only probed, one holding its identity, and one whose own id is `own`. -/
def twinRows (own : ReplicaLinkId) : CollectionRows :=
  CollectionRows.empty.apply [.upsertPlacement { probedCard with handle := ⟨"u2"⟩ },
    .upsertPlacement { probedCard with handle := ⟨"u1"⟩, linkId := some ⟨"m1"⟩ },
    .upsertPlacement { probedCard with handle := ⟨"u3"⟩, linkId := some own }]

/-- An upgrade of the second copy, fetched as the identity the first one holds. -/
def twinRun (own : ReplicaLinkId) : Option (CollectionRows × Transcript) :=
  exactRun 9 ∅ (fun handles _ => handles.map (fun h =>
    ⟨h, ⟨"m1"⟩, ⟨"hdr"⟩, .unknown, none, none⟩)) ⟨"inbox"⟩ [⟨"u2"⟩] .metadata (twinRows own)

/-- The second copy is minted the very id another message has of its own. -/
theorem minted_id_taken : ∃ (s : CollectionRows) (t : Transcript), s.LinkUnique ∧
    Upgrades ⟨"inbox"⟩ [⟨"u2"⟩] .metadata (firstLoad s [⟨"u2"⟩]) t ∧ Serves s t ∧
      ChecksExactly s t ∧ ¬ (s.apply t.writes).LinkUnique := by
  have hrun : (twinRun ⟨"dup:m1#u2"⟩).any (fun o => decide (∃ p ∈ o.1.placements,
      p.handle = ⟨"u2"⟩ ∧ p.linkId = some ⟨"dup:m1#u2"⟩) && decide (∃ p ∈ o.1.placements,
        p.handle = ⟨"u3"⟩ ∧ p.linkId = some ⟨"dup:m1#u2"⟩)) = true := by decide +kernel
  obtain ⟨⟨s', t⟩, hd, hall⟩ := (Option.any_eq_true _ _).mp hrun
  simp only [Bool.and_eq_true, decide_eq_true_eq] at hall
  obtain ⟨⟨p, hp, hph, hpl⟩, q, hq, hqh, hql⟩ := hall
  obtain ⟨hupgrades, hexact, hserves, rfl⟩ := exactRun_upgrades hd
  refine ⟨_, t, ReplicaRekey.linkUnique_of_placements (by decide +kernel), hupgrades, hserves,
    hexact.checks, ?_⟩
  intro hunique
  have hsame := hunique _ _ p q _ ((CollectionRows.mem_placements _ p).mp hp)
    ((CollectionRows.mem_placements _ q).mp hq) hpl hql
  rw [hph, hqh] at hsame
  exact absurd hsame (by decide)

/-- Nobody else having it, the minted id keeps the copies apart. -/
theorem minted_id_clear : ∃ (s : CollectionRows) (t : Transcript), s.LinkUnique ∧
    Upgrades ⟨"inbox"⟩ [⟨"u2"⟩] .metadata (firstLoad s [⟨"u2"⟩]) t ∧
      claimants .metadata t = [(⟨"u2"⟩, ⟨"m1"⟩)] ∧ MintsClear s .metadata t ∧
        (s.apply t.writes).LinkUnique := by
  have hrun : (twinRun ⟨"m3"⟩).any (fun o => decide (claimants .metadata o.2 =
      [(⟨"u2"⟩, ⟨"m1"⟩)]) && decide (∀ p ∈ o.1.placements, ∀ q ∈ o.1.placements,
        p.linkId = q.linkId → p.handle = q.handle)) = true := by decide +kernel
  obtain ⟨⟨s', t⟩, hd, hall⟩ := (Option.any_eq_true _ _).mp hrun
  simp only [Bool.and_eq_true, decide_eq_true_eq] at hall
  obtain ⟨hclaimants, hapart⟩ := hall
  obtain ⟨hupgrades, hexact, hserves, rfl⟩ := exactRun_upgrades hd
  have hu : (twinRows ⟨"m3"⟩).LinkUnique := ReplicaRekey.linkUnique_of_placements (by decide +kernel)
  have hafter := ReplicaRekey.linkUnique_of_placements hapart
  exact ⟨_, t, hu, hupgrades, hclaimants,
    (upgrade_links_unique_iff hupgrades hserves hexact.checks hu).mp hafter, hafter⟩

end Runs
end IoReplica

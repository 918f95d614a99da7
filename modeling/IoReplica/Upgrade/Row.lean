import IoReplica.Upgrade.Batch

/-! The row a completed upgrade leaves: linked from the store, answered by the fetch, or as it was. -/
namespace IoReplica

/-- Every load of the transcript returned stored rows. -/
def Serves (s : CollectionRows) (t : Transcript) : Prop :=
  ∀ p ∈ t.loaded, s.rows[p.handle]? = some p

section First

variable {collection : ReplicaCollectionId} {handles : List ReplicaHandle} {tier : ReplicaTier}
  {loaded : ReplicaLoaded} {t : Transcript} {p : ReplicaPlacement}

theorem Upgrades.mem_loaded (h : Upgrades collection handles tier loaded t)
    (hp : p ∈ loaded.placements) : p ∈ t.loaded := by
  obtain ⟨rest, report, rfl, -⟩ := h
  exact List.mem_append_left _ hp

/-- The first load of an upgrade returned stored rows, as every load did. -/
theorem Upgrades.first_served {s : CollectionRows} (h : Upgrades collection handles tier loaded t)
    (hs : Serves s t) : ∀ p ∈ loaded.placements, s.rows[p.handle]? = some p :=
  fun p hp => hs p (h.mem_loaded hp)

end First

namespace ReplicaUpgrade

/-- The body a lookup links to a requested placement, if any. -/
def hit (handles : List ReplicaHandle) (tier : ReplicaTier) (loaded : ReplicaLoaded)
    (t : Transcript) (p : ReplicaPlacement) : Option ReplicaHash :=
  if p ∈ loaded.placements ∧ p.handle ∈ handles ∧ pending tier p = true then
    knownBody t.known p
  else none

/-- A lookup links rows of the batch alone, each to the body found for it. -/
theorem of_hit {handles : List ReplicaHandle} {tier : ReplicaTier} {loaded : ReplicaLoaded}
    {t : Transcript} {p : ReplicaPlacement} {hash : ReplicaHash}
    (h : hit handles tier loaded t p = some hash) :
    p.handle ∈ handles ∧ knownBody t.known p = some hash := by
  simp only [hit] at h
  split at h
  · rename_i hasked
    exact ⟨hasked.2.1, h⟩
  · cases h

/-- The fetched item a placement is written from: the last one naming it, unless a full fetch
answers for the other side of its conflict. -/
def reply (tier : ReplicaTier) (t : Transcript) (p : ReplicaPlacement) :
    Option ReplicaFetchedItem :=
  if p ∈ t.loaded ∧ ¬ (tier = .full ∧ isConflicted p = true) then
    (t.fetched.filter (fun item => item.handle = p.handle)).getLast?
  else none

/-- The body and the level a fetched item leaves. -/
def answered (tier : ReplicaTier) (p : ReplicaPlacement) (item : ReplicaFetchedItem) :
    Option ReplicaHash × ReplicaLevel :=
  match tier, item.body with
  | .full, some body => (some (storedBody body).1.hash, .full)
  | _, _ => (p.object, .metadata)

/-- The body and the level an upgrade leaves. -/
def outcome (tier : ReplicaTier) (p : ReplicaPlacement) (hit : Option ReplicaHash)
    (reply : Option ReplicaFetchedItem) : Option ReplicaHash × ReplicaLevel :=
  reply.elim (hit.elim (p.object, p.level) (fun hash => (some hash, .full))) (answered tier p)

/-- A row of `p`'s handle and status, at a body and a level. -/
structure Leaves (p : ReplicaPlacement) (out : Option ReplicaHash × ReplicaLevel)
    (p' : ReplicaPlacement) : Prop where
  handle : p'.handle = p.handle
  status : p'.status = p.status
  object : p'.object = out.1
  level : p'.level = out.2

theorem Leaves.refl (p : ReplicaPlacement) : Leaves p (p.object, p.level) p := ⟨rfl, rfl, rfl, rfl⟩

/-- The rows a coroutine holds are stored ones. -/
def Held (s : CollectionRows) (m : HandleMap ReplicaPlacement) : Prop :=
  ∀ (h : ReplicaHandle) (p : ReplicaPlacement), m[h]? = some p → s.rows[h]? = some p

variable {s : CollectionRows}

theorem Held.get {m : HandleMap ReplicaPlacement} (hm : Held s m) {p : ReplicaPlacement}
    (hp : s.rows[p.handle]? = some p) : m[p.handle]? = some p ∨ m[p.handle]? = none := by
  cases hq : m[p.handle]? with
  | none => exact Or.inr rfl
  | some q =>
    rw [hm _ _ hq] at hp
    exact Or.inl hp

/-- Holding one more stored row. -/
def Takes (s : CollectionRows) (m m' : HandleMap ReplicaPlacement) (q : ReplicaPlacement) : Prop :=
  Held s m' ∧ ∀ p : ReplicaPlacement, s.rows[p.handle]? = some p →
    (m'[p.handle]? = some p ↔ m[p.handle]? = some p ∨ p = q)

theorem takes_insert {m : HandleMap ReplicaPlacement} (hm : Held s m) {q : ReplicaPlacement}
    (hq : s.rows[q.handle]? = some q) : Takes s m (m.insert q.handle q) q := by
  refine ⟨?_, ?_⟩
  · intro g r hr
    rw [OrderedMap.get_insert] at hr
    split at hr
    · rename_i hg
      cases hr
      rw [← hg]
      exact hq
    · exact hm g r hr
  · intro p hp
    rw [OrderedMap.get_insert]
    by_cases hh : q.handle = p.handle
    · have heq : q = p := by
        rw [hh, hp] at hq
        exact (Option.some.inj hq).symm
      simp [heq]
    · have hne : p ≠ q := fun he => hh (he ▸ rfl)
      simp [hh, hne]

theorem takes_foldIn {m : HandleMap ReplicaPlacement} (hm : Held s m) {q : ReplicaPlacement}
    (hq : s.rows[q.handle]? = some q) : Takes s m (foldIn m q) q := by
  by_cases hmem : q.handle ∈ m
  · rw [foldIn, if_pos hmem]
    refine ⟨hm, fun p hp => ⟨Or.inl, ?_⟩⟩
    rintro (h | rfl)
    · exact h
    · rcases hm.get hp with h | h
      · exact h
      · rw [Std.ExtTreeMap.mem_iff_isSome_getElem?, h] at hmem
        cases hmem
  · rw [foldIn, if_neg hmem]
    exact takes_insert hm hq

/-- Folding stored rows in holds them and what was held before. -/
theorem held_foldl {f : HandleMap ReplicaPlacement → ReplicaPlacement → HandleMap ReplicaPlacement}
    (hf : ∀ m q, Held s m → s.rows[q.handle]? = some q → Takes s m (f m q) q)
    {l : List ReplicaPlacement} {m : HandleMap ReplicaPlacement} (hm : Held s m)
    (hl : ∀ p ∈ l, s.rows[p.handle]? = some p) :
    Held s (l.foldl f m) ∧ ∀ p : ReplicaPlacement, s.rows[p.handle]? = some p →
      ((l.foldl f m)[p.handle]? = some p ↔ m[p.handle]? = some p ∨ p ∈ l) := by
  induction l generalizing m with
  | nil => exact ⟨hm, by simp⟩
  | cons q l ih =>
    obtain ⟨hheld, htaken⟩ := hf m q hm (hl q List.mem_cons_self)
    obtain ⟨hall, hget⟩ := ih hheld (fun r hr => hl r (List.mem_cons_of_mem _ hr))
    refine ⟨hall, fun p hp => ?_⟩
    rw [List.foldl_cons, hget p hp, htaken p hp, List.mem_cons, or_assoc]

/-- A load of stored rows holds exactly those it returned. -/
theorem held_collect {l : List ReplicaPlacement} (hl : ∀ p ∈ l, s.rows[p.handle]? = some p) :
    Held s (collectPlacements l) ∧ ∀ p : ReplicaPlacement, s.rows[p.handle]? = some p →
      ((collectPlacements l)[p.handle]? = some p ↔ p ∈ l) := by
  have hempty : Held s ∅ := fun h p hp => by simp at hp
  obtain ⟨hheld, hget⟩ := held_foldl (fun _ _ hm hq => takes_insert hm hq) hempty hl
  exact ⟨hheld, fun p hp => (hget p hp).trans (by simp)⟩

/-- A requested placement is linked to the body known for it, and the others are left. -/
theorem rowAfter_linkOps {m : HandleMap ReplicaPlacement} (hm : Held s m) {p : ReplicaPlacement}
    (hp : s.rows[p.handle]? = some p) (known : LinkMap ReplicaHash) (hs : List ReplicaHandle)
    (q : ReplicaPlacement) :
    rowAfter p.handle (some q) (hs.flatMap (linkOps known m)) =
      some (if m[p.handle]? = some p ∧ p.handle ∈ hs then
        (knownBody known p).elim q (linked p) else q) := by
  induction hs generalizing q with
  | nil => simp
  | cons h hs ih =>
    rw [List.flatMap_cons, rowAfter_append]
    by_cases hh : h = p.handle
    · subst hh
      rcases hm.get hp with hget | hget
      · cases hk : knownBody known p with
        | none => simp [linkOps, hget, hk, ih]
        | some hash =>
          have hlinked : (linked p hash).handle = p.handle := rfl
          simp [linkOps, hget, hk, ih, hlinked]
      · simp [linkOps, hget, ih]
    · have hne : ∀ op ∈ linkOps known m h, op.row ≠ some p.handle := by
        intro op hop
        simp only [linkOps, Option.mem_toList, Option.bind_eq_some_iff, Option.map_eq_some_iff] at hop
        obtain ⟨r, hr, hash, -, rfl⟩ := hop
        have hrh : r.handle = h := s.keyed h r (hm h r hr)
        rw [ReplicaWriteOp.row_upsert]
        exact fun he => hh (hrh.symm.trans (Option.some.inj he))
      rw [rowAfter_of_ne _ hne, ih]
      simp [Ne.symm hh]

/-- The identity and the summary of a fetch touch neither the body nor the level. -/
theorem identify_eq (claimed : LinkMap ReplicaHandle) (p : ReplicaPlacement)
    (item : ReplicaFetchedItem) :
    (identify claimed p item).2 = { p with linkId := (identify claimed p item).2.linkId } := by
  cases hl : p.linkId with
  | none => simp [identify, hl]
  | some link =>
    simp only [identify, hl]
    rw [← hl]

/-- The row a fetched item leaves of an unconflicted placement, beside the links claimed. -/
def answer (tier : ReplicaTier) (claimed : LinkMap ReplicaHandle) (p : ReplicaPlacement)
    (item : ReplicaFetchedItem) : ReplicaPlacement :=
  let patched := summarised (identify claimed p item).2 item
  match tier, item.body with
  | .full, some body => filled patched (storedBody body).1.hash item.revision
  | _, _ => { patched with level := .metadata }

theorem answer_leaves (tier : ReplicaTier) (claimed : LinkMap ReplicaHandle) (p : ReplicaPlacement)
    (item : ReplicaFetchedItem) : Leaves p (answered tier p item) (answer tier claimed p item) := by
  cases tier <;> cases hb : item.body <;>
  · simp only [answer, answered, hb]
    rw [identify_eq]
    exact ⟨rfl, rfl, rfl, rfl⟩

/-- The ops of one fetched item write the row it names, if they write any. -/
theorem itemOps_row {m : HandleMap ReplicaPlacement} (hm : Held s m) (tier : ReplicaTier)
    (claimed : LinkMap ReplicaHandle) (item : ReplicaFetchedItem) :
    ∀ op ∈ (itemOps tier m claimed item).2, op.row = none ∨
      (op.row = some item.handle ∧ m[item.handle]?.isSome) := by
  intro op hop
  cases hr : m[item.handle]? with
  | none => simp [itemOps, hr] at hop
  | some r =>
    have hh : r.handle = item.handle := s.keyed _ _ (hm _ _ hr)
    have hid : (summarised (identify claimed r item).2 item).handle = item.handle := by
      rw [identify_eq]
      exact hh
    simp only [itemOps, hr] at hop
    split at hop
    · split at hop
      · cases hop
      · rcases List.mem_cons.mp hop with rfl | hop
        · exact Or.inl rfl
        · rw [List.mem_singleton.mp hop]
          exact Or.inr ⟨congrArg some hh, rfl⟩
    · split at hop
      · rcases List.mem_cons.mp hop with rfl | hop
        · exact Or.inl rfl
        · rw [List.mem_singleton.mp hop]
          exact Or.inr ⟨congrArg some hid, rfl⟩
      · rw [List.mem_singleton.mp hop]
        exact Or.inr ⟨congrArg some hid, rfl⟩

/-- An item of another handle, or of a row not held, leaves a stored row alone. -/
theorem rowAfter_itemOps_other {m : HandleMap ReplicaPlacement} (hm : Held s m) (tier : ReplicaTier)
    (claimed : LinkMap ReplicaHandle) {item : ReplicaFetchedItem} {h : ReplicaHandle}
    (hother : item.handle ≠ h ∨ m[h]? = none) (init : Option ReplicaPlacement) :
    rowAfter h init (itemOps tier m claimed item).2 = init := by
  apply rowAfter_of_ne
  intro op hop heq
  rcases itemOps_row hm tier claimed item op hop with hnone | ⟨hsome, hheld⟩
  · rw [hnone] at heq
    cases heq
  · have hh : item.handle = h := Option.some.inj (hsome.symm.trans heq)
    rcases hother with hne | hnot
    · exact hne hh
    · rw [hh, hnot] at hheld
      cases hheld

theorem rowAfter_itemOps_named {m : HandleMap ReplicaPlacement} {tier : ReplicaTier}
    {p : ReplicaPlacement} (hp : m[p.handle]? = some p)
    (hnc : ¬ (tier = .full ∧ isConflicted p = true)) (claimed : LinkMap ReplicaHandle)
    {item : ReplicaFetchedItem} (hnamed : item.handle = p.handle) (init : Option ReplicaPlacement) :
    rowAfter p.handle init (itemOps tier m claimed item).2 = some (answer tier claimed p item) := by
  have hhandle : (answer tier claimed p item).handle = p.handle :=
    (answer_leaves tier claimed p item).handle
  simp only [itemOps, hnamed, hp, if_neg hnc]
  cases tier with
  | metadata =>
    simp only [rowAfter_upsert, rowAfter_nil]
    exact if_pos hhandle
  | full =>
    cases hb : item.body with
    | none =>
      simp only [answer, hb] at hhandle ⊢
      simp only [rowAfter_upsert, rowAfter_nil]
      exact if_pos hhandle
    | some body =>
      simp only [answer, hb] at hhandle ⊢
      exact if_pos hhandle

/-- The fetched items leave an unconflicted row as the last one naming it does. -/
theorem rowAfter_itemsOps {m : HandleMap ReplicaPlacement} (hm : Held s m) {tier : ReplicaTier}
    {p : ReplicaPlacement} (hp : s.rows[p.handle]? = some p)
    (hnc : ¬ (tier = .full ∧ isConflicted p = true)) (items : List ReplicaFetchedItem)
    (claimed : LinkMap ReplicaHandle) (q : ReplicaPlacement) :
    ∃ claimed', rowAfter p.handle (some q) (itemsOps tier m claimed items) =
      some ((if m[p.handle]? = some p then
        (items.filter (fun item => item.handle = p.handle)).getLast? else none).elim q
          (answer tier claimed' p)) := by
  induction items generalizing claimed q with
  | nil => exact ⟨claimed, by simp [itemsOps]⟩
  | cons item items ih =>
    rw [itemsOps, rowAfter_append]
    by_cases hnamed : item.handle = p.handle ∧ m[p.handle]? = some p
    · rw [rowAfter_itemOps_named hnamed.2 hnc claimed hnamed.1]
      obtain ⟨claimed', hrest⟩ := ih (itemOps tier m claimed item).1 (answer tier claimed p item)
      rw [if_pos hnamed.2] at hrest ⊢
      rw [List.filter_cons, if_pos (decide_eq_true hnamed.1), List.getLast?_cons]
      cases hl : (items.filter (fun item => item.handle = p.handle)).getLast? with
      | none =>
        rw [hl] at hrest
        exact ⟨claimed, hrest⟩
      | some last =>
        rw [hl] at hrest
        exact ⟨claimed', hrest⟩
    · have hother : item.handle ≠ p.handle ∨ m[p.handle]? = none := by
        rcases hm.get hp with hget | hget
        · exact Or.inl (fun h => hnamed ⟨h, hget⟩)
        · exact Or.inr hget
      rw [rowAfter_itemOps_other hm tier claimed hother]
      obtain ⟨claimed', hrest⟩ := ih (itemOps tier m claimed item).1 q
      refine ⟨claimed', ?_⟩
      rw [hrest]
      by_cases hget : m[p.handle]? = some p
      · have hne : item.handle ≠ p.handle := fun h => hnamed ⟨h, hget⟩
        rw [List.filter_cons_of_neg (by simpa using hne)]
      · rw [if_neg hget, if_neg hget]

/-- A full fetch leaves a conflicted row as it was, but for the diverging body. -/
theorem rowAfter_itemsOps_conflicted {m : HandleMap ReplicaPlacement} (hm : Held s m)
    {p : ReplicaPlacement} (hp : s.rows[p.handle]? = some p) (hc : isConflicted p = true)
    (items : List ReplicaFetchedItem) (claimed : LinkMap ReplicaHandle) (o : Option ReplicaHash) :
    ∃ o', rowAfter p.handle (some { p with conflictObject := o }) (itemsOps .full m claimed items) =
      some { p with conflictObject := o' } := by
  induction items generalizing claimed o with
  | nil => exact ⟨o, rfl⟩
  | cons item items ih =>
    rw [itemsOps, rowAfter_append]
    by_cases hnamed : item.handle = p.handle ∧ m[p.handle]? = some p
    · have hone : ∃ o', rowAfter p.handle (some { p with conflictObject := o })
          (itemOps .full m claimed item).2 = some { p with conflictObject := o' } := by
        simp only [itemOps, hnamed.1, hnamed.2, hc, and_self, if_true]
        cases item.body with
        | none => exact ⟨o, rfl⟩
        | some body => exact ⟨some (storedBody body).1.hash, if_pos rfl⟩
      obtain ⟨o', hone⟩ := hone
      rw [hone]
      exact ih _ o'
    · have hother : item.handle ≠ p.handle ∨ m[p.handle]? = none := by
        rcases hm.get hp with hget | hget
        · exact Or.inl (fun h => hnamed ⟨h, hget⟩)
        · exact Or.inr hget
      rw [rowAfter_itemOps_other hm .full claimed hother]
      exact ih _ o

/-- A conflicted placement is not linked from the store. -/
theorem knownBody_conflicted (known : LinkMap ReplicaHash) {p : ReplicaPlacement}
    (hc : isConflicted p = true) : knownBody known p = none := by
  simp [knownBody, lookupLink, hc]

/-- The row an upgrade makes of a stored one: the diverging body alone of a conflicted row taken to
full, else the last answer, else the body linked from the store. -/
inductive Upgraded (tier : ReplicaTier) (p : ReplicaPlacement) (hit : Option ReplicaHash) :
    Option ReplicaFetchedItem → ReplicaPlacement → Prop
  | conflicted (full : tier = .full) (conflict : isConflicted p = true) (o : Option ReplicaHash) :
      Upgraded tier p hit none { p with conflictObject := o }
  | linked (open' : ¬ (tier = .full ∧ isConflicted p = true)) :
      Upgraded tier p hit none (hit.elim p (linked p))
  | answered (open' : ¬ (tier = .full ∧ isConflicted p = true)) (claimed : LinkMap ReplicaHandle)
      (item : ReplicaFetchedItem) : Upgraded tier p hit (some item) (answer tier claimed p item)

/-- What an upgrade makes of a row is of its handle and status, at the body and the level of the last
answer. -/
theorem Upgraded.leaves {tier : ReplicaTier} {p p' : ReplicaPlacement} {hit : Option ReplicaHash}
    {reply : Option ReplicaFetchedItem} (h : Upgraded tier p hit reply p')
    (hhit : isConflicted p = true → hit = none) : Leaves p (outcome tier p hit reply) p' := by
  cases h with
  | conflicted full conflict o =>
    rw [hhit conflict]
    exact ⟨rfl, rfl, rfl, rfl⟩
  | linked =>
    cases hit with
    | none => exact .refl p
    | some hash => exact ⟨rfl, rfl, rfl, rfl⟩
  | answered _ claimed item => exact answer_leaves tier claimed p item

end ReplicaUpgrade

open ReplicaUpgrade in
/-- A completed upgrade leaves every stored row linked, answered or as it was. -/
theorem Upgrades.upgraded {collection : ReplicaCollectionId} {handles : List ReplicaHandle}
    {tier : ReplicaTier} {loaded : ReplicaLoaded} {t : Transcript} {s : CollectionRows}
    (h : Upgrades collection handles tier loaded t) (hs : Serves s t) {p : ReplicaPlacement}
    (hp : s.rows[p.handle]? = some p) :
    ∃ p', (s.apply t.writes).rows[p.handle]? = some p' ∧
      Upgraded tier p (hit handles tier loaded t p) (reply tier t p) p' := by
  obtain ⟨more, hwhole⟩ := h.whole
  have hmore : ∀ q ∈ more, s.rows[q.handle]? = some q :=
    fun q hq => hs q (hwhole.loads ▸ List.mem_append_right _ hq)
  obtain ⟨hheld, hget⟩ := held_collect (h.first_served hs)
  obtain ⟨hheld', hget'⟩ := held_foldl (fun _ _ hm hq => takes_foldIn hm hq) hheld hmore
  have hasked : (collectPlacements loaded.placements)[p.handle]? = some p →
      (p.handle ∈ asked handles tier loaded ↔ p.handle ∈ handles ∧ pending tier p = true) := by
    intro hmem
    simp [asked, hmem]
  have hhit : hit handles tier loaded t p =
      if (collectPlacements loaded.placements)[p.handle]? = some p ∧
        p.handle ∈ asked handles tier loaded then knownBody t.known p else none := by
    by_cases hmem : (collectPlacements loaded.placements)[p.handle]? = some p
    · simp only [hit, hmem, hasked hmem, true_and, (hget p hp).mp hmem]
    · rw [hit, if_neg (fun h => hmem ((hget p hp).mpr h.1)), if_neg (fun h => hmem h.1)]
  have hwrites := t.flatten_batches
  rw [CollectionRows.get_apply, hp, ← hwrites, hwhole.batches]
  by_cases hempty : (asked handles tier loaded).isEmpty = true
  · have hnone : hit handles tier loaded t p = none := by
      rw [hhit, List.isEmpty_iff.mp hempty]
      simp
    have hreply : reply tier t p = none := by
      rw [reply, hwhole.idle hempty]
      simp
    rw [if_pos hempty, hnone, hreply]
    refine ⟨p, rfl, ?_⟩
    by_cases hc : tier = .full ∧ isConflicted p = true
    · exact .conflicted hc.1 hc.2 p.conflictObject
    · exact Upgraded.linked hc
  · rw [if_neg hempty, List.flatten_cons, List.flatten_nil, List.append_nil, rowAfter_append,
      rowAfter_linkOps hheld hp]
    have helim : (if (collectPlacements loaded.placements)[p.handle]? = some p ∧
        p.handle ∈ asked handles tier loaded then (knownBody t.known p).elim p (linked p) else p) =
          (hit handles tier loaded t p).elim p (linked p) := by
      rw [hhit]
      split <;> rfl
    rw [helim, fetchedOps]
    by_cases hc : tier = .full ∧ isConflicted p = true
    · have hnone : hit handles tier loaded t p = none := by
        simp [hit, knownBody_conflicted _ hc.2]
      have hreply : reply tier t p = none := by
        rw [reply, if_neg (fun h => h.2 hc)]
      obtain ⟨hfull, hconf⟩ := hc
      subst hfull
      obtain ⟨o, ho⟩ := rowAfter_itemsOps_conflicted hheld' hp hconf (inOrder t.fetched)
        (claims (more.foldl foldIn (collectPlacements loaded.placements))) p.conflictObject
      rw [hnone, hreply]
      exact ⟨_, ho, .conflicted rfl hconf o⟩
    · obtain ⟨claimed, hrow⟩ := rowAfter_itemsOps hheld' hp hc (inOrder t.fetched)
        (claims (more.foldl foldIn (collectPlacements loaded.placements)))
        ((hit handles tier loaded t p).elim p (linked p))
      rw [inOrder, Listing.filter_insertionSort (fun item : ReplicaFetchedItem => item.handle)] at hrow
      have hreply : (if (more.foldl foldIn (collectPlacements loaded.placements))[p.handle]? = some p
          then (t.fetched.filter (fun item => item.handle = p.handle)).getLast? else none) =
            reply tier t p := by
        simp only [reply, hc, not_false_eq_true, and_true, hwhole.loads, List.mem_append, hget' p hp,
          hget p hp]
      rw [hreply] at hrow
      refine ⟨_, hrow, ?_⟩
      cases reply tier t p with
      | none => exact .linked hc
      | some item => exact .answered hc claimed item

open ReplicaUpgrade in
/-- A completed upgrade leaves every stored row at its own handle and status, with the body and the
level of its last answer. -/
theorem Upgrades.row {collection : ReplicaCollectionId} {handles : List ReplicaHandle}
    {tier : ReplicaTier} {loaded : ReplicaLoaded} {t : Transcript} {s : CollectionRows}
    (h : Upgrades collection handles tier loaded t) (hs : Serves s t) {p : ReplicaPlacement}
    (hp : s.rows[p.handle]? = some p) :
    ∃ p', (s.apply t.writes).rows[p.handle]? = some p' ∧
      Leaves p (outcome tier p (hit handles tier loaded t p) (reply tier t p)) p' := by
  obtain ⟨p', hp', hupgraded⟩ := h.upgraded hs hp
  refine ⟨p', hp', hupgraded.leaves (fun hc => ?_)⟩
  simp [hit, knownBody_conflicted _ hc]

namespace ReplicaUpgrade

theorem mem_itemsOps {tier : ReplicaTier} {m : HandleMap ReplicaPlacement}
    {items : List ReplicaFetchedItem} {claimed : LinkMap ReplicaHandle} {op : ReplicaWriteOp}
    (h : op ∈ itemsOps tier m claimed items) :
    ∃ item ∈ items, ∃ claimed', op ∈ (itemOps tier m claimed' item).2 := by
  induction items generalizing claimed with
  | nil => cases h
  | cons item items ih =>
    rcases List.mem_append.mp h with h | h
    · exact ⟨item, List.mem_cons_self, claimed, h⟩
    · obtain ⟨i, hi, claimed', hop⟩ := ih h
      exact ⟨i, List.mem_cons_of_mem _ hi, claimed', hop⟩

theorem itemOps_mem (tier : ReplicaTier) (m : HandleMap ReplicaPlacement)
    (claimed : LinkMap ReplicaHandle) {items : List ReplicaFetchedItem} {item : ReplicaFetchedItem}
    (hi : item ∈ items) :
    ∃ claimed', ∀ op ∈ (itemOps tier m claimed' item).2, op ∈ itemsOps tier m claimed items := by
  induction items generalizing claimed with
  | nil => cases hi
  | cons i items ih =>
    rcases List.mem_cons.mp hi with rfl | hi
    · exact ⟨claimed, fun op hop => List.mem_append_left _ hop⟩
    · obtain ⟨claimed', hall⟩ := ih (itemOps tier m claimed i).1 hi
      exact ⟨claimed', fun op hop => List.mem_append_right _ (hall op hop)⟩

/-- Folding more rows in keeps the row already held. -/
theorem foldIn_foldl {m : HandleMap ReplicaPlacement} {h : ReplicaHandle} {p : ReplicaPlacement}
    (hp : m[h]? = some p) (l : List ReplicaPlacement) : (l.foldl foldIn m)[h]? = some p := by
  induction l generalizing m with
  | nil => exact hp
  | cons q l ih =>
    refine ih ?_
    simp only [foldIn]
    split
    · exact hp
    · rename_i hmem
      refine (OrderedMap.get_insert_of_ne _ _ (fun hq => hmem ?_)).trans hp
      rw [hq, Std.ExtTreeMap.mem_iff_isSome_getElem?, hp]
      rfl

theorem foldIn_keyed {m : HandleMap ReplicaPlacement}
    (hm : ∀ (h : ReplicaHandle) (p : ReplicaPlacement), m[h]? = some p → p.handle = h)
    (l : List ReplicaPlacement) (h : ReplicaHandle) (p : ReplicaPlacement)
    (hp : (l.foldl foldIn m)[h]? = some p) : p.handle = h := by
  induction l generalizing m with
  | nil => exact hm h p hp
  | cons q l ih =>
    refine ih (m := foldIn m q) ?_ hp
    intro g r hr
    simp only [foldIn] at hr
    split at hr
    · exact hm g r hr
    · rw [OrderedMap.get_insert] at hr
      split at hr
      · cases hr
        assumption
      · exact hm g r hr

variable {collection : ReplicaCollectionId} {handles : List ReplicaHandle} {tier : ReplicaTier}
  {loaded : ReplicaLoaded} {t : Transcript} {p : ReplicaPlacement}

/-- Every row an upgrade writes under a loaded handle is the row linked from the store, or answered
by the fetch. -/
theorem upsert_cases (h : Upgrades collection handles tier loaded t)
    (hp : (collectPlacements loaded.placements)[p.handle]? = some p)
    (hnc : ¬ (tier = .full ∧ isConflicted p = true)) {q : ReplicaPlacement}
    (hq : .upsertPlacement q ∈ t.writes) (hh : q.handle = p.handle) :
    (∃ hash, q = linked p hash) ∨
      ∃ item ∈ t.fetched, item.handle = p.handle ∧ ∃ claimed, q = answer tier claimed p item := by
  obtain ⟨more, hwhole⟩ := h.whole
  have hkeyed : ∀ (g : ReplicaHandle) (r : ReplicaPlacement),
      (collectPlacements loaded.placements)[g]? = some r → r.handle = g :=
    fun g r hr => CollectionRows.collect_keyed hr
  rw [← t.flatten_batches, hwhole.batches] at hq
  split at hq
  · cases hq
  · rw [List.flatten_cons, List.flatten_nil, List.append_nil] at hq
    rcases List.mem_append.mp hq with hq | hq
    · obtain ⟨g, -, hop⟩ := List.mem_flatMap.mp hq
      simp only [linkOps, Option.mem_toList, Option.bind_eq_some_iff, Option.map_eq_some_iff,
        ReplicaWriteOp.upsertPlacement.injEq] at hop
      obtain ⟨r, hr, hash, -, rfl⟩ := hop
      have hg : r.handle = p.handle := hh
      rw [hkeyed g r hr] at hg
      rw [hg, hp, Option.some.injEq] at hr
      exact Or.inl ⟨hash, by rw [hr]⟩
    · obtain ⟨item, hitem, claimed, hop⟩ := mem_itemsOps hq
      rw [inOrder, List.mem_insertionSort] at hitem
      cases hr : (more.foldl foldIn (collectPlacements loaded.placements))[item.handle]? with
      | none => simp [itemOps, hr] at hop
      | some r =>
        have hrh := foldIn_keyed hkeyed more item.handle r hr
        have hqh : q.handle = item.handle := by
          simp only [itemOps, hr] at hop
          split at hop
          · split at hop
            · cases hop
            · simp only [List.mem_cons, reduceCtorEq, ReplicaWriteOp.upsertPlacement.injEq,
                List.not_mem_nil, or_false, false_or] at hop
              rw [hop]
              exact hrh
          · split at hop
            · simp only [List.mem_cons, reduceCtorEq, ReplicaWriteOp.upsertPlacement.injEq,
                List.not_mem_nil, or_false, false_or] at hop
              rw [hop, identify_eq]
              exact hrh
            · simp only [List.mem_cons, ReplicaWriteOp.upsertPlacement.injEq, List.not_mem_nil,
                or_false] at hop
              rw [hop, identify_eq]
              exact hrh
        have hnamed : item.handle = p.handle := hqh.symm.trans hh
        rw [hnamed, foldIn_foldl hp more, Option.some.injEq] at hr
        subst hr
        refine Or.inr ⟨item, hitem, hnamed, claimed, ?_⟩
        simp only [itemOps, hnamed, foldIn_foldl hp more, if_neg hnc] at hop
        cases tier with
        | metadata => simpa [answer] using hop
        | full =>
          cases hb : item.body <;> simpa [answer, hb] using hop

/-- A fetched item naming a loaded row is written. -/
theorem upsert_answer (h : Upgrades collection handles tier loaded t)
    (hp : (collectPlacements loaded.placements)[p.handle]? = some p)
    (hnc : ¬ (tier = .full ∧ isConflicted p = true)) {item : ReplicaFetchedItem}
    (hi : item ∈ t.fetched) (hnamed : item.handle = p.handle) :
    ∃ claimed, .upsertPlacement (answer tier claimed p item) ∈ t.writes := by
  obtain ⟨more, hwhole⟩ := h.whole
  have hasked : ¬ (asked handles tier loaded).isEmpty = true := by
    intro hempty
    rw [hwhole.idle hempty] at hi
    cases hi
  have hmem : item ∈ inOrder t.fetched := by rwa [inOrder, List.mem_insertionSort]
  obtain ⟨claimed, hall⟩ := itemOps_mem tier
    (more.foldl foldIn (collectPlacements loaded.placements))
    (claims (more.foldl foldIn (collectPlacements loaded.placements))) hmem
  refine ⟨claimed, ?_⟩
  rw [← t.flatten_batches, hwhole.batches, if_neg hasked, List.flatten_cons, List.flatten_nil,
    List.append_nil]
  refine List.mem_append_right _ (hall _ ?_)
  simp only [itemOps, hnamed, foldIn_foldl hp more, if_neg hnc]
  cases tier with
  | metadata => simp [answer]
  | full => cases hb : item.body <;> simp [answer, hb]

/-- The links the rows hold are those claimed at first. -/
theorem mem_claims {m : HandleMap ReplicaPlacement} {l : ReplicaLinkId} :
    l ∈ claims m ↔ ∃ (h : ReplicaHandle) (p : ReplicaPlacement),
      m[h]? = some p ∧ p.linkId = some l := by
  have hfold : ∀ (entries : List (ReplicaHandle × ReplicaPlacement)) (c : LinkMap ReplicaHandle),
      l ∈ entries.foldl (fun c e => e.2.linkId.elim c (fun link => c.insert link e.2.handle)) c ↔
        l ∈ c ∨ ∃ e ∈ entries, e.2.linkId = some l := by
    intro entries
    induction entries with
    | nil => simp
    | cons e entries ih =>
      intro c
      rw [List.foldl_cons, ih]
      cases hl : e.2.linkId with
      | none => simp [hl]
      | some link =>
        simp only [Option.elim_some, Std.ExtTreeMap.mem_insert, Std.compare_eq_iff_eq,
          List.mem_cons, exists_eq_or_imp, hl, Option.some.injEq]
        grind
  rw [claims, hfold]
  simp only [Std.ExtTreeMap.not_mem_empty, false_or]
  constructor
  · rintro ⟨⟨h, p⟩, he, hl⟩
    exact ⟨h, p, (OrderedMap.mem_toList_iff _ _ _).mp he, hl⟩
  · rintro ⟨h, p, hp, hl⟩
    exact ⟨(h, p), (OrderedMap.mem_toList_iff _ _ _).mpr hp, hl⟩

/-- Writing an item gives up no claim. -/
theorem claimed_itemOps {tier : ReplicaTier} {m : HandleMap ReplicaPlacement}
    {claimed : LinkMap ReplicaHandle} {link : ReplicaLinkId} (hc : link ∈ claimed)
    (item : ReplicaFetchedItem) : link ∈ (itemOps tier m claimed item).1 := by
  have hid : ∀ r, link ∈ (identify claimed r item).1 := by
    intro r
    simp only [identify]
    split
    · exact hc
    · exact Std.ExtTreeMap.mem_insert.mpr (Or.inr hc)
  simp only [itemOps]
  split
  · exact hc
  · split
    · split
      · exact hc
      · exact hc
    · split
      · exact hid _
      · exact hid _

/-- A row is never identified by a link another one holds, unless it is its own mint. -/
theorem identify_claimed {claimed : LinkMap ReplicaHandle} {link : ReplicaLinkId}
    (hc : link ∈ claimed) {r : ReplicaPlacement} {item : ReplicaFetchedItem}
    (hmint : mint item.linkId item.handle ≠ link)
    (hl : (identify claimed r item).2.linkId = some link) : r.linkId = some link := by
  cases hr : r.linkId with
  | some own =>
    simp only [identify, hr] at hl
    exact hl
  | none =>
    simp only [identify, hr, Option.some.injEq] at hl
    split at hl
    · exact absurd hl hmint
    · rename_i hfree
      rw [hl] at hfree
      exact absurd (Std.ExtTreeMap.contains_iff_mem.mpr hc) hfree

/-- No fetched item is written onto a link another row holds. -/
theorem itemsOps_link {tier : ReplicaTier} {m : HandleMap ReplicaPlacement} {link : ReplicaLinkId}
    {items : List ReplicaFetchedItem} (hmint : ∀ i ∈ items, mint i.linkId i.handle ≠ link)
    {claimed : LinkMap ReplicaHandle} (hc : link ∈ claimed) {q : ReplicaPlacement}
    (hq : .upsertPlacement q ∈ itemsOps tier m claimed items) (hl : q.linkId = some link) :
    ∃ (g : ReplicaHandle) (r : ReplicaPlacement), m[g]? = some r ∧ r.linkId = some link ∧
      q.handle = r.handle := by
  induction items generalizing claimed with
  | nil => cases hq
  | cons item items ih =>
    rcases List.mem_append.mp hq with hop | hop
    · cases hr : m[item.handle]? with
      | none => simp [itemOps, hr] at hop
      | some r =>
        have hown := identify_claimed hc (r := r) (hmint item List.mem_cons_self)
        refine ⟨item.handle, r, hr, ?_⟩
        simp only [itemOps, hr] at hop
        split at hop
        · split at hop
          · cases hop
          · simp only [List.mem_cons, reduceCtorEq, ReplicaWriteOp.upsertPlacement.injEq,
              List.not_mem_nil, or_false, false_or] at hop
            rw [hop] at hl ⊢
            exact ⟨hl, rfl⟩
        · split at hop
          · simp only [List.mem_cons, reduceCtorEq, ReplicaWriteOp.upsertPlacement.injEq,
              List.not_mem_nil, or_false, false_or] at hop
            rw [hop] at hl ⊢
            refine ⟨hown hl, ?_⟩
            rw [identify_eq]
            rfl
          · simp only [List.mem_cons, ReplicaWriteOp.upsertPlacement.injEq, List.not_mem_nil,
              or_false] at hop
            rw [hop] at hl ⊢
            refine ⟨hown hl, ?_⟩
            rw [identify_eq]
            rfl
    · exact ih (fun i hi => hmint i (List.mem_cons_of_mem _ hi)) (claimed_itemOps hc item) hop

/-- Folding rows in holds rows that were held or folded. -/
theorem foldIn_mem {m : HandleMap ReplicaPlacement} {l : List ReplicaPlacement} {h : ReplicaHandle}
    {r : ReplicaPlacement} (hr : (l.foldl foldIn m)[h]? = some r) : m[h]? = some r ∨ r ∈ l := by
  induction l generalizing m with
  | nil => exact Or.inl hr
  | cons q l ih =>
    rcases ih hr with hr | hr
    · simp only [foldIn] at hr
      split at hr
      · exact Or.inl hr
      · rw [OrderedMap.get_insert] at hr
        split at hr
        · cases hr
          exact Or.inr List.mem_cons_self
        · exact Or.inl hr
    · exact Or.inr (List.mem_cons_of_mem _ hr)

/-- An upgrade links no second row to an identity a loaded one holds. -/
theorem upsert_link (h : Upgrades collection handles tier loaded t)
    (hp : (collectPlacements loaded.placements)[p.handle]? = some p) {link : ReplicaLinkId}
    (hl : p.linkId = some link) (hmint : ∀ i ∈ t.fetched, mint i.linkId i.handle ≠ link)
    {q : ReplicaPlacement} (hq : .upsertPlacement q ∈ t.writes) (hql : q.linkId = some link) :
    ∃ r ∈ t.loaded, r.linkId = some link ∧ q.handle = r.handle := by
  obtain ⟨more, hwhole⟩ := h.whole
  have hcollected : ∀ (g : ReplicaHandle) (r : ReplicaPlacement),
      (collectPlacements loaded.placements)[g]? = some r → r ∈ t.loaded := by
    intro g r hr
    rw [hwhole.loads]
    exact List.mem_append_left _ (CollectionRows.mem_of_collect hr)
  rw [← t.flatten_batches, hwhole.batches] at hq
  split at hq
  · cases hq
  · rw [List.flatten_cons, List.flatten_nil, List.append_nil] at hq
    rcases List.mem_append.mp hq with hq | hq
    · obtain ⟨g, -, hop⟩ := List.mem_flatMap.mp hq
      simp only [linkOps, Option.mem_toList, Option.bind_eq_some_iff, Option.map_eq_some_iff,
        ReplicaWriteOp.upsertPlacement.injEq] at hop
      obtain ⟨r, hr, hash, -, rfl⟩ := hop
      exact ⟨r, hcollected g r hr, hql, rfl⟩
    · have hclaimed := mem_claims.mpr ⟨_, _, foldIn_foldl hp more, hl⟩
      obtain ⟨g, r, hr, hrl, hqr⟩ := itemsOps_link (fun i hi => hmint i (by
        rwa [inOrder, List.mem_insertionSort] at hi)) hclaimed hq hql
      refine ⟨r, ?_, hrl, hqr⟩
      rcases foldIn_mem hr with hr | hr
      · exact hcollected g r hr
      · rw [hwhole.loads]
        exact List.mem_append_right _ hr

/-- An upgrade drops no row. -/
theorem not_dropped (h : Upgrades collection handles tier loaded t) (c : ReplicaCollectionId)
    (g : ReplicaHandle) (reason : ReplicaDropReason) : .dropPlacement c g reason ∉ t.writes := by
  obtain ⟨more, hwhole⟩ := h.whole
  rw [← t.flatten_batches, hwhole.batches]
  split
  · exact List.not_mem_nil
  · rw [List.flatten_cons, List.flatten_nil, List.append_nil]
    intro hop
    rcases List.mem_append.mp hop with hop | hop
    · obtain ⟨g, -, hop⟩ := List.mem_flatMap.mp hop
      simp only [linkOps, Option.mem_toList, Option.bind_eq_some_iff, Option.map_eq_some_iff,
        reduceCtorEq, and_false, exists_false] at hop
    · obtain ⟨item, -, claimed, hop⟩ := mem_itemsOps hop
      simp only [itemOps] at hop
      split at hop
      · cases hop
      · split at hop
        · split at hop <;> simp at hop
        · split at hop <;> simp at hop

end ReplicaUpgrade
end IoReplica

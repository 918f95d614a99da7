import IoReplica.Sync.Candidates

/-! Several servers in one: the members each collection holds, and how a pushed change is served. -/
namespace IoReplica

/-- What a server holds of a member: the item it delivers, and the content revision it reports. -/
structure ServerItem where
  linkId : Option ReplicaLinkId
  revision : Option String
  deriving DecidableEq

/-- The member held at each handle of each collection. -/
abbrev Servers := ReplicaOrigin → Option ServerItem

/-- The handle a change acts on, in its collection. -/
def ReplicaChangeKind.locus (c : ReplicaCollectionId) (kind : ReplicaChangeKind) : ReplicaOrigin :=
  ⟨c, kind.handle⟩

namespace Servers
variable {m m' : Servers} {link : ReplicaLinkId} {c : ReplicaCollectionId}
  {kind : ReplicaChangeKind} {o a : ReplicaOrigin}

/-- The member held there delivers the item. -/
def Holds (m : Servers) (link : ReplicaLinkId) (o : ReplicaOrigin) : Prop :=
  (m o).bind (·.linkId) = some link

/-- The destination of a relocation holds the link id the change carries. -/
def Served (m : Servers) (linkId : Option ReplicaLinkId) (d : ReplicaCollectionId) : Prop :=
  ∃ link g, linkId = some link ∧ m.Holds link ⟨d, g⟩

theorem holds_update_self (x : Option ServerItem) :
    Holds (Function.update m a x) link a ↔ x.bind (·.linkId) = some link := by
  rw [Holds, Function.update_self]

theorem holds_update_of_ne (x : Option ServerItem) (h : o ≠ a) :
    Holds (Function.update m a x) link o ↔ m.Holds link o := by
  rw [Holds, Holds, Function.update_of_ne h]

theorem Holds.held (h : m.Holds link o) : ∃ item, m o = some item ∧ item.linkId = some link :=
  Option.bind_eq_some_iff.mp h

theorem not_holds_of_none (h : m o = none) : ¬ m.Holds link o := by
  rw [Holds, h]
  rintro ⟨⟩

/-- What a snapshot of `c` says is so: it lists members at the revision held, every one where it is
complete, and reports gone none that is held. -/
structure Tells (m : Servers) (c : ReplicaCollectionId) (snapshot : ReplicaRemoteSnapshot) :
    Prop where
  listed : ∀ h item, snapshot.reported h = some item →
    ∃ held, m ⟨c, h⟩ = some held ∧ item.revision = held.revision
  whole : snapshot.complete = true → ∀ h, (m ⟨c, h⟩).isSome → (snapshot.reported h).isSome
  vanished : ∀ h ∈ snapshot.vanished, m ⟨c, h⟩ = none

/-- What a server may turn down: a copy whose origin is gone, any upload, a remove of a member that
is no longer at the revision it names, and any change of flags or body. -/
def Refuses (m : Servers) (c : ReplicaCollectionId) : ReplicaChangeKind → Prop
  | .add _ _ _ (some origin) _ => m origin = none
  | .remove h _ _ ifMatch => ∃ item, m ⟨c, h⟩ = some item ∧ item.revision ≠ ifMatch
  | .add _ _ _ none _ | .setFlags .. | .update .. => True

/-- Serving one change of collection `c`, `fresh` telling the handles never used: accepted with a
result, or refused. A new member lands on a fresh handle, which the result may leave out. A remove
relocates only while its destination does not hold the link id it carries. -/
inductive Serves (fresh : ReplicaOrigin → Prop) (c : ReplicaCollectionId) (m : Servers) :
    ReplicaChangeKind → Option ReplicaPushResult → Servers → Prop
  | copied {h a : ReplicaHandle} {linkId : Option ReplicaLinkId} {flags : ReplicaFlags}
      {origin : ReplicaOrigin} {object : Option ReplicaHash} {r : ReplicaPushResult}
      {item : ServerItem} (revision : Option String) (held : m origin = some item)
      (vacant : m ⟨c, a⟩ = none) (new : fresh ⟨c, a⟩)
      (reports : r.assigned = none ∨ r.assigned = some a) :
      Serves fresh c m (.add h linkId flags (some origin) object) (some r)
        (Function.update m ⟨c, a⟩ (some { item with revision := revision }))
  | appended {h a : ReplicaHandle} {linkId : Option ReplicaLinkId} {flags : ReplicaFlags}
      {object : Option ReplicaHash} {r : ReplicaPushResult} (revision : Option String)
      (vacant : m ⟨c, a⟩ = none) (new : fresh ⟨c, a⟩)
      (reports : r.assigned = none ∨ r.assigned = some a) :
      Serves fresh c m (.add h linkId flags none object) (some r)
        (Function.update m ⟨c, a⟩ (some ⟨linkId, revision⟩))
  | removed {h : ReplicaHandle} {linkId : Option ReplicaLinkId} {ifMatch : Option String}
      {r : ReplicaPushResult} :
      Serves fresh c m (.remove h none linkId ifMatch) (some r) (Function.update m ⟨c, h⟩ none)
  | served {h : ReplicaHandle} {d : ReplicaCollectionId} {linkId : Option ReplicaLinkId}
      {ifMatch : Option String} {r : ReplicaPushResult} (holds : m.Served linkId d) :
      Serves fresh c m (.remove h (some d) linkId ifMatch) (some r)
        (Function.update m ⟨c, h⟩ none)
  | relocated {h g : ReplicaHandle} {d : ReplicaCollectionId} {linkId : Option ReplicaLinkId}
      {ifMatch : Option String} {r : ReplicaPushResult} {item : ServerItem}
      (revision : Option String) (lacks : ¬ m.Served linkId d) (held : m ⟨c, h⟩ = some item)
      (vacant : m ⟨d, g⟩ = none) (new : fresh ⟨d, g⟩) :
      Serves fresh c m (.remove h (some d) linkId ifMatch) (some r)
        (Function.update (Function.update m ⟨c, h⟩ none) ⟨d, g⟩
          (some { item with revision := revision }))
  | missing {h : ReplicaHandle} {d : ReplicaCollectionId} {linkId : Option ReplicaLinkId}
      {ifMatch : Option String} {r : ReplicaPushResult} (gone : m ⟨c, h⟩ = none) :
      Serves fresh c m (.remove h (some d) linkId ifMatch) (some r) m
  | flagged {h : ReplicaHandle} {flags : ReplicaFlags} {r : ReplicaPushResult} :
      Serves fresh c m (.setFlags h flags) (some r) m
  | updated {h : ReplicaHandle} {object : ReplicaHash} {ifMatch : Option String}
      {r : ReplicaPushResult} (revision : Option String) :
      Serves fresh c m (.update h object ifMatch) (some r) (Function.update m ⟨c, h⟩
        ((m ⟨c, h⟩).map (fun item => { item with revision := revision })))
  | refused {kind : ReplicaChangeKind} (refuses : m.Refuses c kind) : Serves fresh c m kind none m

/-- A change that neither delivers the item nor touches a member that does. -/
def Harmless (m : Servers) (link : ReplicaLinkId) (c : ReplicaCollectionId) :
    ReplicaChangeKind → Prop
  | .add _ _ _ (some origin) _ => ¬ m.Holds link origin
  | .add _ linkId _ none _ => linkId ≠ some link
  | .remove h _ _ _ => ¬ m.Holds link ⟨c, h⟩
  | .setFlags .. | .update .. => True

/-- Putting a member that does not deliver the item where none does moves no holder. -/
theorem holds_update_iff {x : Option ServerItem} (ha : ¬ m.Holds link a)
    (hx : x.bind (·.linkId) ≠ some link) (o : ReplicaOrigin) :
    Holds (Function.update m a x) link o ↔ m.Holds link o := by
  by_cases h : o = a
  · subst h
    rw [holds_update_self]
    exact ⟨fun hx' => absurd hx' hx, fun hm => absurd hm ha⟩
  · exact holds_update_of_ne x h

/-- Serving a harmless change leaves the item's members where they are. -/
theorem Serves.harmless {fresh : ReplicaOrigin → Prop} {r : Option ReplicaPushResult}
    (h : Serves fresh c m kind r m') (hk : m.Harmless link c kind) (o : ReplicaOrigin) :
    m'.Holds link o ↔ m.Holds link o := by
  have hnone : (Option.none : Option ServerItem).bind (·.linkId) ≠ some link := by simp
  cases h with
  | @copied _ _ _ _ _ _ _ item revision held vacant =>
    have hitem : ¬ m.Holds link _ := hk
    rw [Holds, held] at hitem
    exact holds_update_iff (x := some { item with revision := revision })
      (not_holds_of_none vacant) hitem o
  | @appended _ _ linkId _ _ _ revision vacant =>
    exact holds_update_iff (x := some ⟨linkId, revision⟩) (not_holds_of_none vacant) hk o
  | removed => exact holds_update_iff hk hnone o
  | served => exact holds_update_iff hk hnone o
  | @relocated h g d _ _ _ item revision _ held vacant =>
    have hitem : ¬ m.Holds link ⟨c, h⟩ := hk
    rw [Holds, held] at hitem
    have hleft := holds_update_iff (a := ⟨c, h⟩) hk hnone
    have hplaced := holds_update_iff (m := Function.update m ⟨c, h⟩ none) (a := ⟨d, g⟩)
      (x := some { item with revision := revision })
      (fun hg => not_holds_of_none vacant ((hleft _).mp hg)) hitem
    exact (hplaced o).trans (hleft o)
  | missing => exact Iff.rfl
  | flagged => exact Iff.rfl
  | @updated h object ifMatch _ revision =>
    by_cases ho : o = ⟨c, h⟩
    · subst ho
      rw [holds_update_self, Holds]
      cases m ⟨c, h⟩ <;> rfl
    · exact holds_update_of_ne _ ho
  | refused => exact Iff.rfl

/-- Serving a change leaves every member as it is but the one it names. -/
theorem Serves.keeps {fresh : ReplicaOrigin → Prop} {r : Option ReplicaPushResult}
    (h : Serves fresh c m kind r m') {item : ServerItem} (ho : m o = some item)
    (hne : o ≠ kind.locus c) : m' o = some item := by
  have hput : ∀ (m : Servers) (a : ReplicaOrigin) (x : Option ServerItem), m o = some item →
      o ≠ a → Function.update m a x o = some item := by
    intro m a x hm ha
    rwa [Function.update_of_ne ha]
  have hvacant : ∀ a, m a = none → o ≠ a := by
    rintro a ha rfl
    rw [ho] at ha
    cases ha
  cases h with
  | copied revision held vacant => exact hput _ _ _ ho (hvacant _ vacant)
  | appended revision vacant => exact hput _ _ _ ho (hvacant _ vacant)
  | removed => exact hput _ _ _ ho hne
  | served => exact hput _ _ _ ho hne
  | relocated revision lacks held vacant =>
    exact hput _ _ _ (hput _ _ _ ho hne) (hvacant _ vacant)
  | missing => exact ho
  | flagged => exact ho
  | updated => exact hput _ _ _ ho hne
  | refused => exact ho

/-- A handle that holds no member holds one after a change is served only if it was never used. -/
theorem Serves.lands {fresh : ReplicaOrigin → Prop} {r : Option ReplicaPushResult}
    (h : Serves fresh c m kind r m') (ho : m o = none) : m' o = none ∨ fresh o := by
  have hput : ∀ (m : Servers) (a : ReplicaOrigin) (x : Option ServerItem), m o = none →
      fresh a → Function.update m a x o = none ∨ fresh o := by
    intro m a x hm ha
    by_cases hoa : o = a
    · subst hoa
      exact Or.inr ha
    · rw [Function.update_of_ne hoa]
      exact Or.inl hm
  have hclear : ∀ a, Function.update m a none o = none := by
    intro a
    by_cases hoa : o = a
    · subst hoa
      rw [Function.update_self]
    · rwa [Function.update_of_ne hoa]
  cases h with
  | copied revision held vacant new => exact hput _ _ _ ho new
  | appended revision vacant new => exact hput _ _ _ ho new
  | removed => exact Or.inl (hclear _)
  | served => exact Or.inl (hclear _)
  | relocated revision lacks held vacant new => exact hput _ _ _ (hclear _) new
  | missing => exact Or.inl ho
  | flagged => exact Or.inl ho
  | @updated h object ifMatch _ revision =>
    by_cases hoa : o = ⟨c, h⟩
    · subst hoa
      rw [Function.update_self, ho]
      exact Or.inl rfl
    · rw [Function.update_of_ne hoa]
      exact Or.inl ho
  | refused => exact Or.inl ho

/-- A relocation takes the member off its source, where a member of the destination delivers the
item: one that did already, or else the member relocated. -/
theorem Serves.relocates {fresh : ReplicaOrigin → Prop} {r : Option ReplicaPushResult}
    {h : ReplicaHandle} {d : ReplicaCollectionId} {ifMatch : Option String}
    (hs : Serves fresh c m (.remove h (some d) (some link) ifMatch) r m')
    (hheld : m ⟨c, h⟩ = some ⟨some link, ifMatch⟩) (hdc : d ≠ c) : ∃ g,
    (∀ o, m'.Holds link o ↔ o = ⟨d, g⟩ ∨ (o ≠ ⟨c, h⟩ ∧ m.Holds link o)) ∧
      (m.Holds link ⟨d, g⟩ ∨ ((∀ g', ¬ m.Holds link ⟨d, g'⟩) ∧ fresh ⟨d, g⟩)) := by
  have hne : ∀ g, (⟨d, g⟩ : ReplicaOrigin) ≠ ⟨c, h⟩ :=
    fun g heq => hdc (congrArg ReplicaOrigin.collection heq)
  have hcleared : ∀ o, Holds (Function.update m ⟨c, h⟩ none) link o ↔
      o ≠ ⟨c, h⟩ ∧ m.Holds link o := by
    intro o
    by_cases ho : o = ⟨c, h⟩
    · subst ho
      simp [Holds, Function.update_self]
    · rw [holds_update_of_ne _ ho]
      exact ⟨fun hm => ⟨ho, hm⟩, And.right⟩
  cases hs with
  | served holds =>
    obtain ⟨l, g, hl, hg⟩ := holds
    cases hl
    refine ⟨g, fun o => (hcleared o).trans ⟨Or.inr, ?_⟩, Or.inl hg⟩
    rintro (rfl | ho)
    · exact ⟨hne g, hg⟩
    · exact ho
  | @relocated _ g _ _ _ _ item revision lacks held vacant new =>
    rw [hheld, Option.some.injEq] at held
    subst held
    refine ⟨g, fun o => ?_, Or.inr ⟨fun g' hg' => lacks ⟨link, g', rfl, hg'⟩, new⟩⟩
    by_cases ho : o = ⟨d, g⟩
    · subst ho
      simp [Holds, Function.update_self]
    · rw [holds_update_of_ne _ ho, hcleared o]
      exact ⟨Or.inr, fun hor => hor.resolve_left ho⟩
  | missing gone =>
    rw [hheld] at gone
    cases gone
  | refused refuses =>
    obtain ⟨item, hitem, hrev⟩ := refuses
    rw [hheld, Option.some.injEq] at hitem
    subst hitem
    exact absurd rfl hrev

/-- A copy of a member that delivers the item is accepted, and delivers it on a fresh handle. -/
theorem Serves.copies {fresh : ReplicaOrigin → Prop} {r : Option ReplicaPushResult}
    {h : ReplicaHandle} {linkId : Option ReplicaLinkId} {flags : ReplicaFlags}
    {object : Option ReplicaHash}
    (hs : Serves fresh c m (.add h linkId flags (some a) object) r m') (ha : m.Holds link a) :
    ∃ g result, r = some result ∧ fresh ⟨c, g⟩ ∧
      ∀ o, m'.Holds link o ↔ o = ⟨c, g⟩ ∨ m.Holds link o := by
  cases hs with
  | @copied _ g _ _ _ _ result item revision held vacant new =>
    refine ⟨g, result, rfl, new, fun o => ?_⟩
    rw [Holds, held] at ha
    by_cases ho : o = ⟨c, g⟩
    · subst ho
      rw [holds_update_self]
      exact ⟨fun _ => Or.inl rfl, fun _ => ha⟩
    · rw [holds_update_of_ne _ ho]
      exact ⟨Or.inr, fun hor => hor.resolve_left ho⟩
  | refused refuses =>
    rw [Refuses] at refuses
    exact absurd ha (not_holds_of_none refuses)

end Servers
end IoReplica

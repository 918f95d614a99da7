import IoReplica.Library.Tracking
import IoReplica.MemRemote
import IoReplica.Sync.Based

/-! The in-memory server shared: anyone's turn at it, and what it keeps track of through them. -/
namespace IoReplica

open Tracking (Tracked)

namespace MemRemote

variable {w w' : MemRemote} {c : ReplicaCollectionId} {o o' : ReplicaOrigin} {item : ServerItem}

theorem mem_removals_gone (w : MemRemote) (o : ReplicaOrigin) :
    (w.seq, o.handle) ∈ (w.gone o).removals o.collection := by
  simp [removals, gone]

theorem removals_gone_subset (w : MemRemote) (o : ReplicaOrigin) (c : ReplicaCollectionId) :
    w.removals c ⊆ (w.gone o).removals c := by
  simp only [removals, gone, OrderedMap.get_insert]
  split
  · rename_i hc
    subst hc
    exact List.subset_append_left _ _
  · exact List.Subset.refl _

/-- What a collection of the server tracks. -/
def track (w : MemRemote) (c : ReplicaCollectionId) : Tracked ReplicaHandle where
  clock := w.seq
  stamp h := (w.member ⟨c, h⟩).map (·.seq)
  removals := {e | e ∈ w.removals c}

/-- A server later on: each collection is. -/
def Later (w w' : MemRemote) : Prop := ∀ c, (w.track c).Later (w'.track c)

theorem Later.refl (w : MemRemote) : w.Later w := fun c => .refl (w.track c)

theorem Later.trans {w'' : MemRemote} (h : w.Later w') (h' : w'.Later w'') : w.Later w'' :=
  fun c => (h c).trans (h' c)

/-- Each member is as it was, or stamped past the clock, or gone on record. -/
structure Moves (w w' : MemRemote) : Prop where
  clock : w.seq ≤ w'.seq
  recorded : ∀ c, w.removals c ⊆ w'.removals c
  members : ∀ o, w'.member o = w.member o ∨
    (∃ item, w'.member o = some item ∧ w.seq < item.seq) ∨
    w'.member o = none ∧ ∃ n, w.seq < n ∧ (n, o.handle) ∈ w'.removals o.collection

theorem Moves.later (h : w.Moves w') : w.Later w' := by
  intro c
  refine ⟨h.clock, fun k n hk hn => ?_, fun k hlive hgone => ?_, h.recorded c⟩
  · obtain ⟨item, hitem, rfl⟩ := Option.map_eq_some_iff.mp hk
    rcases h.members ⟨c, k⟩ with hsame | ⟨item', hitem', hpast⟩ | ⟨hnone, -⟩
    · exact Option.map_eq_some_iff.mpr ⟨item, hsame.symm.trans hitem, rfl⟩
    · rw [hitem, Option.some.injEq] at hitem'
      subst hitem'
      exact absurd hn (not_le.mpr hpast)
    · rw [hitem] at hnone
      cases hnone
  · have hnone : w'.member ⟨c, k⟩ = none := Option.map_eq_none_iff.mp hgone
    have hsome : (w.member ⟨c, k⟩).isSome := Option.isSome_map.symm.trans hlive
    rcases h.members ⟨c, k⟩ with hsame | ⟨item', hitem', -⟩ | ⟨-, hrecord⟩
    · rw [← hsame, hnone] at hsome
      cases hsome
    · rw [hnone] at hitem'
      cases hitem'
    · exact hrecord

theorem moves_bump (w : MemRemote) : w.Moves w.bump :=
  ⟨Nat.le_succ _, fun _ => List.Subset.refl _, fun _ => Or.inl rfl⟩

/-- A member put, stamped past the clock it all started at. -/
theorem Moves.put (h : w.Moves w') (o : ReplicaOrigin) (hitem : w.seq < item.seq) :
    w.Moves (w'.put o item) := by
  refine ⟨h.clock, h.recorded, fun o' => ?_⟩
  rw [member_put]
  split
  · exact Or.inr (Or.inl ⟨item, rfl, hitem⟩)
  · exact h.members o'

/-- Taking a member out, on record. -/
theorem moves_take (w : MemRemote) (o : ReplicaOrigin) : w.Moves ((w.bump.take o).gone o) := by
  refine ⟨Nat.le_succ _, fun c => ?_, fun o' => ?_⟩
  · exact removals_gone_subset (w.bump.take o) o c
  · have hmember : ((w.bump.take o).gone o).member o' = if o = o' then none else w.member o' :=
      member_take w.bump o o'
    rw [hmember]
    split
    · rename_i ho
      subst ho
      exact Or.inr (Or.inr ⟨rfl, w.seq + 1, Nat.lt_succ_self _, mem_removals_gone (w.bump.take o) o⟩)
    · exact Or.inl rfl

theorem Moves.refl (w : MemRemote) : w.Moves w :=
  ⟨le_rfl, fun _ => List.Subset.refl _, fun _ => Or.inl rfl⟩

theorem serve_moves (w : MemRemote) (c : ReplicaCollectionId) (kind : ReplicaChangeKind) :
    w.Moves (w.serve c kind).1 := by
  have hbump := moves_bump w
  have hlt : w.seq < w.bump.seq := Nat.lt_succ_self _
  cases kind with
  | setFlags h flags =>
    simp only [serve, serveSetFlags]
    split
    · exact hbump.put _ hlt
    · exact hbump
  | remove h dest linkId ifMatch =>
    simp only [serve, serveRemove]
    split
    · exact hbump
    · split
      · exact .refl w
      · split
        · exact moves_take w ⟨c, h⟩
        · exact (moves_take w ⟨c, h⟩).put _ hlt
  | update h object ifMatch =>
    simp only [serve, serveUpdate]
    split
    · exact .refl w
    · split
      · exact .refl w
      · exact hbump.put _ hlt
  | add h linkId flags origin object =>
    simp only [serve, serveAdd]
    split
    · exact .refl w
    · split
      · split
        · exact .refl w
        · exact hbump.put _ hlt
      · split
        · exact .refl w
        · have happended : w.Moves { w.bump with nextAppended := w.nextAppended + 1 } :=
            ⟨Nat.le_succ _, fun _ => List.Subset.refl _, fun _ => Or.inl rfl⟩
          exact happended.put _ hlt

/-- Anyone's turn at the server: a change made on it, or a request someone else has served, a push
change by change. It never names a member with the separator a keep-both fork is named with. -/
inductive Turn : MemRemote → MemRemote → Prop
  | seed (w : MemRemote) (c : ReplicaCollectionId) {h : ReplicaHandle} (plain : h.Plain)
      (link : ReplicaLinkId) (flags : Finset String) (body : List UInt8) :
      Turn w (w.seed c h link flags body)
  | setFlags {w w' : MemRemote} {c : ReplicaCollectionId} {h : ReplicaHandle} {flags : Finset String}
      (set : w.setFlags c h flags = some w') : Turn w w'
  | edit {w w' : MemRemote} {c : ReplicaCollectionId} {h : ReplicaHandle} {body : List UInt8}
      (edited : w.edit c h body = some w') : Turn w w'
  | remove {w w' : MemRemote} {c : ReplicaCollectionId} {h : ReplicaHandle}
      (removed : w.remove c h = some w') : Turn w w'
  | enumerate (w : MemRemote) (c : ReplicaCollectionId) (cursor : Option ReplicaCheckpoint) :
      Turn w (w.enumerate c cursor).1
  | fetch (w : MemRemote) (c : ReplicaCollectionId) (handles : List ReplicaHandle)
      (tier : ReplicaTier) : Turn w (w.fetch c handles tier).1
  | receive (w : MemRemote) (changes : List ReplicaChange) :
      Turn w { w with calls := w.calls + 1, pushBatches := w.pushBatches ++ [changes.length] }
  | serve (w : MemRemote) (c : ReplicaCollectionId) (kind : ReplicaChangeKind) :
      Turn w (w.serve c kind).1

/-- Any number of turns of others. -/
abbrev Elsewhere : MemRemote → MemRemote → Prop := Relation.ReflTransGen Turn

/-- A result is that of one change of its batch, served somewhere along the way. -/
inductive Answered (w w' : MemRemote) (c : ReplicaCollectionId) (changes : List ReplicaChange)
    (r : ReplicaPushResult) : Prop
  | served {v : MemRemote} {change : ReplicaChange} (mem : change ∈ changes)
      (earlier : Elsewhere w v) (result : (v.serve c change.kind).2 = r)
      (later : Elsewhere (v.serve c change.kind).1 w') : Answered w w' c changes r

theorem Answered.widen {w₀ w₁ : MemRemote} {changes : List ReplicaChange} {r : ReplicaPushResult}
    (h : Answered w w' c changes r) (hw : Elsewhere w₀ w) (hw' : Elsewhere w' w₁) :
    Answered w₀ w₁ c changes r := by
  obtain ⟨mem, earlier, result, later⟩ := h
  exact .served mem (hw.trans earlier) result (later.trans hw')

theorem serveAll_turns (c : ReplicaCollectionId) (changes : List ReplicaChange) (w : MemRemote) :
    Elsewhere w (serveAll c changes w).1 ∧
      ∀ r ∈ (serveAll c changes w).2, Answered w (serveAll c changes w).1 c changes r := by
  induction changes generalizing w with
  | nil => exact ⟨.refl, fun r hr => by cases hr⟩
  | cons change changes ih =>
    obtain ⟨hrest, hanswers⟩ := ih (w.serve c change.kind).1
    have hfirst : Turn w (w.serve c change.kind).1 := .serve w c change.kind
    refine ⟨.head hfirst hrest, fun r hr => ?_⟩
    rcases List.mem_cons.mp hr with rfl | hr
    · exact .served List.mem_cons_self .refl rfl hrest
    · obtain ⟨mem, earlier, result, later⟩ := hanswers r hr
      exact .served (List.mem_cons_of_mem _ mem) (.head hfirst earlier) result later

/-- A push is a turn for each of its changes. -/
theorem push_turns (w : MemRemote) (c : ReplicaCollectionId) (changes : List ReplicaChange) :
    Elsewhere w (w.push c changes).1 ∧
      ∀ r ∈ (w.push c changes).2, Answered w (w.push c changes).1 c changes r := by
  have hreceived := Turn.receive w changes
  obtain ⟨hall, hanswers⟩ := serveAll_turns c changes
    { w with calls := w.calls + 1, pushBatches := w.pushBatches ++ [changes.length] }
  exact ⟨.head hreceived hall, fun r hr => (hanswers r hr).widen (.single hreceived) .refl⟩

/-- The counter value a cursor names. -/
def since (cursor : Option ReplicaCheckpoint) : Option ℕ :=
  cursor.bind (fun cursor => parseUsize cursor.bytes)

theorem since_checkpoint {w : MemRemote} {c : ReplicaCollectionId}
    {cursor : Option ReplicaCheckpoint} {s : ℕ}
    (h : since (some (w.enumerate c cursor).2.checkpoint) = some s) : s = w.seq := by
  have hcheckpoint : (w.enumerate c cursor).2.checkpoint = ⟨asBytes (toString w.seq)⟩ := by
    simp only [enumerate]
    split <;> rfl
  rw [since, Option.bind_some, hcheckpoint, parseUsize_toString] at h
  split at h
  · exact (Option.some.inj h).symm
  · cases h

section Enumerate

variable {cursor : Option ReplicaCheckpoint} {h : ReplicaHandle}

theorem member_toList (w : MemRemote) (c : ReplicaCollectionId) (h : ReplicaHandle)
    (item : ServerItem) : (h, item) ∈ (w.members c).toList ↔ w.member ⟨c, h⟩ = some item :=
  OrderedMap.mem_toList_iff _ _ _

/-- A full enumeration lists what is live. -/
theorem enumerate_full (hs : since cursor = none) :
    (w.enumerate c cursor).2.complete = true ∧
      ∀ h, ((w.enumerate c cursor).2.reported h).isSome ↔ h ∈ (w.track c).live := by
  rw [since] at hs
  simp only [enumerate, hs]
  refine ⟨trivial, fun h => ?_⟩
  rw [ReplicaRemoteSnapshot.reported, List.find?_isSome]
  simp only [List.mem_map, decide_eq_true_eq]
  constructor
  · rintro ⟨-, ⟨⟨h', item⟩, hmem, rfl⟩, rfl⟩
    exact Option.isSome_map.trans (Option.isSome_of_eq_some ((member_toList w c _ item).mp hmem))
  · intro hlive
    have hsome : (w.member ⟨c, h⟩).isSome := Option.isSome_map.symm.trans hlive
    obtain ⟨item, hitem⟩ := Option.isSome_iff_exists.mp hsome
    exact ⟨_, ⟨(h, item), (member_toList w c h item).mpr hitem, rfl⟩, rfl⟩

/-- A delta lists what changed since its cursor, and reports what vanished since. -/
theorem enumerate_delta {s : ℕ} (hs : since cursor = some s) :
    (w.enumerate c cursor).2.complete = false ∧
      (∀ h, ((w.enumerate c cursor).2.reported h).isSome ↔ h ∈ (w.track c).changed s) ∧
      ∀ h, h ∈ (w.enumerate c cursor).2.vanished ↔ h ∈ (w.track c).vanished s := by
  rw [since] at hs
  simp only [enumerate, hs]
  refine ⟨trivial, fun h => ?_, fun h => ?_⟩
  · rw [ReplicaRemoteSnapshot.reported, List.find?_isSome]
    simp only [List.mem_map, List.mem_filter, decide_eq_true_eq]
    constructor
    · rintro ⟨-, ⟨⟨h', item⟩, ⟨hmem, hpast⟩, rfl⟩, rfl⟩
      exact ⟨item.seq, Option.map_eq_some_iff.mpr ⟨item, (member_toList w c _ item).mp hmem, rfl⟩, hpast⟩
    · rintro ⟨n, hn, hpast⟩
      obtain ⟨item, hitem, rfl⟩ := Option.map_eq_some_iff.mp hn
      exact ⟨_, ⟨(h, item), ⟨(member_toList w c h item).mpr hitem, hpast⟩, rfl⟩, rfl⟩
  · simp only [List.mem_map, List.mem_filter, decide_eq_true_eq]
    constructor
    · rintro ⟨⟨n, h'⟩, ⟨hmem, hpast, hnone⟩, rfl⟩
      exact ⟨Option.map_eq_none_iff.mpr hnone, n, hpast, hmem⟩
    · rintro ⟨hnone, n, hpast, hmem⟩
      exact ⟨(n, h), ⟨hmem, hpast, Option.map_eq_none_iff.mp hnone⟩, rfl⟩

end Enumerate

section Results

variable {v : MemRemote} {h a : ReplicaHandle}

theorem serve_handle (v : MemRemote) (c : ReplicaCollectionId) (kind : ReplicaChangeKind) :
    (v.serve c kind).2.handle = kind.handle := by
  cases kind with
  | setFlags h flags =>
    simp only [serve, serveSetFlags]
    split <;> rfl
  | remove h dest linkId ifMatch =>
    simp only [serve, serveRemove]
    split
    · rfl
    · split
      · rfl
      · split <;> rfl
  | update h object ifMatch =>
    simp only [serve, serveUpdate]
    split
    · rfl
    · split <;> rfl
  | add h linkId flags origin object =>
    simp only [serve, serveAdd]
    split
    · rfl
    · split
      · split <;> rfl
      · split <;> rfl

theorem suffixed_ne (h : ReplicaHandle) (suffix : String) (hs : suffix.length ≠ 0) :
    (⟨h.asStr ++ suffix⟩ : ReplicaHandle) ≠ h := by
  intro heq
  have hlen := congrArg (fun x : ReplicaHandle => x.asStr.length) heq
  simp only [String.length_append] at hlen
  omega

/-- A remove accepted left no member at its handle. -/
theorem serve_removed {dest : Option ReplicaCollectionId} {linkId : Option ReplicaLinkId}
    {ifMatch : Option String}
    (hr : (v.serve c (.remove h dest linkId ifMatch)).2.outcome = .accepted) :
    (v.serve c (.remove h dest linkId ifMatch)).1.member ⟨c, h⟩ = none := by
  have htaken : ((v.bump.take ⟨c, h⟩).gone ⟨c, h⟩).member ⟨c, h⟩ = none :=
    (member_take v.bump ⟨c, h⟩ ⟨c, h⟩).trans (if_pos rfl)
  cases hitem : v.member ⟨c, h⟩ with
  | none =>
    simp only [serve, serveRemove, hitem]
    exact hitem
  | some item =>
    cases hstale : v.stale item ifMatch with
    | true =>
      simp only [serve, serveRemove, hitem, hstale, if_true] at hr
      cases hr
    | false =>
      simp only [serve, serveRemove, hitem, hstale, Bool.false_eq_true, if_false]
      split
      · exact htaken
      · rw [member_put, if_neg ?_]
        · exact htaken
        · intro heq
          exact suffixed_ne h "-moved" (by decide) (congrArg ReplicaOrigin.handle heq)

/-- A handle assigned is that of the member just put there. -/
theorem serve_assigned {kind : ReplicaChangeKind} (hr : (v.serve c kind).2.assigned = some a) :
    ((v.serve c kind).1.member ⟨c, a⟩).isSome := by
  cases kind with
  | setFlags h flags =>
    simp only [serve, serveSetFlags] at hr
    split at hr <;> cases hr
  | remove h dest linkId ifMatch =>
    simp only [serve, serveRemove] at hr
    split at hr
    · cases hr
    · split at hr
      · cases hr
      · split at hr <;> cases hr
  | update h object ifMatch =>
    simp only [serve, serveUpdate] at hr
    split at hr
    · cases hr
    · split at hr <;> cases hr
  | add h linkId flags origin object =>
    simp only [serve, serveAdd] at hr ⊢
    split at hr
    · cases hr
    · rename_i hallowed
      rw [if_neg hallowed]
      split at hr
      · split at hr
        · cases hr
        · cases hr
          dsimp only
          rw [member_put, if_pos rfl]
          rfl
      · split at hr
        · cases hr
        · cases hr
          dsimp only
          rw [member_put, if_pos rfl]
          rfl

end Results

section Plain

/-- Every member's handle is plain. -/
def AllPlain (w : MemRemote) : Prop := ∀ o, (w.member o).isSome → o.handle.Plain

theorem plain_append {h : ReplicaHandle} (hh : h.Plain) (suffix : String)
    (hs : '\x01' ∉ suffix.toList) : (⟨h.asStr ++ suffix⟩ : ReplicaHandle).Plain := by
  rw [ReplicaId.Plain, String.toList_append, List.mem_append]
  rintro (hmem | hmem)
  · exact hh hmem
  · exact hs hmem

theorem plain_number (n : ℕ) : '\x01' ∉ (toString n).toList := by
  rw [Nat.toString_eq_repr, Nat.toList_repr]
  intro hmem
  exact absurd (Nat.isDigit_of_mem_toDigits (by decide) (by decide) hmem) (by decide)

theorem AllPlain.put (hw : w.AllPlain) (ho : o.handle.Plain) (item : ServerItem) :
    (w.put o item).AllPlain := by
  intro o' ho'
  rw [member_put] at ho'
  split at ho'
  · rename_i heq
    exact heq ▸ ho
  · exact hw o' ho'

theorem AllPlain.take (hw : w.AllPlain) (o : ReplicaOrigin) : (w.take o).AllPlain := by
  intro o' ho'
  rw [member_take] at ho'
  split at ho'
  · cases ho'
  · exact hw o' ho'

theorem AllPlain.serve (hw : w.AllPlain) (c : ReplicaCollectionId) (kind : ReplicaChangeKind) :
    (w.serve c kind).1.AllPlain := by
  cases kind with
  | setFlags h flags =>
    simp only [MemRemote.serve, serveSetFlags]
    split
    · rename_i item hitem
      exact AllPlain.put (w := w.bump) hw (hw ⟨c, h⟩ (Option.isSome_of_eq_some hitem)) _
    · exact hw
  | remove h dest linkId ifMatch =>
    simp only [MemRemote.serve, serveRemove]
    split
    · exact hw
    · rename_i item hitem
      have hh := hw ⟨c, h⟩ (Option.isSome_of_eq_some hitem)
      have htaken : ((w.bump.take ⟨c, h⟩).gone ⟨c, h⟩).AllPlain := AllPlain.take (w := w.bump) hw ⟨c, h⟩
      split
      · exact hw
      · split
        · exact htaken
        · exact htaken.put (plain_append hh "-moved" (by decide)) _
  | update h object ifMatch =>
    simp only [MemRemote.serve, serveUpdate]
    split
    · exact hw
    · rename_i item hitem
      split
      · exact hw
      · exact AllPlain.put (w := w.bump) hw (hw ⟨c, h⟩ (Option.isSome_of_eq_some hitem)) _
  | add h linkId flags origin object =>
    simp only [MemRemote.serve, serveAdd]
    split
    · exact hw
    · split
      · rename_i o
        split
        · exact hw
        · rename_i item hitem
          have ho := hw o (Option.isSome_of_eq_some hitem)
          exact AllPlain.put (w := w.bump) hw (o := ⟨c, _⟩) (plain_append ho "-copy" (by decide)) _
      · split
        · exact hw
        · have happ : (⟨"app-"⟩ : ReplicaHandle).Plain := by
            rw [ReplicaId.Plain]
            decide
          have hnew : (⟨"app-" ++ toString (w.nextAppended + 1)⟩ : ReplicaHandle).Plain :=
            plain_append happ _ (plain_number _)
          exact AllPlain.put (w := { w.bump with nextAppended := w.nextAppended + 1 }) hw
            (o := ⟨c, _⟩) hnew _

end Plain

/-- The server moved on: it kept track of what changed, and its members' handles stayed plain. -/
structure Leads (w w' : MemRemote) : Prop where
  later : w.Later w'
  plain : w.AllPlain → w'.AllPlain

theorem Leads.refl (w : MemRemote) : w.Leads w := ⟨.refl w, id⟩

theorem Leads.trans {w'' : MemRemote} (h : w.Leads w') (h' : w'.Leads w'') : w.Leads w'' :=
  ⟨h.later.trans h'.later, h'.plain ∘ h.plain⟩

theorem serve_leads (w : MemRemote) (c : ReplicaCollectionId) (kind : ReplicaChangeKind) :
    w.Leads (w.serve c kind).1 := ⟨(w.serve_moves c kind).later, fun hw => hw.serve c kind⟩

theorem enumerate_leads (w : MemRemote) (c : ReplicaCollectionId)
    (cursor : Option ReplicaCheckpoint) : w.Leads (w.enumerate c cursor).1 := by
  simp only [enumerate]
  split <;> exact ⟨fun c => .refl (w.track c), fun hw => hw⟩

theorem Turn.leads (h : Turn w w') : w.Leads w' := by
  have hlt : w.seq < w.bump.seq := Nat.lt_succ_self _
  cases h with
  | seed c plain link flags body =>
    exact ⟨((moves_bump w).put _ hlt).later, fun hw => AllPlain.put (w := w.bump) hw plain _⟩
  | @setFlags _ c h flags set =>
    obtain ⟨item, hitem, rfl⟩ := Option.map_eq_some_iff.mp set
    refine ⟨((moves_bump w).put _ hlt).later, fun hw => ?_⟩
    exact AllPlain.put (w := w.bump) hw (hw ⟨c, h⟩ (Option.isSome_of_eq_some hitem)) _
  | @edit _ c h body edited =>
    obtain ⟨item, hitem, rfl⟩ := Option.map_eq_some_iff.mp edited
    refine ⟨((moves_bump w).put _ hlt).later, fun hw => ?_⟩
    exact AllPlain.put (w := w.bump) hw (hw ⟨c, h⟩ (Option.isSome_of_eq_some hitem)) _
  | remove removed =>
    obtain ⟨item, hitem, rfl⟩ := Option.map_eq_some_iff.mp removed
    exact ⟨(moves_take w _).later, fun hw => AllPlain.take (w := w.bump) hw _⟩
  | enumerate c cursor => exact enumerate_leads w c cursor
  | fetch c handles tier => exact ⟨fun c => .refl (w.track c), fun hw => hw⟩
  | receive changes => exact ⟨fun c => .refl (w.track c), fun hw => hw⟩
  | serve c kind => exact serve_leads w c kind

theorem Elsewhere.leads (h : Elsewhere w w') : w.Leads w' := by
  induction h with
  | refl => exact .refl w
  | tail _ turn ih => exact ih.trans turn.leads

end MemRemote

section Shares

open MemRemote

/-- A reply of the shared server: served after any turns of others, or lost. -/
def MemRemote.Replied {α ε : Type} (w w' : MemRemote) (served : MemRemote → MemRemote × α) :
    Except ε α → Prop
  | .ok x => ∃ v, Elsewhere w v ∧ served v = (w', x)
  | .error _ => Elsewhere w w'

/-- A remote whose requests reach a server others use as well. A request that failed was served as
anyone's, or not at all. -/
class Shares (R : Type) [ReplicaRemote R] where
  server : R → MemRemote
  enumerates : ∀ (r : R) (c : ReplicaCollectionId) (cursor : Option ReplicaCheckpoint),
    (server r).Replied (server (ReplicaRemote.enumerate r c cursor).1) (fun v => v.enumerate c cursor)
      (ReplicaRemote.enumerate r c cursor).2
  fetches : ∀ (r : R) (c : ReplicaCollectionId) (handles : List ReplicaHandle) (tier : ReplicaTier),
    (server r).Replied (server (ReplicaRemote.fetch r c handles tier).1)
      (fun v => v.fetch c handles tier) (ReplicaRemote.fetch r c handles tier).2
  pushes : ∀ (r : R) (c : ReplicaCollectionId) (changes : List ReplicaChange),
    (server r).Replied (server (ReplicaRemote.push r c changes).1) (fun v => v.push c changes)
      (ReplicaRemote.push r c changes).2

/-- The server on its own, with nobody else at it. -/
instance : Shares MemRemote where
  server w := w
  enumerates w _ _ := ⟨w, .refl, rfl⟩
  fetches w _ _ _ := ⟨w, .refl, rfl⟩
  pushes w _ _ := ⟨w, .refl, rfl⟩

end Shares
end IoReplica

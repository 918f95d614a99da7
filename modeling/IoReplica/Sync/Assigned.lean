import IoReplica.Sync.Protocol

/-! The row an accepted create leaves under the handle its remote assigned it. -/
namespace IoReplica

/-- The changes the remote accepted, each with the result that says so, in the order it served them. -/
def Transcript.accepted (t : Transcript) : List (ReplicaChangeKind × ReplicaPushResult) :=
  t.pushes.flatMap (fun e => e.1.filterMap (fun k =>
    (e.2.find? (fun r => r.confirms k.handle)).map (fun r => (k.kind, r))))

namespace Transcript
variable {t : Transcript}

theorem mem_accepted {kind : ReplicaChangeKind} {r : ReplicaPushResult}
    (h : (kind, r) ∈ t.accepted) : ∃ e ∈ t.pushes, ∃ k ∈ e.1, k.kind = kind ∧
      e.2.find? (fun r => r.confirms k.handle) = some r := by
  obtain ⟨e, he, hmem⟩ := List.mem_flatMap.mp h
  obtain ⟨k, hk, hfind⟩ := List.mem_filterMap.mp hmem
  obtain ⟨q, hq, heq⟩ := Option.map_eq_some_iff.mp hfind
  cases heq
  exact ⟨e, he, k, hk, rfl, hq⟩

/-- An accepted change is one the run derived. -/
theorem mem_changes_of_accepted {kind : ReplicaChangeKind} {r : ReplicaPushResult}
    (h : (kind, r) ∈ t.accepted) : ∃ k ∈ t.changes, k.kind = kind ∧ r.handle = k.handle := by
  obtain ⟨e, he, k, hk, hkind, hfind⟩ := mem_accepted h
  have hconfirms : r.confirms k.handle = true := by simpa using List.find?_some hfind
  exact ⟨k, List.mem_flatten_of_mem (List.mem_map_of_mem he) hk, hkind,
    (of_decide_eq_true hconfirms).2⟩

/-- A handle is accepted once at most where the changes name it once. -/
theorem accepted_nodup (h : (t.changes.map (fun k => k.handle)).Nodup) :
    (t.accepted.map (fun k => k.1.handle)).Nodup := by
  have hchunk : ∀ (rs : List ReplicaPushResult) (ks : List ReplicaChange),
      ((ks.filterMap (fun k => (rs.find? (fun r => r.confirms k.handle)).map
        (fun r => (k.kind, r)))).map (fun k => k.1.handle)).Sublist
          (ks.map (fun k => k.handle)) := by
    intro rs ks
    induction ks with
    | nil => exact .slnil
    | cons k ks ih =>
      cases hf : rs.find? (fun r => r.confirms k.handle) with
      | none =>
        rw [List.filterMap_cons_none (by rw [hf]; rfl)]
        exact ih.cons _
      | some r =>
        rw [List.filterMap_cons_some (by rw [hf]; rfl)]
        exact ih.cons_cons _
  refine List.Sublist.nodup ?_ h
  rw [changes, accepted]
  induction t.pushes with
  | nil => exact .slnil
  | cons e es ih =>
    rw [List.flatMap_cons, List.map_append, List.map_cons, List.flatten_cons, List.map_append]
    exact (hchunk e.2 e.1).append ih

end Transcript

/-- A completed run names a handle in one change at most. -/
theorem Syncs.changes_nodup {collection : ReplicaCollectionId} {opts : ReplicaSyncOptions}
    {loaded : ReplicaLoaded} {snapshot : ReplicaRemoteSnapshot} {t : Transcript}
    (h : Syncs collection opts loaded snapshot t) : (t.changes.map (fun k => k.handle)).Nodup := by
  obtain ⟨box, hwhole⟩ := h.whole
  obtain ⟨hasc, hpaired, -⟩ :=
    Merge.candidates_spec (CollectionRows.ofLoad loaded.placements) snapshot
  have hordered := derivedChanges_ordered collection opts hpaired hasc
  rw [hwhole.changes, List.Nodup, List.pairwise_map]
  exact hordered.imp (fun hlt => ne_of_lt hlt)

namespace Outbox
variable {collection : ReplicaCollectionId} {box : Outbox}

/-- Where no reply accepts a change still queued, an accepted change is recorded with the result of
its own chunk. -/
theorem confirmation_own {es : List PushExchange}
    (haccepts : ∀ pre d post, es = pre ++ d :: post → ∀ r ∈ d.2, r.outcome = .accepted →
      ∀ e ∈ post, r.handle ∉ e.1.map (fun k => k.handle))
    (hdistinct : ((es.map (·.1)).flatten.map (fun k => k.handle)).Nodup) {e : PushExchange}
    (he : e ∈ es) {k : ReplicaChange} (hk : k ∈ e.1) :
    confirmation k.handle es = e.2.find? (fun r => r.confirms k.handle) := by
  induction es with
  | nil => cases he
  | cons d es ih =>
    rw [List.map_cons, List.flatten_cons, List.map_append, List.nodup_append] at hdistinct
    obtain ⟨-, hrest, hapart⟩ := hdistinct
    simp only [confirmation, awaited]
    rcases List.mem_cons.mp he with rfl | he
    · rw [if_pos (List.mem_map_of_mem hk)]
    · have hlater : k.handle ∈ (es.map (·.1)).flatten.map (fun k => k.handle) :=
        List.mem_map_of_mem (List.mem_flatten_of_mem (List.mem_map_of_mem he) hk)
      rw [if_neg (fun hin => hapart _ hin _ hlater rfl)]
      have hnone : d.2.find? (fun r => r.confirms k.handle) = none := by
        rw [List.find?_eq_none]
        intro r hr hc
        obtain ⟨ho, hh⟩ := of_decide_eq_true hc
        exact haccepts [] d es rfl r hr ho e he (hh ▸ List.mem_map_of_mem hk)
      rw [List.find?_append, hnone]
      refine ih (fun pre f post hes => ?_) hrest he
      exact haccepts (d :: pre) f post (by rw [hes]; rfl)

/-- A reply that names its own chunk alone accepts no change still queued. -/
theorem confirmation_of_accepted {es : List PushExchange}
    (hnamed : ∀ e ∈ es, ∀ r ∈ e.2, r.handle ∈ e.1.map (fun k => k.handle))
    (hdistinct : ((es.map (·.1)).flatten.map (fun k => k.handle)).Nodup)
    {e : PushExchange} (he : e ∈ es) {k : ReplicaChange} (hk : k ∈ e.1) :
    confirmation k.handle es = e.2.find? (fun r => r.confirms k.handle) := by
  refine confirmation_own (fun pre d post hes r hr _ e' he' hlater => ?_) hdistinct he hk
  have hown := hnamed d (hes ▸ List.mem_append_right _ List.mem_cons_self) r hr
  rw [hes, List.map_append, List.map_cons, List.flatten_append, List.flatten_cons, List.map_append,
    List.map_append] at hdistinct
  obtain ⟨-, -, hapart⟩ := List.nodup_append.mp (List.nodup_append.mp hdistinct).2.1
  obtain ⟨k', hk', hkh⟩ := List.mem_map.mp hlater
  have hqueued : r.handle ∈ (post.map (·.1)).flatten.map (fun k => k.handle) :=
    hkh ▸ List.mem_map_of_mem (List.mem_flatten_of_mem (List.mem_map_of_mem he') hk')
  exact hapart _ hown _ hqueued rfl

/-- Results that assign `a` to no create awaited write nothing under it. -/
theorem rowAfter_recordAll_unassigned {h a : ReplicaHandle} (hplaced : ∀ g, (box g).Placed g)
    (ha : box a = .none) (hcreated : (box h).created = none) (es : List PushExchange)
    (honly : ∀ e ∈ es, ∀ r ∈ e.2, r.assigned = some a → r.handle = h)
    (init : Option ReplicaPlacement) :
    rowAfter a init (recordAll collection box es) = init := by
  apply rowAfter_of_ne
  intro op hop heq
  obtain ⟨r, ⟨e, he, hr⟩, -, hop⟩ := recordAll_mem es hop
  rcases record_row (hplaced r.handle) hop with hrow | ⟨hrow, hsome⟩
  · have hra : r.handle = a := Option.some.inj (hrow.symm.trans heq)
    rw [hra, ha, Pending.record_none] at hop
    cases hop
  · rw [honly e he r hr (hrow.symm.trans heq), hcreated] at hsome
    cases hsome

/-- One chunk's results leave the row of an assigned handle as the create's result does. -/
theorem settleAll_assigned {h a : ReplicaHandle} (hne : h ≠ a) {p : ReplicaPlacement}
    (hplaced : ∀ g, (box g).Placed g) (ha : box a = .none)
    (hbox : box h = { Pending.none with created := some p }) (rs : List ReplicaPushResult)
    (honly : ∀ r ∈ rs, r.assigned = some a → r.handle = h)
    {r : ReplicaPushResult} (hfind : rs.find? (fun r => r.confirms h) = some r)
    (hr : r.assigned = some a) (init : Option ReplicaPlacement) :
    rowAfter a init (settleAll collection box rs).2 =
      some (ReplicaSync.rekeyedPlacement p a r.revision) := by
  induction rs generalizing box init with
  | nil => cases hfind
  | cons q rs ih =>
    have honly' : ∀ r ∈ rs, r.assigned = some a → r.handle = h :=
      fun r hr => honly r (List.mem_cons_of_mem _ hr)
    obtain ⟨hplaced', -, -⟩ := settle_spec collection (h := q.handle) hplaced q
      (fun hc => absurd rfl hc)
    simp only [settleAll, rowAfter_append]
    cases hq : q.confirms h with
    | true =>
      rw [List.find?_cons, hq] at hfind
      cases hfind
      obtain ⟨houtcome, hrh⟩ := of_decide_eq_true hq
      have hsettle : settle collection box r = (Function.update box h .none,
          Pending.recordCreate collection r p) := by
        simp only [settle, houtcome, hrh, hbox]
        simp [Pending.record, Pending.none]
      have hrekeyed : (ReplicaSync.rekeyedPlacement p a r.revision).handle = a := rfl
      have hdropped : p.handle = h := by
        have hp := (hplaced h).created p (by rw [hbox])
        exact hp
      have hone : rowAfter a init (settle collection box r).2 =
          some (ReplicaSync.rekeyedPlacement p a r.revision) := by
        rw [hsettle]
        simp [Pending.recordCreate, hr, hdropped, hne, hrekeyed]
      rw [hone]
      have hrest : recordAll collection (settle collection box r).1 [([], rs)] =
          (settleAll collection (settle collection box r).1 rs).2 := by
        simp [recordAll]
      rw [← hrest]
      refine rowAfter_recordAll_unassigned (h := h) hplaced' ?_ ?_ _ ?_ _
      · rw [hsettle]
        exact (Function.update_of_ne (Ne.symm hne) _ _).trans ha
      · rw [hsettle]
        exact congrArg Pending.created (Function.update_self (f := box) h Pending.none)
      · intro e he r' hr'
        cases List.mem_singleton.mp he
        exact honly' r' hr'
    | false =>
      rw [List.find?_cons, hq] at hfind
      have hkept : ∀ g, box g = .none ∨ g = h → (settle collection box q).1 g = box g := by
        intro g hg
        cases ho : q.outcome with
        | rejected => simp [settle, ho]
        | accepted =>
          simp only [settle, ho]
          by_cases hgq : g = q.handle
          · rcases hg with hnone | rfl
            · rw [hgq, Function.update_self, ← hgq, hnone]
            · have hc : q.confirms g = true := decide_eq_true ⟨ho, hgq.symm⟩
              rw [hq] at hc
              cases hc
          · exact Function.update_of_ne hgq _ _
      exact ih hplaced' ((hkept a (Or.inl ha)).trans ha) ((hkept h (Or.inr rfl)).trans hbox) honly'
        hfind _

/-- A push phase leaves the row of an assigned handle as the create's confirmation does. -/
theorem rowAfter_recordAll_assigned {h a : ReplicaHandle} (hne : h ≠ a) {p : ReplicaPlacement}
    (hplaced : ∀ g, (box g).Placed g) (ha : box a = .none)
    (hbox : box h = { Pending.none with created := some p }) (es : List PushExchange)
    (honly : ∀ e ∈ es, ∀ r ∈ e.2, r.assigned = some a → r.handle = h) (hu : Unassigned h es)
    {r : ReplicaPushResult} (hconf : confirmation h es = some r) (hr : r.assigned = some a)
    (init : Option ReplicaPlacement) :
    rowAfter a init (recordAll collection box es) =
      some (ReplicaSync.rekeyedPlacement p a r.revision) := by
  induction es generalizing box init with
  | nil => cases hconf
  | cons e es ih =>
    have honly' : ∀ e ∈ es, ∀ r ∈ e.2, r.assigned = some a → r.handle = h :=
      fun e he => honly e (List.mem_cons_of_mem _ he)
    obtain ⟨hplaced', hboxh, -⟩ := settleAll_spec collection (h := h) hplaced e.2
      (hu e List.mem_cons_self)
    have hleft := (settleAll_mem collection box e.2).1
    have hforgotten := forget_placed hplaced' (e.1.map (fun k => k.handle))
    have hboxa : ((settleAll collection box e.2).1.forget (e.1.map (fun k => k.handle))) a =
        .none := by
      simp only [forget]
      split
      · rfl
      · rcases hleft a with hl | hl
        · rw [hl, ha]
        · exact hl
    simp only [recordAll, rowAfter_append]
    cases hf : e.2.find? (fun r => r.confirms h) with
    | some q =>
      have hqr : q = r := by
        simp only [confirmation, awaited] at hconf
        split at hconf
        · exact Option.some.inj (hf.symm.trans hconf)
        · rw [List.find?_append, hf] at hconf
          exact Option.some.inj hconf
      subst hqr
      rw [settleAll_assigned hne hplaced ha hbox e.2 (honly e List.mem_cons_self) hf hr]
      refine rowAfter_recordAll_unassigned (h := h) hforgotten hboxa ?_ es honly' _
      simp only [forget]
      split
      · rfl
      · rw [hboxh, hf]
        rfl
    | none =>
      simp only [confirmation, awaited] at hconf
      split at hconf
      · rw [hf] at hconf
        cases hconf
      · rename_i hmem
        rw [List.find?_append, hf] at hconf
        refine ih hforgotten hboxa ?_ honly' (fun e he => hu e (List.mem_cons_of_mem _ he)) hconf _
        simp only [forget, if_neg hmem]
        rw [hboxh, hf]
        exact hbox

end Outbox

/-- A handle only the create of `h` is put under: no candidate of the run, no fork of one, and no
other member is assigned it. -/
structure Fresh (s : CollectionRows) (snapshot : ReplicaRemoteSnapshot) (h a : ReplicaHandle)
    (t : Transcript) : Prop where
  apart : h ≠ a
  unlisted : Merge.candidateAt s.rows snapshot a = none
  forks : ∀ (g : ReplicaHandle) (p : ReplicaPlacement), s.rows[g]? = some p → ¬ Forks g p.object a
  assigned : ∀ e ∈ t.pushes, ∀ r ∈ e.2, r.assigned = some a → r.handle = h

/-- An accepted create is stored rekeyed under its assigned handle. -/
theorem Syncs.assigned {collection : ReplicaCollectionId} {opts : ReplicaSyncOptions}
    {loaded : ReplicaLoaded} {snapshot : ReplicaRemoteSnapshot} {t : Transcript}
    (h : Syncs collection opts loaded snapshot t) {s : CollectionRows}
    (hl : loaded.placements = s.placements) {c : Candidate}
    (hc : Merge.candidateAt s.rows snapshot c.handle = some c) {p : ReplicaPlacement}
    (hp : (effect collection opts c).1.pendingAt c.handle =
      { Pending.none with created := some p }) {r : ReplicaPushResult} {a : ReplicaHandle}
    (hr : Outbox.confirmation c.handle t.pushes = some r) (ha : r.assigned = some a)
    (hfresh : Fresh s snapshot c.handle a t) (hu : Outbox.Unassigned c.handle t.pushes) :
    (s.apply t.writes).rows[a]? = some (ReplicaSync.rekeyedPlacement p a r.revision) := by
  obtain ⟨box, hwhole⟩ := h.whole
  have hmem : ∀ d, d ∈ mergedCandidates loaded snapshot ↔
      Merge.candidateAt s.rows snapshot d.handle = some d := by
    intro d
    rw [mem_mergedCandidates, hl, CollectionRows.collect_placements]
  have hbox := hwhole.awaits c ((hmem c).mpr hc)
  rw [hp] at hbox
  have hidle : box a = .none := by
    refine hwhole.idle a (fun d hd hda => ?_)
    have hat := (hmem d).mp hd
    rw [hda, hfresh.unlisted] at hat
    cases hat
  have hplaced : ∀ g, (box g).Placed g := by
    intro g
    by_cases hg : ∃ d ∈ mergedCandidates loaded snapshot, d.handle = g
    · obtain ⟨d, hd, rfl⟩ := hg
      rw [hwhole.awaits d hd]
      refine ((ReplicaSync.new collection opts).merge_local (mergedCandidates_paired hd)).1.placed ?_
      rw [ReplicaSync.new_pendingAt]
      exact .none _
    · simp only [not_exists, not_and] at hg
      rw [hwhole.idle g hg]
      exact .none g
  rw [CollectionRows.get_apply, hwhole.writes, rowAfter_append, rowAfter_append,
    rowAfter_setCheckpoint, rowAfter_nil]
  exact Outbox.rowAfter_recordAll_assigned hfresh.apart hplaced hidle hbox t.pushes hfresh.assigned hu
    hr ha _

end IoReplica

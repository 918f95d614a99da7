import IoReplica.Sync.Assigned
import IoReplica.Sync.Ledger
import IoReplica.Sync.Owned

/-! What a push reply resolves: the changes of the chunk in flight, and which replies resolve more. -/
namespace IoReplica

/-- A row a run did not clean. -/
def StillPending (p : ReplicaPlacement) (left : Option ReplicaPlacement) : Prop :=
  ∃ q, left = some q ∧ (q.status = .clean → p.status = .clean)

namespace ReplicaSync

/-- The content axis of a live row leaves the row it hands on, its status kept or in conflict. -/
def ContentLeft (p : ReplicaPlacement) (out : ReplicaSync × ContentOutcome) : Prop :=
  match out.2 with
  | .push _ => out.1.writes = [] ∧ ∃ base, p.base = some base ∧ localChanged p base = true
  | .untouched => out.1.writes = []
  | .rewritten q => rowAfter p.handle (some p) out.1.writes = some q ∧
      (q.status = p.status ∨ q.status = .conflict)

section
variable {d : ReplicaSync} {p : ReplicaPlacement} {item : ReplicaRemoteItem}

theorem rowAfter_upserted (hd : rowAfter p.handle (some p) d.writes = some p)
    {q : ReplicaPlacement} (hq : q.handle = p.handle) :
    rowAfter p.handle (some p) (d.upsert q).writes = some q := by
  have hw : (d.upsert q).writes = d.writes ++ [.upsertPlacement q] := rfl
  rw [hw, rowAfter_append, hd, rowAfter_upsert, if_pos hq]
  rfl

theorem contentLeft_pushContent (hd : d.writes = []) {base : ReplicaBase} (hb : p.base = some base)
    (hl : localChanged p base = true) (ifMatch : Option String) :
    ContentLeft p (d.pushContent p ifMatch) := by
  have hbody := hl
  simp only [localChanged, Bool.and_eq_true] at hbody
  obtain ⟨o, ho⟩ := Option.isSome_iff_exists.mp hbody.1.2
  simp only [pushContent, ho]
  exact ⟨hd, base, hb, hl⟩

theorem reconcileContent_left (hd : d.writes = []) : ContentLeft p (d.reconcileContent p item) := by
  have hstart : rowAfter p.handle (some p) d.writes = some p := by
    rw [hd]
    rfl
  have hmark : ContentLeft p (d.markConflict p item) :=
    ⟨rowAfter_upserted (q := conflictedPlacement p item) hstart rfl, Or.inr rfl⟩
  have hpull : ∀ e : ReplicaSync, rowAfter p.handle (some p) e.writes = some p →
      ContentLeft p ((e.pullContent p item).1, .rewritten (e.pullContent p item).2) :=
    fun e he => ⟨rowAfter_upserted (q := refreshedPlacement p item) he rfl, Or.inl rfl⟩
  cases hb : p.base with
  | none =>
    simp only [reconcileContent, hb]
    split
    · exact hmark
    · exact hd
  | some base =>
    by_cases hc : p.status = .conflict
    · simp only [reconcileContent, hb, if_pos hc]
      split
      · exact ⟨rowAfter_upserted hstart rfl, Or.inl rfl⟩
      · exact hd
    · simp only [reconcileContent, hb, if_neg hc]
      cases hl : localChanged p base <;> cases hm : movedFrom item base.revision
      · exact hd
      · exact hpull d hstart
      · cases hmay : d.opts.mayContent with
        | false => exact hd
        | true => exact contentLeft_pushContent hd hb hl base.revision
      · cases hpolicy : d.opts.conflict with
        | manual =>
          simp only [resolveConflict, hpolicy]
          exact hmark
        | preferRemote =>
          simp only [resolveConflict, hpolicy]
          exact hpull d hstart
        | keepBoth =>
          simp only [resolveConflict, hpolicy]
          refine hpull (d.stageConflictDup p) ?_
          cases ho : p.object with
          | none =>
            simp only [stageConflictDup, ho]
            exact hstart
          | some o =>
            have hw : (d.stageConflictDup p).writes =
                d.writes ++ [.upsertPlacement (forkedPlacement d.collection p o)] := by
              simp only [stageConflictDup, ho]
              rfl
            rw [hw, rowAfter_append, hstart]
            exact if_neg (keepBothHandle_ne p.handle o)
        | preferLocal =>
          cases hmay : d.opts.mayContent with
          | false =>
            simp only [resolveConflict, hpolicy, hmay, Bool.not_false, if_true]
            exact hmark
          | true =>
            simp only [resolveConflict, hpolicy, hmay, Bool.not_true, Bool.false_eq_true, if_false]
            exact contentLeft_pushContent hd hb hl item.revision

/-- The flag axis ends on the remote's markers, with something to rebase. -/
def FlagsLanded (p : ReplicaPlacement) (base : ReplicaBase) (item : ReplicaRemoteItem) : Prop :=
  mergedFlags base p item = item.flags ∧ (item.flags ≠ p.flags ∨ p.flags ≠ base.flags)

/-- A pushed body is left pending by the flag axis of its run, unless that axis rebased the row. -/
theorem flagRow_left {base : ReplicaBase} (hl : localChanged p base = true)
    (hb : p.base = some base) :
    StillPending p (rowAfter p.handle (some p) (asWrites (flagRow base p item))) ↔
      ¬ FlagsLanded p base item := by
  have hdirty : p.status = .dirty := by
    simp only [localChanged, Bool.and_eq_true, decide_eq_true_eq] at hl
    exact hl.1.1
  have hedit : contentEdit p = true := by
    simp only [localChanged, Bool.and_eq_true, decide_eq_true_eq] at hl
    simp [contentEdit, hb, hl.1.2, Ne.symm hl.2]
  have hself : StillPending p (some p) := ⟨p, rfl, id⟩
  by_cases hmerged : mergedFlags base p item = item.flags
  · by_cases hmoved : item.flags ≠ p.flags ∨ p.flags ≠ base.flags
    · have hrow : flagRow base p item = some (settledRow p item.flags) := by
        simp only [flagRow, hmerged, if_true, hedit, hdirty]
        rw [if_pos (by simpa using hmoved)]
      have hclean : (settledRow p item.flags).status = .clean := by
        simp [settledRow, settledStatus, hdirty]
      refine iff_of_false ?_ (fun h => h ⟨hmerged, hmoved⟩)
      rintro ⟨q, hq, hpending⟩
      rw [hrow] at hq
      have hlast : some (settledRow p item.flags) = some q := (if_pos rfl).symm.trans hq
      rw [Option.some.injEq] at hlast
      rw [← hlast] at hpending
      rw [hpending hclean] at hdirty
      cases hdirty
    · have hrow : flagRow base p item = none := by
        simp only [flagRow, hmerged, if_true, hedit]
        rw [if_neg (by simpa using hmoved)]
      rw [hrow]
      exact iff_of_true hself (fun h => hmoved h.2)
  · refine iff_of_true ?_ (fun h => hmerged h.1)
    simp only [flagRow, if_neg hmerged]
    split
    · exact ⟨{ p with flags := mergedFlags base p item }, if_pos rfl, id⟩
    · exact hself

/-- A flag change leaves the status of the row it is derived from. -/
theorem reconcileFlags_left {h : ReplicaHandle} {q : ReplicaPlacement} (hq : q.handle = h)
    (hd : rowAfter h (some p) d.writes = some q) (hs : q.status = .clean → p.status = .clean)
    {kind : ReplicaChangeKind} (hk : (d.reconcileFlags q item .derive).2 = some kind) :
    kind.awaitedIn = .flags ∧
      StillPending p (rowAfter h (some p) (d.reconcileFlags q item .derive).1.writes) := by
  cases hb : q.base with
  | none => simp [reconcileFlags, ReplicaPlacement.baseFlags, hb] at hk
  | some base =>
    obtain ⟨hwrites, -, hchange⟩ := d.reconcileFlags_spec hb item .derive
    rw [hchange] at hk
    split at hk
    · rename_i hpushes
      have hmerged : mergedFlags base q item ≠ item.flags := by
        simp only [pushesFlags, Bool.and_eq_true, decide_eq_true_eq] at hpushes
        exact hpushes.1.1
      refine ⟨by cases hk; rfl, ?_⟩
      rw [hwrites, rowAfter_append, hd]
      simp only [flagRow, if_neg hmerged]
      split
      · exact ⟨{ q with flags := mergedFlags base q item }, if_pos hq, hs⟩
      · exact ⟨q, rfl, hs⟩
    · cases hk

end

/-- The body derived for the candidate rides along with a flag axis that rebases its row. -/
def Candidate.Cleaned (c : Candidate) (kind : ReplicaChangeKind) : Prop :=
  kind.awaitedIn = .content ∧ ∃ p base item, c.loc = some p ∧ p.status ≠ .tombstone ∧
    p.base = some base ∧ c.remote = some item ∧ FlagsLanded p base item

/-- Merging a candidate leaves the row its change is derived from pending, where the flag axis does
not clean it. -/
theorem effect_left (collection : ReplicaCollectionId) (opts : ReplicaSyncOptions) {c : Candidate}
    (hc : c.Paired) {p : ReplicaPlacement} (hp : c.loc = some p) {kind : ReplicaChangeKind}
    (hk : (effect collection opts c).2 = some kind) :
    StillPending p (rowAfter c.handle (some p) (effect collection opts c).1.writes) ↔
      ¬ Candidate.Cleaned c kind := by
  obtain ⟨h, loc, remote⟩ := c
  obtain rfl : loc = some p := hp
  have hh : p.handle = h := hc.1 p rfl
  have hself : StillPending p (some p) := ⟨p, rfl, id⟩
  have hadd : ∀ {q : ReplicaPlacement} {d : ReplicaSync}, (d.pushAdd h q).2 = some kind →
      ¬ Candidate.Cleaned ⟨h, some p, remote⟩ kind := by
    rintro q d hk ⟨hmap, -⟩
    cases hk
    cases hmap
  by_cases hs : p.status = .tombstone
  · have hnot : ¬ Candidate.Cleaned ⟨h, some p, remote⟩ kind := by
      rintro ⟨-, q, -, -, hq, hlive, -⟩
      cases hq
      exact hlive hs
    refine iff_of_true ?_ hnot
    rw [effect, merge_tombstone _ _ hs] at hk ⊢
    cases remote with
    | none => cases hk
    | some item =>
      dsimp only at hk ⊢
      split at hk
      · rename_i hbased
        rw [if_pos hbased]
        simp only [mergeTombstone] at hk ⊢
        split at hk
        · cases hk
        · rename_i hmoved
          rw [if_neg hmoved]
          split at hk
          · rename_i hstaged
            rw [if_pos hstaged]
            split at hk
            · rw [refuseDelete_silent] at hk
              cases hk
            · rename_i hmay
              rw [if_neg hmay]
              cases ho : p.object with
              | none => simp [ho] at hk
              | some object => exact hself
          · rename_i hstaged
            rw [if_neg hstaged]
            split at hk
            · rw [refuseDelete_silent] at hk
              cases hk
            · rename_i hmay
              rw [if_neg hmay]
              exact hself
      · cases hk
  · rw [effect, merge_live _ _ hs] at hk ⊢
    cases remote with
    | none =>
      dsimp only at hk ⊢
      split at hk
      · rename_i hbased
        rw [if_pos hbased]
        simp only [mergeVanished] at hk ⊢
        split at hk
        · rename_i hedited
          rw [if_pos hedited]
          split at hk
          · cases hk
          · rename_i hmay
            rw [if_neg hmay]
            refine iff_of_true ?_ (hadd hk)
            exact ⟨resurrectedPlacement p, if_pos hh, fun h => by cases h⟩
        · cases hk
      · rename_i hbased
        rw [if_neg hbased]
        simp only [mergeCreate] at hk ⊢
        split at hk
        · rename_i hmay
          rw [if_pos hmay]
          exact iff_of_true hself (hadd hk)
        · cases hk
    | some item =>
      have hleft : ContentLeft p ((new collection opts).reconcileContent p item) :=
        reconcileContent_left rfl
      have hnames := ((Local.refl p.handle p.object (new collection opts)).reconcileContent item
        rfl).2
      have hflags : ∀ {q : ReplicaPlacement} {d : ReplicaSync}, q.handle = h → rowAfter h (some p) d.writes = some q →
          (q.status = .clean → p.status = .clean) →
          (d.reconcileFlags q item .derive).2 = some kind →
          (StillPending p (rowAfter h (some p) (d.reconcileFlags q item .derive).1.writes) ↔
            ¬ Candidate.Cleaned ⟨h, some p, some item⟩ kind) := by
        intro q d hq hd hstatus hk
        obtain ⟨hmap, hpending⟩ := reconcileFlags_left hq hd hstatus hk
        refine iff_of_true hpending ?_
        rintro ⟨hcontent, -⟩
        rw [hmap] at hcontent
        cases hcontent
      simp only [mergePresent] at hk ⊢
      cases hcontent : (new collection opts).reconcileContent p item with
      | mk e outcome =>
        rw [hcontent] at hk hleft hnames
        cases outcome with
        | untouched =>
          have hw : e.writes = [] := hleft
          exact hflags hh (by rw [hw]; rfl) id hk
        | rewritten q =>
          obtain ⟨hrow, hstatus⟩ : rowAfter p.handle (some p) e.writes = some q ∧
            (q.status = p.status ∨ q.status = .conflict) := hleft
          have hq : q.handle = p.handle := hnames
          rw [hh] at hrow hq
          refine hflags hq hrow ?_ hk
          intro hclean
          rcases hstatus with hsame | hconflict
          · exact hsame ▸ hclean
          · rw [hconflict] at hclean
            cases hclean
        | push change =>
          obtain ⟨hw, base, hb, hl⟩ : e.writes = [] ∧
            ∃ base, p.base = some base ∧ localChanged p base = true := hleft
          obtain ⟨-, -, o, ifMatch, -, rfl⟩ :=
            (new collection opts).reconcileContent_push (by rw [hcontent])
          obtain ⟨hwrites, -, -⟩ := e.reconcileFlags_spec hb item .withhold
          cases hk
          dsimp only
          rw [hwrites, hw, List.nil_append, ← hh, flagRow_left hl hb]
          refine not_congr ⟨fun hlanded => ?_, ?_⟩
          · exact ⟨rfl, p, base, item, rfl, hs, hb, rfl, hlanded⟩
          · rintro ⟨-, q, base', item', hq, -, hb', hi, hlanded⟩
            cases hq
            cases hi
            rw [hb] at hb'
            cases hb'
            exact hlanded

/-- What a reply recorded goes out with the next write; the chunks still to push are the queue. -/
theorem runs_queue {a : ReplicaSync} {b : ReplicaArg} {t : Transcript}
    {report : ReplicaSyncReport} (hs : a.state = .pendingPush)
    (h : Coroutine.Runs resume a (some b) t (.ok report)) :
    ((Transcript.pushes t).map (·.1)).flatten = a.pushes := by
  obtain ⟨results, rfl, hends⟩ := ends_pushed h hs
  let next : ReplicaSync := { a.settleChunk results with state := .pendingWrite }
  have hnext : next.pushes = a.pushes := (a.settleChunk_spec results).2.1
  have hresume : a.resume (some (.push results)) =
      (next.batch.1, .yielded (.wantsWrite next.batch.2)) := by
    simp only [resume, hs]
    rfl
  rw [hresume] at hends
  by_cases hp : next.pushes = []
  · rw [batch_last next hp] at hends
    obtain ⟨b', u, rfl, hruns⟩ := hends
    obtain ⟨rfl, -⟩ := ends_lastWrite hruns rfl hp
    rw [← hnext, hp]
    rfl
  · rw [batch_pending next hp] at hends
    obtain ⟨b', u, rfl, hruns⟩ := hends
    have hspec := (step_drains (ends_nextWrite hruns rfl hp)).spec
    exact hspec.pushes.trans hnext

/-- A run that takes a push reply and goes on to its end was waiting for it. -/
theorem push_awaited {a : ReplicaSync} {results : List ReplicaPushResult} {t : Transcript}
    {report : ReplicaSyncReport}
    (h : Coroutine.Runs resume a (some (.push results)) t (.ok report)) :
    a.state = .pendingPush := by
  have hends := h.ends
  cases hs : a.state with
  | pendingPush => rfl
  | start | pendingLoad | pendingEnumerate | merging | pendingWrite | done =>
    simp only [resume, hs] at hends
    exact absurd hends.2 (by simp)

/-- No reply accepts a change still queued. -/
def AcceptsOwn (es : List PushExchange) : Prop :=
  ∀ pre e post, es = pre ++ e :: post → ∀ r ∈ e.2, r.outcome = .accepted →
    ∀ e' ∈ post, r.handle ∉ e'.1.map (fun k => k.handle)

/-- No reply rejects a handle outside its chunk. -/
def RejectsOwn (es : List PushExchange) : Prop :=
  ∀ e ∈ es, ∀ r ∈ e.2, r.outcome = .rejected → r.handle ∈ e.1.map (fun k => k.handle)

/-- A push exchange of a transcript, where it stands in it. -/
theorem pushes_split {t : Transcript} {pre post : List PushExchange} {e : PushExchange}
    (h : t.pushes = pre ++ e :: post) : ∃ (u v : Transcript) (c : ReplicaCollectionId),
      t = u ++ (.wantsPush c e.1, .push e.2) :: v ∧ u.pushes = pre ∧ v.pushes = post := by
  obtain ⟨u, w, rfl, hu, hw⟩ := List.filterMap_eq_append_iff.mp h
  obtain ⟨w₁, x, v, rfl, hsilent, hx, hv⟩ := List.filterMap_eq_cons_iff.mp hw
  obtain ⟨y, b⟩ := x
  cases y with
  | wantsPush c changes =>
    cases b with
    | push results =>
      cases hx
      refine ⟨u ++ w₁, v, c, by simp, ?_, hv⟩
      have hnone : Transcript.pushes w₁ = [] := List.filterMap_eq_nil_iff.mpr hsilent
      rw [Transcript.pushes, List.filterMap_append]
      exact (congrArg₂ (· ++ ·) hu hnone).trans (List.append_nil _)
    | load | enumerate | fetch | write | lookupObject => cases hx
  | wantsLoad | wantsEnumerate | wantsFetch | wantsWrite | wantsLookupObject => cases hx

section Runs
variable {collection : ReplicaCollectionId} {opts : ReplicaSyncOptions} {t u : Transcript}
  {a : ReplicaSync} {x : Option ReplicaArg} {report : ReplicaSyncReport}

/-- A run whose replies accept no queued change keeps its ledger. -/
theorem Ledger.of_runs
    (h : Coroutine.Runs ReplicaSync.resume (ReplicaSync.new collection opts) none t (.ok report))
    (haccepts : AcceptsOwn t.pushes)
    (hreach : Coroutine.Reaches ReplicaSync.resume (ReplicaSync.new collection opts) none u a x)
    (hu : u <+: t) : Ledger u a := by
  have hinvariant := hreach.invariant (t := [])
    (I := fun u c y =>
      Coroutine.Reaches ReplicaSync.resume (ReplicaSync.new collection opts) none u c y ∧
        (∀ pre e, u = pre ++ [e] → y = some e.2) ∧ (u <+: t → Ledger u c))
    ?_ ⟨.refl _ _, fun pre e he => absurd he (by simp), fun _ => .new collection opts⟩
  · exact hinvariant.2.2 hu
  · rintro u c c' y req answer ⟨hreach, hlast, hledger⟩ hr
    refine ⟨hreach.trans (.ask hr (.refl _ _)), fun pre e he => ?_, fun hpre => ?_⟩
    · obtain ⟨-, hb⟩ := List.append_inj' he rfl
      rw [← (List.cons.inj hb).1]
    · have hbefore : u <+: t := (List.prefix_append u _).trans hpre
      refine (hledger hbefore).resume hlast ?_ hr answer
      rintro results hstate rfl r hrr hacc
      obtain ⟨v, rfl⟩ := hbefore
      have hrest := hreach.rest h
      cases hledger (List.prefix_append u v) with
      | opening state => simp [hstate] at state
      | merging state => simp [hstate] at state
      | recording state => simp [hstate] at state
      | pushing flying _ asks accounts =>
        obtain ⟨pre, coll, given, rfl, -⟩ := asks
        have hgiven := hlast pre _ rfl
        rw [Option.some.injEq] at hgiven
        subst hgiven
        rw [← runs_queue hstate hrest]
        intro hin
        obtain ⟨k, hk, hkh⟩ := List.mem_map.mp hin
        obtain ⟨ks, hks, hk⟩ := List.mem_flatten.mp hk
        obtain ⟨e', he', rfl⟩ := List.mem_map.mp hks
        refine haccepts (Transcript.pushes pre) (flying, results) (Transcript.pushes v) ?_ r hrr
          hacc e' he' (hkh ▸ List.mem_map_of_mem hk)
        rw [List.append_assoc, Transcript.pushes, List.filterMap_append]
        rfl

end Runs

/-- A reply resolves the changes in flight alone: results of other handles are as good as not
reported, the rows it records are those of the handles it accepts, and every queued change still
awaits what it awaited. -/
structure ResolvesOwn (a : ReplicaSync) (results : List ReplicaPushResult) : Prop where
  own : a.resume (some (.push results)) =
    a.resume (some (.push (results.filter (fun r => decide (r.handle ∈ a.inFlight)))))
  rows : ∀ b ops, a.resume (some (.push results)) = (b, .yielded (.wantsWrite ops)) → ∀ op ∈ ops,
    op ∈ a.writes ∨ op.row = none ∨ ∃ r ∈ results, r.outcome = .accepted ∧ r.handle ∈ a.inFlight ∧
      (op.row = some r.handle ∨ op.row = r.assigned)
  queued : ∀ k ∈ a.pushes, a.pendingAt k.handle ≠ .none ∧
    (a.resume (some (.push results))).1.pendingAt k.handle = a.pendingAt k.handle

section Reply
variable {a : ReplicaSync} {u : Transcript} {flying : List ReplicaChange}
  {results : List ReplicaPushResult}

/-- The state a reply leaves, its writes taken. -/
theorem resume_push (hs : a.state = .pendingPush) (results : List ReplicaPushResult) :
    a.resume (some (.push results)) =
      (({ a.settleChunk results with state := .pendingWrite } : ReplicaSync).batch.1,
        .yielded (.wantsWrite
          ({ a.settleChunk results with state := .pendingWrite } : ReplicaSync).batch.2)) := by
  simp only [resume, hs]

theorem resume_push_pending (hs : a.state = .pendingPush) (results : List ReplicaPushResult) :
    (a.resume (some (.push results))).1.pendingAt =
      Outbox.forget (Outbox.settleAll a.collection a.pendingAt results).1 a.inFlight := by
  rw [resume_push hs]
  exact ({ a.settleChunk results with state := .pendingWrite } : ReplicaSync).batch_awaits.2.1.trans
    (a.settleChunk_spec results).2.2.2.2

theorem resume_push_report (hs : a.state = .pendingPush) (results : List ReplicaPushResult) :
    (a.resume (some (.push results))).1.report = (results.foldl settle a).report := by
  rw [resume_push hs]
  exact ({ a.settleChunk results with state := .pendingWrite } : ReplicaSync).batch_awaits.2.2.trans
    (a.settleChunk_report results)

theorem batch_rows (a : ReplicaSync) : ∀ op ∈ a.batch.2, op ∈ a.writes ∨ op.row = none := by
  intro op hop
  by_cases hp : a.pushes = []
  · rw [batch_last a hp] at hop
    rcases List.mem_append.mp hop with hop | hop
    · exact Or.inl hop
    · obtain ⟨k, -, rfl⟩ := Option.map_eq_some_iff.mp (Option.mem_toList.mp hop)
      exact Or.inr rfl
  · rw [batch_pending a hp] at hop
    exact Or.inl hop

/-- A reply that accepts no queued change and rejects no handle outside its chunk. -/
theorem Accounts.resolves (h : Accounts u flying a) (hs : a.state = .pendingPush)
    (haccepts : ∀ r ∈ results, r.outcome = .accepted → r.handle ∉ a.pushes.map (fun k => k.handle))
    (hrejects : ∀ r ∈ results, r.outcome = .rejected → r.handle ∈ a.inFlight) :
    ResolvesOwn a results := by
  have hidle : ∀ r ∈ results, r.outcome = .accepted → r.handle ∉ a.inFlight →
      a.pendingAt r.handle = .none := by
    intro r hr ho hout
    refine h.balances.idle ?_
    rw [List.map_append, List.mem_append, ← h.inFlight]
    exact fun hin => hin.elim hout (haccepts r hr ho)
  refine ⟨?_, ?_, ?_⟩
  · have hsettled := settleAll_filter a (fun r => decide (r.handle ∈ a.inFlight)) results (by
      intro r hr hout
      rw [decide_eq_false_iff_not] at hout
      cases ho : r.outcome with
      | accepted => exact ⟨rfl, hidle r hr ho hout⟩
      | rejected => exact absurd (hrejects r hr ho) hout)
    have hchunk : a.settleChunk results =
        a.settleChunk (results.filter (fun r => decide (r.handle ∈ a.inFlight))) := by
      simp only [settleChunk, hsettled]
    rw [resume_push hs, resume_push hs, hchunk]
  · intro b ops hr op hop
    rw [resume_push hs, Prod.mk.injEq, Coroutine.Step.yielded.injEq,
      ReplicaYield.wantsWrite.injEq] at hr
    rw [← hr.2] at hop
    rcases batch_rows _ op hop with hop | hop
    · have hw : ({ a.settleChunk results with state := .pendingWrite } : ReplicaSync).writes =
          a.writes ++ (Outbox.settleAll a.collection a.pendingAt results).2 :=
        (a.settleChunk_spec results).2.2.2.1
      rw [hw] at hop
      rcases List.mem_append.mp hop with hop | hop
      · exact Or.inl hop
      · obtain ⟨r, hr, ho, hop⟩ := (Outbox.settleAll_mem _ _ results).2 op hop
        have hin : r.handle ∈ a.inFlight := by
          by_contra hout
          rw [hidle r hr ho hout, Pending.record_none] at hop
          cases hop
        refine Or.inr (Or.inr ⟨r, hr, ho, hin, ?_⟩)
        exact (Outbox.record_row (h.placed r.handle) hop).imp_right (fun hrow => hrow.1)
    · exact Or.inr (Or.inl hop)
  · intro k hk
    refine ⟨h.balances.awaited (List.mem_append_right _ hk), ?_⟩
    have hleft := h.once_left
    rw [List.map_append, List.nodup_append] at hleft
    have hout : k.handle ∉ a.inFlight := by
      rw [h.inFlight]
      exact fun hin => hleft.2.2 _ hin _ (List.mem_map_of_mem hk) rfl
    rw [resume_push_pending hs, Outbox.forget, if_neg hout]
    exact Outbox.settleAll_unaccepted _ _ results
      (fun r hr ho he => haccepts r hr ho (he ▸ List.mem_map_of_mem hk))

theorem settleAll_accepted (collection : ReplicaCollectionId) (box : Outbox)
    (results : List ReplicaPushResult) {r : ReplicaPushResult} (hr : r ∈ results)
    (ho : r.outcome = .accepted) : (box.settleAll collection results).1 r.handle = .none := by
  induction results generalizing box with
  | nil => cases hr
  | cons q results ih =>
    simp only [Outbox.settleAll]
    rcases List.mem_cons.mp hr with rfl | hr
    · have hsettled : (box.settle collection r).1 r.handle = .none := by
        simp only [Outbox.settle, ho, Function.update_self]
      rcases (Outbox.settleAll_mem collection (box.settle collection r).1 results).1 r.handle with
        hl | hl
      · rw [hl, hsettled]
      · exact hl
    · exact ih _ hr

/-- A reply that leaves every queued change awaited accepts none. -/
theorem ResolvesOwn.accepts (h : ResolvesOwn a results) (hs : a.state = .pendingPush)
    {r : ReplicaPushResult} (hr : r ∈ results) (ho : r.outcome = .accepted) :
    r.handle ∉ a.pushes.map (fun k => k.handle) := by
  intro hin
  obtain ⟨k, hk, hkh⟩ := List.mem_map.mp hin
  obtain ⟨hawaited, hkept⟩ := h.queued k hk
  rw [resume_push_pending hs, Outbox.forget] at hkept
  refine hawaited ?_
  rw [← hkept]
  split
  · rfl
  · rw [hkh]
    exact settleAll_accepted _ _ results hr ho

/-- A reply that counts for its own chunk alone rejects no other handle. -/
theorem ResolvesOwn.rejects (h : ResolvesOwn a results) (hs : a.state = .pendingPush)
    {r : ReplicaPushResult} (hr : r ∈ results) (ho : r.outcome = .rejected) :
    r.handle ∈ a.inFlight := by
  have hcounts := congrArg (fun out => out.1.report.rejected) h.own
  simp only [resume_push_report hs, settleAll_rejected] at hcounts
  rw [results.countP_eq_countP_filter_add _ (fun r => decide (r.handle ∈ a.inFlight))] at hcounts
  have hnone : (results.filter (fun r => !decide (r.handle ∈ a.inFlight))).countP
      (fun r => decide (r.outcome = .rejected)) = 0 := by omega
  by_contra hout
  rw [List.countP_eq_zero] at hnone
  exact hnone r (List.mem_filter.mpr ⟨hr, by simpa using hout⟩) (decide_eq_true ho)

end Reply

end ReplicaSync

open ReplicaSync

/-- A change its own chunk's reply does not accept leaves its row pending, unless another member is
written there. -/
def LeavesPending (s : CollectionRows) (t : Transcript) : Prop :=
  ∀ e ∈ t.pushes, ∀ k ∈ e.1, e.2.any (fun r => r.confirms k.handle) = false →
    Undisturbed s k.handle t →
      ∃ p, s.rows[k.handle]? = some p ∧ StillPending p (s.apply t.writes).rows[k.handle]?

/-- No body left unaccepted rode along with a flag axis that rebased its row. -/
def BodiesUnlanded (s : CollectionRows) (snapshot : ReplicaRemoteSnapshot) (t : Transcript) : Prop :=
  ∀ e ∈ t.pushes, ∀ k ∈ e.1, e.2.any (fun r => r.confirms k.handle) = false →
    Undisturbed s k.handle t → ∀ c, Merge.candidateAt s.rows snapshot k.handle = some c →
      ¬ Candidate.Cleaned c k.kind

/-- A run whose replies resolve their own chunks: whatever a reply holds, it resolves the changes in
flight alone, what it leaves unaccepted stays pending, and the changes their own chunks accepted are
the ones counted. -/
structure ResolvesChunks (collection : ReplicaCollectionId) (opts : ReplicaSyncOptions)
    (loaded : ReplicaLoaded) (t : Transcript) (report : ReplicaSyncReport) : Prop where
  replies : ∀ u y results v a, t = u ++ (y, .push results) :: v →
    Coroutine.Reaches resume (new collection opts) none (u ++ [(y, .push results)]) a
      (some (.push results)) → ResolvesOwn a results
  left : LeavesPending (.ofLoad loaded.placements) t
  pushed : report.pushed = t.confirmed

section Chunks
variable {collection : ReplicaCollectionId} {opts : ReplicaSyncOptions} {loaded : ReplicaLoaded}
  {snapshot : ReplicaRemoteSnapshot} {t : Transcript} {report : ReplicaSyncReport}

/-- Where a run stands when a chunk of it is answered. -/
theorem runs_replied
    (h : Coroutine.Runs resume (new collection opts) none t (.ok report)) {u v : Transcript}
    {y : ReplicaYield} {results : List ReplicaPushResult}
    (ht : t = u ++ (y, .push results) :: v) :
    ∃ a, Coroutine.Reaches resume (new collection opts) none (u ++ [(y, .push results)]) a
        (some (.push results)) ∧
      Coroutine.Runs resume a (some (.push results)) v (.ok report) := by
  have hsplit : t = (u ++ [(y, .push results)]) ++ v := by rw [ht, List.append_assoc]; rfl
  rw [hsplit] at h
  obtain ⟨a, x, hreach, hruns⟩ := h.reaches
  have hx := hreach.last
  subst hx
  exact ⟨a, hreach, hruns⟩

/-- What a run awaits when a chunk of it is answered: the chunk, and what it is queued with. -/
theorem replied_asked (h : Coroutine.Runs resume (new collection opts) none t (.ok report))
    (haccepts : AcceptsOwn t.pushes) {u v : Transcript} {y : ReplicaYield}
    {results : List ReplicaPushResult} (ht : t = u ++ (y, .push results) :: v) {a : ReplicaSync}
    (hreach : Coroutine.Reaches resume (new collection opts) none (u ++ [(y, .push results)]) a
      (some (.push results))) (hs : a.state = .pendingPush) :
    ∃ c flying, y = .wantsPush c flying := by
  have hpre : u ++ [(y, .push results)] <+: t := ⟨v, by rw [ht, List.append_assoc]; rfl⟩
  cases Ledger.of_runs h haccepts hreach hpre with
  | opening state => simp [hs] at state
  | merging state => simp [hs] at state
  | recording state => simp [hs] at state
  | pushing flying _ asks =>
    obtain ⟨w, c, answer, heq, -⟩ := asks
    obtain ⟨-, hlast⟩ := List.append_inj' heq rfl
    exact ⟨c, flying, congrArg Prod.fst (List.cons.inj hlast).1⟩

theorem replied_accounts (h : Coroutine.Runs resume (new collection opts) none t (.ok report))
    (haccepts : AcceptsOwn t.pushes) {u v : Transcript} {c : ReplicaCollectionId}
    {changes : List ReplicaChange} {results : List ReplicaPushResult}
    (ht : t = u ++ (.wantsPush c changes, .push results) :: v) {a : ReplicaSync}
    (hreach : Coroutine.Reaches resume (new collection opts) none
      (u ++ [(.wantsPush c changes, .push results)]) a (some (.push results)))
    (hs : a.state = .pendingPush) :
    Accounts (u ++ [(.wantsPush c changes, .push results)]) changes a := by
  have hpre : u ++ [(.wantsPush c changes, .push results)] <+: t :=
    ⟨v, by rw [ht, List.append_assoc]; rfl⟩
  cases Ledger.of_runs h haccepts hreach hpre with
  | opening state => simp [hs] at state
  | merging state => simp [hs] at state
  | recording state => simp [hs] at state
  | pushing flying _ asks accounts =>
    obtain ⟨w, c', answer, heq, -⟩ := asks
    obtain ⟨-, hlast⟩ := List.append_inj' heq rfl
    cases (List.cons.inj hlast).1
    exact accounts

/-- A change left unaccepted by its chunk is one of a loaded row, and the row left is what merging
it alone leaves. -/
theorem unaccepted_left (hs : Syncs collection opts loaded snapshot t)
    (haccepts : AcceptsOwn t.pushes) {e : PushExchange} (he : e ∈ t.pushes) {k : ReplicaChange}
    (hk : k ∈ e.1) (hnone : e.2.any (fun r => r.confirms k.handle) = false)
    (hu : Undisturbed (.ofLoad loaded.placements) k.handle t) :
    ∃ c p, Merge.candidateAt (collectPlacements loaded.placements) snapshot k.handle = some c ∧
      c.handle = k.handle ∧ c.Paired ∧ c.loc = some p ∧
      (collectPlacements loaded.placements)[k.handle]? = some p ∧
      (effect collection opts c).2 = some k.kind ∧
      ((CollectionRows.ofLoad loaded.placements).apply t.writes).rows[k.handle]? =
        rowAfter k.handle (some p) (effect collection opts c).1.writes := by
  obtain ⟨box, hw⟩ := hs.whole
  have hmem : k ∈ t.changes := List.mem_flatten_of_mem (List.mem_map_of_mem he) hk
  obtain ⟨c, hc, hch, hkind⟩ := hw.mem_changes.mp hmem
  obtain ⟨kind, hderived, hnew⟩ := Option.map_eq_some_iff.mp hkind
  have hpaired := mergedCandidates_paired hc
  have hat := (mem_mergedCandidates c).mp hc
  have hloc := (Merge.candidateAt_spec hat).2
  obtain ⟨p, hp⟩ : ∃ p, c.loc = some p := by
    obtain ⟨h, loc, remote⟩ := c
    cases loc with
    | some p => exact ⟨p, rfl⟩
    | none => cases remote <;> cases hderived
  have hconfirmation : Outbox.confirmation c.handle t.pushes = none := by
    rw [hch, Outbox.confirmation_own haccepts hs.changes_nodup he hk, List.find?_eq_none]
    intro r hr hc
    rw [List.any_eq_false] at hnone
    exact hnone r hr hc
  have hops := hw.rowOps_at hc (hch ▸ hu)
  rw [hconfirmation, List.append_nil] at hops
  refine ⟨c, p, by rw [← hch]; exact hat, hch, hpaired, hp, ?_, ?_, ?_⟩
  · rw [← hch]
    exact hloc.symm.trans hp
  · rw [hderived, ← hnew, ReplicaChange.new_kind]
  · have hrow : (CollectionRows.ofLoad loaded.placements).rows[c.handle]? = some p :=
      hloc.symm.trans hp
    rw [← hch, CollectionRows.get_apply, hrow, ← rowAfter_rowOps, hops, rowAfter_rowOps]

/-- The replies of a run resolve their own chunks exactly when none accepts a change still queued,
none rejects a handle outside its chunk, and no body left unaccepted had its row rebased by the flag
axis of the same run. -/
theorem resolves_chunks_iff (hs : Syncs collection opts loaded snapshot t)
    (h : Coroutine.Runs resume (new collection opts) none t (.ok report)) :
    ResolvesChunks collection opts loaded t report ↔
      AcceptsOwn t.pushes ∧ RejectsOwn t.pushes ∧
        BodiesUnlanded (.ofLoad loaded.placements) snapshot t := by
  constructor
  · intro hresolves
    have haccepts : AcceptsOwn t.pushes := by
      intro pre e post hes r hr ho e' he' hin
      obtain ⟨u, v, c, ht, -, rfl⟩ := pushes_split hes
      obtain ⟨a, hreach, hruns⟩ := runs_replied h ht
      have hstate := push_awaited hruns
      refine (hresolves.replies u _ e.2 v a ht hreach).accepts hstate hr ho ?_
      rw [← runs_queue hstate hruns]
      obtain ⟨k, hk, hkh⟩ := List.mem_map.mp hin
      rw [← hkh]
      exact List.mem_map_of_mem (List.mem_flatten_of_mem (List.mem_map_of_mem he') hk)
    refine ⟨haccepts, fun e he r hr ho => ?_, fun e he k hk hnone hu c hc hcleaned => ?_⟩
    · obtain ⟨pre, post, hes⟩ := List.append_of_mem he
      obtain ⟨u, v, c, ht, -, -⟩ := pushes_split hes
      obtain ⟨a, hreach, hruns⟩ := runs_replied h ht
      have hstate := push_awaited hruns
      rw [← (replied_accounts h haccepts ht hreach hstate).inFlight]
      exact (hresolves.replies u _ e.2 v a ht hreach).rejects hstate hr ho
    · obtain ⟨d, p, hd, hh, hpaired, hloc, hp, hkind, hrow⟩ :=
        unaccepted_left hs haccepts he hk hnone hu
      obtain ⟨q, hq, hpending⟩ := hresolves.left e he k hk hnone hu
      cases hd.symm.trans hc
      cases hp.symm.trans hq
      rw [hrow, ← hh] at hpending
      exact (effect_left collection opts hpaired hloc hkind).mp hpending hcleaned
  · rintro ⟨haccepts, hrejects, hlanded⟩
    refine ⟨fun u y results v a ht hreach => ?_, fun e he k hk hnone hu => ?_, ?_⟩
    · have hsplit : t = (u ++ [(y, .push results)]) ++ v := by rw [ht, List.append_assoc]; rfl
      have hruns := hreach.rest (hsplit ▸ h)
      have hstate := push_awaited hruns
      obtain ⟨c, flying, rfl⟩ := replied_asked h haccepts ht hreach hstate
      have haccounts := replied_accounts h haccepts ht hreach hstate
      have hpushes : t.pushes = Transcript.pushes u ++ (flying, results) :: Transcript.pushes v := by
        rw [ht, Transcript.pushes, List.filterMap_append]
        rfl
      refine haccounts.resolves hstate (fun r hr ho hin => ?_) (fun r hr ho => ?_)
      · rw [← runs_queue hstate hruns] at hin
        obtain ⟨k, hk, hkh⟩ := List.mem_map.mp hin
        obtain ⟨ks, hks, hk⟩ := List.mem_flatten.mp hk
        obtain ⟨e', he', rfl⟩ := List.mem_map.mp hks
        exact haccepts _ _ _ hpushes r hr ho e' he' (hkh ▸ List.mem_map_of_mem hk)
      · rw [haccounts.inFlight]
        refine hrejects (flying, results) ?_ r hr ho
        rw [hpushes]
        exact List.mem_append_right _ List.mem_cons_self
    · obtain ⟨c, p, hc, hh, hpaired, hloc, hp, hkind, hrow⟩ :=
        unaccepted_left hs haccepts he hk hnone hu
      refine ⟨p, hp, ?_⟩
      rw [hrow, ← hh]
      exact (effect_left collection opts hpaired hloc hkind).mpr (hlanded e he k hk hnone hu c hc)
    · obtain ⟨a, x, hreach, hlast⟩ :=
        Coroutine.Runs.reaches (t := t) (u := []) (by rwa [List.append_nil])
      cases hlast with
      | done completes =>
        obtain ⟨hstate, -, -, rfl, -⟩ := resume_ok completes
        cases Ledger.of_runs h haccepts hreach (List.prefix_refl t) with
        | opening state => simp [hstate] at state
        | merging state => simp [hstate] at state
        | pushing _ state => simp [hstate] at state
        | recording _ counted => exact counted

end Chunks

section Runs

/-- More creates than a chunk holds. The first reply accepts the last one, which its own chunk
rejects. -/
def drafts : Seam where
  rows := (List.range 65).foldl (fun s i => s.write (.upsertPlacement (draft i)))
    CollectionRows.empty
  checkpoint := none
  snapshot := ⟨[], [], true, ⟨[]⟩⟩
  replies := [[⟨(draft 64).handle, .accepted, none, none⟩],
    [⟨(draft 64).handle, .rejected, none, none⟩]]

/-- A create accepted ahead of its chunk is dropped, though its own chunk rejects it. -/
theorem draft_resolved_early : ∃ t report,
    Syncs ⟨"contacts"⟩ .default ⟨drafts.rows.placements, none⟩ drafts.snapshot t ∧
    Coroutine.Runs resume (new ⟨"contacts"⟩ .default) none t (.ok report) ∧
    ((CollectionRows.ofLoad drafts.rows.placements).apply t.writes).rows[(draft 64).handle]? =
      none ∧
    ¬ ResolvesChunks ⟨"contacts"⟩ .default ⟨drafts.rows.placements, none⟩ t report := by
  have hrun : (drafts.sync 9 ⟨"contacts"⟩ .default).map (fun o =>
      (o.2.pushes.map (·.2), (o.2.pushes.drop 1).map (fun e => (e.1.map (fun k => k.handle), e.2)),
        (o.1.rows.rows[(draft 64).handle]?).isSome)) =
      some (drafts.replies, [([(draft 64).handle], [⟨(draft 64).handle, .rejected, none, none⟩])],
        false) := by decide +kernel
  have hbodies : ∀ q ∈ drafts.rows.placements, q.object = none := by decide +kernel
  obtain ⟨⟨s, t⟩, hd, heq⟩ := Option.map_eq_some_iff.mp hrun
  simp only [Prod.mk.injEq] at heq
  obtain ⟨hreplies, hlast, hgone⟩ := heq
  obtain ⟨hsync, hrows⟩ := Seam.sync_syncs hd
  obtain ⟨rest, report, -, hruns⟩ := id hsync
  have hstored : (CollectionRows.ofLoad drafts.rows.placements).rows = drafts.rows.rows :=
    CollectionRows.collect_placements drafts.rows
  have hnone : ((CollectionRows.ofLoad drafts.rows.placements).apply t.writes).rows[
      (draft 64).handle]? = none := by
    rw [CollectionRows.get_apply, hstored, ← CollectionRows.get_apply, ← hrows]
    exact Option.isNone_iff_eq_none.mp (Option.isSome_eq_false_iff.mp hgone)
  refine ⟨t, report, hsync, hruns, hnone, fun hresolves => ?_⟩
  obtain ⟨e, he, hk⟩ : ∃ e ∈ t.pushes.drop 1, (e.1.map (fun k => k.handle), e.2) =
      ([(draft 64).handle], [⟨(draft 64).handle, .rejected, none, none⟩]) := by
    refine List.mem_map.mp ?_
    rw [hlast]
    exact List.mem_singleton_self _
  simp only [Prod.mk.injEq] at hk
  obtain ⟨hhandles, hresults⟩ := hk
  obtain ⟨k, hk, hkh⟩ : ∃ k ∈ e.1, k.handle = (draft 64).handle := by
    refine List.mem_map.mp ?_
    rw [hhandles]
    exact List.mem_singleton_self _
  have hundisturbed : Undisturbed (.ofLoad drafts.rows.placements) k.handle t := by
    refine ⟨fun g p hp _ => ?_, Seam.unassigned_of_replies hreplies (by decide)⟩
    rw [hstored] at hp
    rintro ⟨o, ho, -⟩
    have hmem : p ∈ drafts.rows.placements :=
      (drafts.rows.mem_placements p).mpr ((drafts.rows.keyed g p hp).symm ▸ hp)
    rw [hbodies p hmem] at ho
    cases ho
  obtain ⟨p, -, q, hq, -⟩ := hresolves.left e (List.mem_of_mem_drop he) k hk
    (by rw [hresults]; simp [ReplicaPushResult.confirms]) hundisturbed
  rw [hkh, hnone] at hq
  cases hq

theorem acceptsOwn_pair {e e' : PushExchange} (h : ∀ r ∈ e.2, r.outcome = .accepted →
    r.handle ∉ e'.1.map (fun k => k.handle)) : AcceptsOwn [e, e'] := by
  intro pre d post hes r hr ho d' hd'
  have hpost := List.length_pos_of_mem hd'
  have hlen := congrArg List.length hes
  simp only [List.length_append, List.length_cons, List.length_nil] at hlen
  obtain rfl : pre = [] := List.length_eq_zero_iff.mp (by omega)
  simp only [List.nil_append, List.cons.injEq] at hes
  obtain ⟨rfl, rfl⟩ := hes
  rw [List.mem_singleton.mp hd']
  exact h r hr ho

/-- Two chunks, the first answered in part: each reply resolves its own, and sixty-four of the sixty-six
changes are counted. -/
theorem resolves_chunks_crowded : ∃ t report,
    Syncs ⟨"contacts"⟩ .default ⟨crowded.rows.placements, none⟩ crowded.snapshot t ∧
    t.pushes.map (·.1.length) = [64, 2] ∧ report.pushed = 64 ∧
    ResolvesChunks ⟨"contacts"⟩ .default ⟨crowded.rows.placements, none⟩ t report := by
  obtain ⟨⟨s, t⟩, hd, hpushes⟩ := Option.map_eq_some_iff.mp crowded_run
  obtain ⟨hsync, -⟩ := Seam.sync_syncs hd
  obtain ⟨rest, report, -, hruns⟩ := id hsync
  have hflight : t.InFlight := crowded_inFlight hpushes
  have hlengths := crowded_lengths hpushes
  have hconfirmed : t.confirmed = 64 := by
    have hmapped := congrArg (List.map (fun e =>
      e.1.countP (fun kind => e.2.any (fun r => r.confirms kind.handle)))) hpushes
    simp only [List.map_map, Function.comp_def, List.countP_map] at hmapped
    exact (congrArg List.sum hmapped).trans (by decide +kernel)
  have haccepts : AcceptsOwn t.pushes := by
    have hapart : ∀ e ∈ crowdedChunks.zip crowded.replies, ∀ e' ∈ crowdedChunks.zip crowded.replies,
        e.1.length = 64 → e'.1.length = 2 → ∀ r ∈ e.2, r.handle ∉ e'.1.map (fun k => k.handle) := by
      decide +kernel
    obtain ⟨e, e', hes⟩ : ∃ e e', t.pushes = [e, e'] :=
      List.length_eq_two.mp (by simpa using congrArg List.length hlengths)
    rw [hes] at hlengths hpushes ⊢
    simp only [List.map_cons, List.map_nil, List.cons.injEq, and_true] at hlengths
    refine acceptsOwn_pair (fun r hr _ => ?_)
    have hone := hapart (e.1.map (·.kind), e.2) (hpushes ▸ List.mem_cons_self)
      (e'.1.map (·.kind), e'.2) (hpushes ▸ List.mem_cons_of_mem _ List.mem_cons_self)
      (by simpa using hlengths.1) (by simpa using hlengths.2) r hr
    rwa [List.map_map] at hone
  have hadds : ∀ e ∈ crowdedChunks.zip crowded.replies, ∀ kind ∈ e.1,
      e.2.any (fun r => r.confirms kind.handle) = false → kind.awaitedIn ≠ .content := by
    decide +kernel
  have hresolves := (resolves_chunks_iff hsync hruns).mpr ⟨haccepts,
    fun e he r hr _ => hflight e he r hr, fun e he k hk hnone _ c _ hcleaned =>
      hadds _ (hpushes ▸ List.mem_map_of_mem he) k.kind (List.mem_map_of_mem hk) hnone hcleaned.1⟩
  exact ⟨t, report, hsync, hlengths, hresolves.pushed.trans hconfirmed, hresolves⟩

end Runs
end IoReplica

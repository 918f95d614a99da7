import IoReplica.Sync.Run

/-! What a whole run makes of one handle: the merge of its candidate, then the first accepted
result that names it. -/
namespace IoReplica

/-- What merging one candidate queues and derives, on a run that queued nothing yet. -/
def effect (collection : ReplicaCollectionId) (opts : ReplicaSyncOptions) (c : Candidate) :
    ReplicaSync × Option ReplicaChangeKind := (ReplicaSync.new collection opts).merge c

/-- A candidate that neither stands at `h` nor forks onto it. -/
structure Candidate.Spares (c : Candidate) (h : ReplicaHandle) : Prop where
  paired : c.Paired
  handle : c.handle ≠ h
  forks : ¬ Forks c.handle (c.loc.bind (·.object)) h

namespace ReplicaSync

/-- Merging that never touches `h`. -/
structure Away (h : ReplicaHandle) (a b : ReplicaSync) : Prop where
  collection : b.collection = a.collection
  opts : b.opts = a.opts
  pending : b.pendingAt h = a.pendingAt h
  writes : ∃ ops, b.writes = a.writes ++ ops ∧ ∀ op ∈ ops, op.row ≠ some h
  pushes : ∃ ks, b.pushes = a.pushes ++ ks ∧ ∀ k ∈ ks, ReplicaChange.handle k ≠ h

theorem Away.refl (h : ReplicaHandle) (a : ReplicaSync) : Away h a a :=
  ⟨rfl, rfl, rfl, ⟨[], by simp, by simp⟩, ⟨[], by simp, by simp⟩⟩

theorem Away.trans {h : ReplicaHandle} {a b c : ReplicaSync} (hab : Away h a b)
    (hbc : Away h b c) : Away h a c := by
  obtain ⟨ops, hops, hrow⟩ := hab.writes
  obtain ⟨ops', hops', hrow'⟩ := hbc.writes
  obtain ⟨ks, hks, hh⟩ := hab.pushes
  obtain ⟨ks', hks', hh'⟩ := hbc.pushes
  refine ⟨hbc.collection.trans hab.collection, hbc.opts.trans hab.opts,
    hbc.pending.trans hab.pending, ⟨ops ++ ops', ?_, ?_⟩, ⟨ks ++ ks', ?_, ?_⟩⟩
  · rw [hops', hops, List.append_assoc]
  · intro op hop
    rcases List.mem_append.mp hop with hop | hop
    · exact hrow op hop
    · exact hrow' op hop
  · rw [hks', hks, List.append_assoc]
  · intro k hk
    rcases List.mem_append.mp hk with hk | hk
    · exact hh k hk
    · exact hh' k hk

theorem mergeCandidate_away (a : ReplicaSync) {c : Candidate} {h : ReplicaHandle}
    (hc : c.Spares h) : Away h a (a.mergeCandidate c) := by
  obtain ⟨hlocal, hnames⟩ := a.merge_local hc.paired
  obtain ⟨ops, hops, hrow⟩ := hlocal.writes
  have hrow' : ∀ op ∈ ops, op.row ≠ some h := by
    intro op hop heq
    rcases hrow op hop with hr | ⟨g, hr, hforks⟩
    · rw [heq, Option.some.injEq] at hr
      exact hc.handle hr.symm
    · rw [heq, Option.some.injEq] at hr
      exact hc.forks (hr ▸ hforks)
  have hpend := hlocal.others h (Ne.symm hc.handle)
  simp only [mergeCandidate]
  cases hm : a.merge c with
  | mk b change =>
    rw [hm] at hlocal hnames hops hpend
    cases change with
    | none =>
      exact ⟨hlocal.collection, hlocal.opts, hpend, ⟨ops, hops, hrow'⟩,
        ⟨[], by rw [List.append_nil]; exact hlocal.pushes, by simp⟩⟩
    | some kind =>
      refine ⟨hlocal.collection, hlocal.opts, hpend, ⟨ops, hops, hrow'⟩,
        ⟨[ReplicaChange.new b.collection kind], ?_, ?_⟩⟩
      · exact congrArg (· ++ _) hlocal.pushes
      · intro k hk
        rw [List.mem_singleton.mp hk, ReplicaChange.new_handle, hnames kind rfl]
        exact hc.handle

theorem mergeAll_away (a : ReplicaSync) {cs : List Candidate} {h : ReplicaHandle}
    (hcs : ∀ c ∈ cs, c.Spares h) : Away h a (a.mergeAll cs) := by
  induction cs generalizing a with
  | nil => exact .refl h a
  | cons c cs ih =>
    have hc := a.mergeCandidate_away (hcs c List.mem_cons_self)
    exact hc.trans (ih (a.mergeCandidate c) (fun d hd => hcs d (List.mem_cons_of_mem _ hd)))

theorem extend_pendingAt {a : ReplicaSync} {h : ReplicaHandle} (ha : a.pendingAt h = .none)
    (d : ReplicaSync) : (a.extend d).pendingAt h = d.pendingAt h := by
  simp only [pendingAt, Pending.none, Pending.mk.injEq] at ha
  obtain ⟨hf, hc, hd, hn⟩ := ha
  have hd' : h ∉ a.pendingDrops := by simpa [awaitsDrop] using hd
  simp [pendingAt, extend, Std.ExtTreeMap.getElem?_union, hf, hc, hn, awaitsDrop, hd']

theorem extend_pendingAt_idle (a : ReplicaSync) {d : ReplicaSync} {h : ReplicaHandle}
    (hd : d.pendingAt h = .none) : (a.extend d).pendingAt h = a.pendingAt h := by
  simp only [pendingAt, Pending.none, Pending.mk.injEq] at hd
  obtain ⟨hf, hc, hdrop, hn⟩ := hd
  have hdrop' : h ∉ d.pendingDrops := by simpa [awaitsDrop] using hdrop
  simp [pendingAt, extend, Std.ExtTreeMap.getElem?_union, hf, hc, hn, awaitsDrop, hdrop']

/-- What merging every candidate leaves of the handle of one of them. -/
structure MergedAt (collection : ReplicaCollectionId) (opts : ReplicaSyncOptions) (c : Candidate)
    (m : ReplicaSync) : Prop where
  pending : m.pendingAt c.handle = (effect collection opts c).1.pendingAt c.handle
  row : ∀ init, rowAfter c.handle init m.writes =
    rowAfter c.handle init (effect collection opts c).1.writes
  pushes : m.pushes.filter (fun k => k.handle = c.handle) =
    ((effect collection opts c).2.map (ReplicaChange.new collection)).toList

theorem new_pendingAt (collection : ReplicaCollectionId) (opts : ReplicaSyncOptions)
    (h : ReplicaHandle) : (new collection opts).pendingAt h = .none := by
  simp [pendingAt, new, awaitsDrop, Pending.none]

/-- Merging one candidate first: its effect, with the change it derived queued. -/
theorem new_mergeCandidate (collection : ReplicaCollectionId) (opts : ReplicaSyncOptions)
    {c : Candidate} (hc : c.Paired) :
    let d := (new collection opts).mergeCandidate c
    d.pendingAt = (effect collection opts c).1.pendingAt ∧
      d.writes = (effect collection opts c).1.writes ∧
      d.pushes = ((effect collection opts c).2.map (ReplicaChange.new collection)).toList := by
  have hlocal := ((new collection opts).merge_local hc).1
  have hcoll := hlocal.collection
  have hpushes := hlocal.pushes
  simp only [mergeCandidate, effect]
  cases hm : (new collection opts).merge c with
  | mk b change =>
    rw [hm] at hcoll hpushes
    cases change with
    | none => exact ⟨rfl, rfl, hpushes⟩
    | some kind =>
      refine ⟨rfl, rfl, ?_⟩
      dsimp only at hcoll hpushes ⊢
      rw [hpushes, hcoll]
      rfl

/-- A candidate is merged as if it were alone. -/
theorem mergeAll_at (collection : ReplicaCollectionId) (opts : ReplicaSyncOptions)
    {cs : List Candidate} {c : Candidate} (hc : c ∈ cs) (hpaired : c.Paired)
    (hothers : ∀ d ∈ cs, d ≠ c → d.Spares c.handle) (hnodup : cs.Nodup) :
    MergedAt collection opts c ((new collection opts).mergeAll cs) := by
  obtain ⟨pre, post, rfl⟩ := List.append_of_mem hc
  have hpre : ∀ d ∈ pre, d.Spares c.handle := by
    intro d hd
    refine hothers d (List.mem_append_left _ hd) ?_
    rintro rfl
    exact (List.nodup_append.mp hnodup).2.2 d hd d List.mem_cons_self rfl
  have hpost : ∀ d ∈ post, d.Spares c.handle := by
    intro d hd
    refine hothers d (List.mem_append_right _ (List.mem_cons_of_mem _ hd)) ?_
    rintro rfl
    exact (List.nodup_cons.mp (List.nodup_append.mp hnodup).2.1).1 hd
  have haway := (new collection opts).mergeAll_away hpre
  have hall : (new collection opts).mergeAll (pre ++ c :: post) =
      (((new collection opts).mergeAll pre).mergeCandidate c).mergeAll post := by
    rw [mergeAll, List.foldl_append, List.foldl_cons]
    rfl
  obtain ⟨ops, hops, hrow⟩ := haway.writes
  obtain ⟨ks, hks, hh⟩ := haway.pushes
  have hpend := haway.pending.trans (new_pendingAt collection opts c.handle)
  obtain ⟨hownPending, hownWrites, hownPushes⟩ := new_mergeCandidate collection opts hpaired
  have hmid : ((new collection opts).mergeAll pre).mergeCandidate c =
      ((new collection opts).mergeAll pre).extend ((new collection opts).mergeCandidate c) := by
    have hext := extend_mergeCandidate ((new collection opts).mergeAll pre)
      (new ((new collection opts).mergeAll pre).collection
        ((new collection opts).mergeAll pre).opts) c
    rw [extend_new] at hext
    rw [hext, haway.collection, haway.opts]
    rfl
  have hlast := (((new collection opts).mergeAll pre).mergeCandidate c).mergeAll_away hpost
  obtain ⟨ops', hops', hrow'⟩ := hlast.writes
  obtain ⟨ks', hks', hh'⟩ := hlast.pushes
  rw [hall]
  refine ⟨?_, ?_, ?_⟩
  · rw [hlast.pending, hmid, extend_pendingAt hpend, hownPending]
  · intro init
    have hw : (((new collection opts).mergeAll pre).mergeCandidate c).writes =
        ops ++ (effect collection opts c).1.writes := by
      rw [hmid, ← hownWrites]
      exact congrArg (· ++ _) hops
    rw [hops', hw, rowAfter_append, rowAfter_append, rowAfter_of_ne _ hrow, rowAfter_of_ne _ hrow']
  · have hp : (((new collection opts).mergeAll pre).mergeCandidate c).pushes =
        ks ++ ((effect collection opts c).2.map (ReplicaChange.new collection)).toList := by
      rw [hmid, ← hownPushes]
      exact congrArg (· ++ _) hks
    have hnil : ∀ l : List ReplicaChange, (∀ k ∈ l, ReplicaChange.handle k ≠ c.handle) →
        l.filter (fun k => k.handle = c.handle) = [] := by
      intro l hl
      rw [List.filter_eq_nil_iff]
      intro k hk
      simpa using hl k hk
    have hown : ∀ k ∈ ((effect collection opts c).2.map (ReplicaChange.new collection)).toList,
        ReplicaChange.handle k = c.handle := by
      intro k hk
      obtain ⟨kind, hkind, rfl⟩ := Option.map_eq_some_iff.mp (Option.mem_toList.mp hk)
      exact ((new collection opts).merge_local hpaired).2 kind hkind
    rw [hks', hp, List.filter_append, List.filter_append, hnil ks hh, hnil ks' hh',
      List.nil_append, List.append_nil, List.filter_eq_self]
    intro k hk
    simpa using hown k hk

end ReplicaSync
end IoReplica

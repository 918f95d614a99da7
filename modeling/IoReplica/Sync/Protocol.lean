import IoReplica.Sync.Delta
import IoReplica.Sync.PushedFlags

/-! The exchanges of a whole run: batches cut between candidates, then chunk after chunk of pushes,
each recorded by the write right after it, the checkpoint last. -/
namespace IoReplica

/-- A write serviced. -/
def written (ops : List ReplicaWriteOp) : ReplicaYield × ReplicaArg := (.wantsWrite ops, .write)

/-- The writes recording what a chunk of pushes was answered. -/
def Outbox.recorded (collection : ReplicaCollectionId) (box : Outbox)
    (results : List ReplicaPushResult) : List ReplicaWriteOp := (box.settleAll collection results).2

/-- Chunks pushed one after the other, each recorded before the next. What is `queued` rides along
with the first write, the checkpoint with the last. -/
def pushPhase (collection : ReplicaCollectionId) (box : Outbox) (checkpoint : ReplicaCheckpoint) :
    List ReplicaWriteOp → List PushExchange → Transcript
  | queued, [] => [written (queued ++ [.setCheckpoint collection checkpoint])]
  | queued, [(changes, results)] =>
    [(.wantsPush collection changes, .push results),
      written (queued ++ box.recorded collection results ++
        [.setCheckpoint collection checkpoint])]
  | queued, (changes, results) :: next :: chunks =>
    (.wantsPush collection changes, .push results) ::
      written (queued ++ box.recorded collection results) ::
        pushPhase collection box checkpoint [] (next :: chunks)

/-- Every push result names a handle of the chunk in flight. -/
def Transcript.InFlight (t : Transcript) : Prop :=
  ∀ e ∈ t.pushes, ∀ r ∈ e.2, r.handle ∈ e.1.map (fun k => k.handle)

instance (t : Transcript) : Decidable t.InFlight :=
  inferInstanceAs (Decidable (∀ e ∈ t.pushes, ∀ r ∈ e.2, r.handle ∈ e.1.map (fun k => k.handle)))

/-- Chunks that share a list of changes out, in order: full ones, but for the last. -/
structure Chunked (changes : List ReplicaChange) (chunks : List PushExchange) : Prop where
  all : (chunks.map (·.1)).flatten = changes
  bounded : ∀ e ∈ chunks, e.1 ≠ [] ∧ e.1.length ≤ ReplicaSync.PUSH_CHUNK
  full : ∀ e ∈ chunks.dropLast, e.1.length = ReplicaSync.PUSH_CHUNK

/-- What a chunk awaits its results with. -/
def ReplicaChangeKind.Awaited : ReplicaChangeKind → Pending → Prop
  | .add .., awaits => awaits.created.isSome
  | .remove .., awaits => awaits.dropped
  | .setFlags .., awaits => awaits.flags.isSome
  | .update .., awaits => awaits.content.isSome

namespace Outbox
variable {collection : ReplicaCollectionId} {box box' : Outbox}

/-- Recording a chunk reads the handles its results name, no other. -/
theorem recorded_congr (box box' : Outbox) (results : List ReplicaPushResult)
    (h : ∀ r ∈ results, box r.handle = box' r.handle) :
    box.recorded collection results = box'.recorded collection results := by
  induction results generalizing box box' with
  | nil => rfl
  | cons r results ih =>
    have hr := h r List.mem_cons_self
    simp only [recorded, settleAll, settle]
    cases ho : r.outcome with
    | rejected =>
      have hrest := ih box box' (fun x hx => h x (List.mem_cons_of_mem _ hx))
      simp only [recorded] at hrest
      simp only [hrest]
    | accepted =>
      have hrest := ih (Function.update box r.handle .none) (Function.update box' r.handle .none) (by
          intro x hx
          by_cases hxr : x.handle = r.handle
          · rw [hxr, Function.update_self, Function.update_self]
          · rw [Function.update_of_ne hxr, Function.update_of_ne hxr]
            exact h x (List.mem_cons_of_mem _ hx))
      simp only [recorded] at hrest
      simp only [hr, hrest]

/-- The first accepted result a handle gets is recorded by the write after its chunk. -/
theorem recorded_infix (box : Outbox) {h : ReplicaHandle} {r : ReplicaPushResult}
    (results : List ReplicaPushResult)
    (hr : results.find? (fun x => x.confirms h) = some r) :
    (box h).record collection r <:+: box.recorded collection results := by
  induction results generalizing box with
  | nil => cases hr
  | cons x results ih =>
    rw [List.find?_cons] at hr
    simp only [recorded, settleAll]
    cases hx : x.confirms h with
    | true =>
      rw [hx] at hr
      cases hr
      simp only [ReplicaPushResult.confirms, decide_eq_true_eq] at hx
      simp only [settle, hx.1, hx.2]
      exact ⟨[], _, rfl⟩
    | false =>
      rw [hx] at hr
      have hkept : (box.settle collection x).1 h = box h := by
        simp only [ReplicaPushResult.confirms, decide_eq_false_iff_not, not_and] at hx
        simp only [settle]
        cases ho : x.outcome with
        | rejected => rfl
        | accepted => exact Function.update_of_ne (Ne.symm (hx ho)) _ _
      have hrest := ih (box.settle collection x).1 hr
      rw [hkept] at hrest
      exact hrest.trans (List.infix_append_right)

end Outbox

namespace ReplicaSync

theorem Drains.written {report : ReplicaSyncReport} {self : ReplicaSync} {t : Transcript}
    {checkpoint : ReplicaCheckpoint} (h : Drains report self t)
    (hck : self.nextCheckpoint = some checkpoint) (hp : self.pushes = []) :
    t = [IoReplica.written (self.writes ++ [.setCheckpoint self.collection checkpoint])] := by
  cases h with
  | idle =>
    rw [closing, hck]
    rfl
  | last _ pushes => exact absurd hp pushes
  | chunk _ more => exact absurd (by rw [hp]; rfl) more

theorem chunk_bounded {self : ReplicaSync} (hp : self.pushes ≠ []) :
    self.pushes.take PUSH_CHUNK ≠ [] ∧ (self.pushes.take PUSH_CHUNK).length ≤ PUSH_CHUNK := by
  have hlen := List.length_pos_of_ne_nil hp
  refine ⟨List.ne_nil_of_length_pos ?_, List.length_take_le _ _⟩
  simp only [List.length_take, PUSH_CHUNK]
  omega

/-- What a chunk's results record is told by what its own handles await. -/
theorem recorded_chunk {self : ReplicaSync} {box : Outbox} {results : List ReplicaPushResult}
    (hbox : ∀ k ∈ self.pushes, self.pendingAt k.handle = box k.handle)
    (hresults : ∀ r ∈ results,
      r.handle ∈ (self.pushes.take PUSH_CHUNK).map (fun k => k.handle)) :
    (self.recorded results).writes =
      self.writes ++ box.recorded self.collection results := by
  obtain ⟨-, -, -, hwrites, -⟩ := self.recorded_spec results
  rw [hwrites]
  refine congrArg _ (Outbox.recorded_congr self.pendingAt _ results (fun r hr => ?_))
  obtain ⟨k, hk, hkr⟩ := List.mem_map.mp (hresults r hr)
  rw [← hkr]
  exact hbox k (List.mem_of_mem_take hk)

/-- From its pushes on, a run records every chunk before the next. -/
theorem Drains.pushPhase {report : ReplicaSyncReport} {self : ReplicaSync} {t : Transcript}
    (h : Drains report self t) (box : Outbox) (checkpoint : ReplicaCheckpoint)
    (hck : self.nextCheckpoint = some checkpoint)
    (hbox : ∀ k ∈ self.pushes, self.pendingAt k.handle = box k.handle)
    (hdistinct : (self.pushes.map (fun k => k.handle)).Nodup) (hnamed : Transcript.InFlight t) :
    ∃ chunks, Chunked self.pushes chunks ∧ (self.pushes ≠ [] → chunks ≠ []) ∧
      t = pushPhase self.collection box checkpoint self.writes chunks := by
  induction h with
  | @idle a pushes =>
    refine ⟨[], ⟨by simp [pushes], by simp, by simp⟩, by simp [pushes], ?_⟩
    rw [closing, hck]
    rfl
  | @last a results pushes drained reported =>
    have hresults : ∀ r ∈ results,
        r.handle ∈ (a.pushes.take PUSH_CHUNK).map (fun k => k.handle) :=
      hnamed (a.pushes.take PUSH_CHUNK, results) (by simp [Transcript.pushes])
    have hrecorded := recorded_chunk hbox hresults
    have hsplit := List.take_append_drop PUSH_CHUNK a.pushes
    rw [drained, List.append_nil] at hsplit
    refine ⟨[(a.pushes.take PUSH_CHUNK, results)],
      ⟨by simpa using hsplit, by simpa using chunk_bounded pushes, by simp⟩, by simp, ?_⟩
    rw [closing, hck, hrecorded]
    rfl
  | @chunk a t results more rest ih =>
    let chunk := a.pushes.take PUSH_CHUNK
    have hsplit : chunk ++ a.pushes.drop PUSH_CHUNK = a.pushes := List.take_append_drop _ _
    have hpushes : a.pushes ≠ [] := fun hnil => more (by rw [hnil]; rfl)
    obtain ⟨hcoll, hdropped, hckRec, -, hpend⟩ := a.recorded_spec results
    have hresults : ∀ r ∈ results, r.handle ∈ chunk.map (fun k => k.handle) :=
      hnamed (chunk, results) (by simp [Transcript.pushes, chunk])
    have hrecorded := recorded_chunk hbox hresults
    rw [← hsplit, List.map_append, List.nodup_append] at hdistinct
    obtain ⟨-, hdrop, hapart⟩ := hdistinct
    let later : ReplicaSync := { a.recorded results with writes := [] }
    have hlater : later.pushes = a.pushes.drop PUSH_CHUNK := hdropped
    have hboxLater : ∀ k ∈ later.pushes, later.pendingAt k.handle = box k.handle := by
      intro k hk
      rw [hlater] at hk
      have hkmem := List.mem_map_of_mem (f := fun k : ReplicaChange => k.handle) hk
      have hout : k.handle ∉ chunk.map (fun k => k.handle) := fun hin => hapart _ hin _ hkmem rfl
      have hlp : later.pendingAt k.handle = (a.recorded results).pendingAt k.handle := rfl
      rw [hlp, hpend, Outbox.forget, if_neg hout, Outbox.settleAll_unaccepted _ _ results
        (fun r hr _ he => hout (by rw [← he]; exact hresults r hr))]
      exact hbox k (hsplit ▸ List.mem_append_right _ hk)
    obtain ⟨chunks, hchunked, hne, hv⟩ := ih (hckRec.trans hck) hboxLater
      (by rw [hdropped]; exact hdrop)
      (fun e he => hnamed e (by simpa [Transcript.pushes] using Or.inr he))
    rw [hdropped] at hchunked hne
    have hchunks : chunks ≠ [] := hne more
    have hfull : chunk.length = PUSH_CHUNK := by
      have hpos := List.length_pos_of_ne_nil more
      rw [List.length_drop] at hpos
      simp only [chunk, List.length_take]
      omega
    refine ⟨(chunk, results) :: chunks, ⟨?_, ?_, ?_⟩, by simp, ?_⟩
    · rw [List.map_cons, List.flatten_cons, hchunked.all]
      exact hsplit
    · intro e he
      rcases List.mem_cons.mp he with rfl | he
      · exact chunk_bounded hpushes
      · exact hchunked.bounded e he
    · intro e he
      rw [List.dropLast_cons_of_ne_nil hchunks] at he
      rcases List.mem_cons.mp he with rfl | he
      · exact hfull
      · exact hchunked.full e he
    · obtain ⟨next, chunks, rfl⟩ := List.exists_cons_of_ne_nil hchunks
      rw [hv, hrecorded, hcoll]
      rfl

/-- The writes a group of candidates derives, in order. -/
def derived (collection : ReplicaCollectionId) (opts : ReplicaSyncOptions) (cs : List Candidate) :
    List ReplicaWriteOp := cs.flatMap (fun c => (effect collection opts c).1.writes)

/-- A walk merges the candidates up to the first full batch, whole ones. -/
theorem walk_cut (cs : List Candidate) (self : ReplicaSync) :
    match walk cs self with
    | (out, none) => out = self.mergeAll cs
    | (out, some rest) => ∃ group, cs = group ++ rest ∧ group ≠ [] ∧ out = self.mergeAll group ∧
        WRITE_CHUNK ≤ out.writes.length := by
  induction cs generalizing self with
  | nil => rfl
  | cons c cs ih =>
    simp only [walk]
    by_cases hfull : WRITE_CHUNK ≤ (self.mergeCandidate c).writes.length
    · rw [if_pos hfull]
      exact ⟨[c], rfl, by simp, rfl, hfull⟩
    · rw [if_neg hfull]
      have hrest := ih (self.mergeCandidate c)
      cases hw : walk cs (self.mergeCandidate c) with
      | mk out rest =>
        rw [hw] at hrest
        cases rest with
        | none => exact hrest
        | some rest =>
          obtain ⟨group, hcs, -, hout, hlen⟩ := hrest
          exact ⟨c :: group, by rw [hcs]; rfl, by simp, hout, hlen⟩

/-- Where a merge stands when its pushes begin. -/
structure Merged (a : ReplicaSync) (cs last : List Candidate) (checkpoint : ReplicaCheckpoint)
    (out : ReplicaSync) : Prop where
  collection : out.collection = a.collection
  nextCheckpoint : out.nextCheckpoint = some checkpoint
  pushes : out.pushes = (a.mergeAll cs).pushes
  pending : out.pendingAt = (a.mergeAll cs).pendingAt
  writes : out.writes = derived a.collection a.opts last

theorem mergeAll_writes (self : ReplicaSync) {cs : List Candidate} (hpaired : ∀ c ∈ cs, c.Paired)
    (hasc : cs.Pairwise (fun a b => a.handle < b.handle)) :
    (self.mergeAll cs).writes = self.writes ++ derived self.collection self.opts cs := by
  have hext := extend_mergeAll self (new self.collection self.opts) cs
  rw [extend_new] at hext
  rw [hext, derived, ← (mergedAll self.collection self.opts cs hpaired hasc).writes]
  rfl

/-- Merging goes on from a flushed batch as it would have from the full one. -/
theorem flushed_mergeAll (self : ReplicaSync) (cs : List Candidate) :
    self.mergeAll cs = (self.flushed.mergeAll cs).unflushed self.merging self.state self.writes := by
  rw [← unflushed_mergeAll]
  simp [unflushed, flushed]

/-- A merge from where it stands: closed with every candidate merged, or a full batch of whole
candidates flushed and what is left merged on. -/
inductive Batches (report : ReplicaSyncReport) : ReplicaSync → Merge → Transcript → Prop
  | close {a : ReplicaSync} {m : Merge} {t : Transcript}
      (drains : Drains report ((a.mergeAll m.candidates).closed m.checkpoint) t) : Batches report a m t
  | flush {a : ReplicaSync} {m m' : Merge} {t : Transcript} (group : List Candidate)
      (cut : m.candidates = group ++ m'.candidates) (checkpoint : m'.checkpoint = m.checkpoint)
      (full : WRITE_CHUNK ≤ (a.mergeAll group).writes.length)
      (rest : Batches report (a.mergeAll group).flushed m' t) :
      Batches report a m (written (a.mergeAll group).writes :: t)

theorem batches_of_length (n : ℕ) (self : ReplicaSync) (m : Merge) (t : Transcript)
    (report : ReplicaSyncReport) (hn : m.candidates.length ≤ n) (hk : self.nextCheckpoint = none)
    (h : Ends (self.mergingAt m).mergeStep t (.ok report)) : Batches report self m t := by
  induction n using Nat.strong_induction_on generalizing self m t with
  | _ n ih =>
    have hwalk := self.mergeStep_walk m
    have hcut := walk_cut m.candidates self
    cases hout : walk m.candidates self with
    | mk out rest =>
      rw [hout] at hwalk hcut
      cases rest with
      | none =>
        dsimp only at hwalk hcut
        rw [hwalk, hcut] at h
        exact .close (step_drains h)
      | some rest =>
        obtain ⟨m', hmc, rfl, hstep⟩ := hwalk
        obtain ⟨group, hcs, hgroup, rfl, hfull⟩ := hcut
        have hk' := (self.nextCheckpoint_mergeAll group).trans hk
        rw [hstep, mergingAt_flush, flush, flush_batch hk'] at h
        obtain ⟨b, u, rfl, hruns⟩ := h
        obtain rfl := answered_write hruns (Or.inr rfl)
        have hlt : m'.candidates.length < m.candidates.length := by
          rw [hcs, List.length_append]
          have := List.length_pos_of_ne_nil hgroup
          omega
        exact .flush group hcs hmc hfull (ih m'.candidates.length (by omega)
          (self.mergeAll group).flushed m' u le_rfl hk' (ends_merging hruns rfl))

/-- A merge goes on in batches. -/
theorem mergeStep_batches {self : ReplicaSync} {m : Merge} {t : Transcript}
    {report : ReplicaSyncReport} (hk : self.nextCheckpoint = none)
    (h : Ends (self.mergingAt m).mergeStep t (.ok report)) : Batches report self m t :=
  batches_of_length _ self m t report le_rfl hk h

/-- Merging what is left of a flushed merge is merging it all. -/
theorem mergeAll_flushed (self : ReplicaSync) (group rest : List Candidate) :
    self.mergeAll (group ++ rest) = ((self.mergeAll group).flushed.mergeAll rest).unflushed
      (self.mergeAll group).merging (self.mergeAll group).state (self.mergeAll group).writes := by
  rw [← flushed_mergeAll, mergeAll, List.foldl_append]
  rfl

/-- A merge hands over batches of whole candidates, each full, then turns to its pushes. -/
theorem Batches.merged {report : ReplicaSyncReport} {self : ReplicaSync} {m : Merge}
    {t : Transcript} (h : Batches report self m t) (hw : self.writes = [])
    (hpaired : ∀ c ∈ m.candidates, c.Paired)
    (hasc : m.candidates.Pairwise (fun a b => a.handle < b.handle)) :
    ∃ (groups : List (List Candidate)) (last : List Candidate) (out : ReplicaSync) (u : Transcript),
      m.candidates = groups.flatten ++ last ∧
      (∀ g ∈ groups, WRITE_CHUNK ≤ (derived self.collection self.opts g).length) ∧
      t = groups.map (fun g => written (derived self.collection self.opts g)) ++ u ∧
      Merged self m.candidates last m.checkpoint out ∧ Drains report out u := by
  induction h with
  | @close a m t drains =>
    refine ⟨[], m.candidates, (a.mergeAll m.candidates).closed m.checkpoint, t, rfl, by simp, rfl,
      ⟨a.mergeAll_collection hpaired, rfl, rfl, rfl, ?_⟩, drains⟩
    have hwr := a.mergeAll_writes hpaired hasc
    rw [hw, List.nil_append] at hwr
    exact hwr
  | @flush a m m' t group cut checkpoint full rest ih =>
    rw [cut] at hpaired hasc
    have hpGroup : ∀ c ∈ group, c.Paired := fun c hc => hpaired c (List.mem_append_left _ hc)
    obtain ⟨hascGroup, hascRest, -⟩ := List.pairwise_append.mp hasc
    have hwr := a.mergeAll_writes hpGroup hascGroup
    rw [hw, List.nil_append] at hwr
    have hcoll : (a.mergeAll group).flushed.collection = a.collection :=
      a.mergeAll_collection hpGroup
    have hopts : (a.mergeAll group).flushed.opts = a.opts := a.mergeAll_opts hpGroup
    have hall := a.mergeAll_flushed group m'.candidates
    rw [← cut] at hall
    obtain ⟨groups, last, out, v, hsplit, hfull, hu, hm, hv⟩ :=
      ih rfl (fun c hc => hpaired c (List.mem_append_right _ hc)) hascRest
    rw [hcoll, hopts] at hfull hu
    refine ⟨group :: groups, last, out, v, ?_, ?_, ?_, ⟨?_, ?_, ?_, ?_, ?_⟩, hv⟩
    · rw [cut, hsplit, List.flatten_cons, List.append_assoc]
    · intro g hg
      rcases List.mem_cons.mp hg with rfl | hg
      · rw [← hwr]
        exact full
      · exact hfull g hg
    · rw [hu, List.map_cons, List.cons_append, ← hwr]
    · rw [hm.collection, hcoll]
    · rw [hm.nextCheckpoint, checkpoint]
    · rw [hm.pushes, hall]
      rfl
    · rw [hm.pending, hall]
      rfl
    · rw [hm.writes, hcoll, hopts]

/-- The flag axis awaits the change it derives. -/
theorem reconcileFlags_awaited (d : ReplicaSync) (p : ReplicaPlacement) (item : ReplicaRemoteItem)
    (allow : PushFlags) {kind : ReplicaChangeKind}
    (h : (d.reconcileFlags p item allow).2 = some kind) :
    kind.Awaited ((d.reconcileFlags p item allow).1.pendingAt p.handle) := by
  cases hb : p.base with
  | none => simp [reconcileFlags, ReplicaPlacement.baseFlags, hb] at h
  | some base =>
    obtain ⟨-, hpend, hchange⟩ := d.reconcileFlags_spec hb item allow
    rw [hchange] at h
    rw [hpend]
    split at h
    · rename_i hpush
      cases h
      rw [if_pos hpush]
      rfl
    · cases h

theorem mergeTombstone_awaited (d : ReplicaSync) (h : ReplicaHandle) (p : ReplicaPlacement)
    (item : ReplicaRemoteItem) {kind : ReplicaChangeKind}
    (hk : (d.mergeTombstone h p item).2 = some kind) :
    kind.Awaited ((d.mergeTombstone h p item).1.pendingAt h) := by
  have hrefuse : (d.refuseDelete p).2 ≠ some kind := by
    cases hd : d.opts.delete <;> simp [refuseDelete, hd]
  simp only [mergeTombstone] at hk ⊢
  split at hk
  · cases hk
  · rename_i hmoved
    rw [if_neg hmoved]
    split at hk
    · rename_i hstaged
      rw [if_pos hstaged]
      split at hk
      · exact absurd hk hrefuse
      · rename_i hmay
        rw [if_neg hmay]
        cases ho : p.object with
        | none => simp [ho] at hk
        | some object =>
          simp only [ho] at hk ⊢
          cases hk
          simp [ReplicaChangeKind.Awaited, pendingAt, stashContent]
    · rename_i hstaged
      rw [if_neg hstaged]
      split at hk
      · exact absurd hk hrefuse
      · rename_i hmay
        rw [if_neg hmay]
        cases hk
        simp [ReplicaChangeKind.Awaited, pendingAt, stashDrop]

theorem pushAdd_awaited (d : ReplicaSync) (h : ReplicaHandle) (p : ReplicaPlacement)
    {kind : ReplicaChangeKind} (hk : (d.pushAdd h p).2 = some kind) :
    kind.Awaited ((d.pushAdd h p).1.pendingAt h) := by
  cases hk
  simp [ReplicaChangeKind.Awaited, pushAdd, pendingAt, stashCreate]

theorem mergePresent_awaited (d : ReplicaSync) (p : ReplicaPlacement) (item : ReplicaRemoteItem)
    {kind : ReplicaChangeKind} (hk : (d.mergePresent p item).2 = some kind) :
    kind.Awaited ((d.mergePresent p item).1.pendingAt p.handle) := by
  have hnames := (Local.refl p.handle p.object d).reconcileContent item rfl
  simp only [mergePresent] at hk ⊢
  cases hc : d.reconcileContent p item with
  | mk e outcome =>
    rw [hc] at hk hnames
    cases outcome with
    | untouched => exact reconcileFlags_awaited e p item .derive hk
    | rewritten q =>
      have hq : q.handle = p.handle := hnames.2
      rw [← hq]
      exact reconcileFlags_awaited e q item .derive hk
    | push change =>
      cases hk
      obtain ⟨he, hbased, o, ifMatch, -, rfl⟩ := d.reconcileContent_push (by rw [hc])
      rw [hc] at he
      dsimp only at he
      obtain ⟨base, hb⟩ := Option.isSome_iff_exists.mp hbased
      have hpend := (e.reconcileFlags_spec hb item .withhold).2.1
      have hno : pushesFlags e.opts base p item .withhold = false := by simp [pushesFlags]
      simp only [hno, Bool.false_eq_true, if_false] at hpend
      rw [hpend, he]
      simp [ReplicaChangeKind.Awaited, pendingAt, stashContent]

/-- Every change a merge derives is awaited by the handle it names. -/
theorem merge_awaited (self : ReplicaSync) {c : Candidate} (hc : c.Paired)
    {kind : ReplicaChangeKind} (hk : (self.merge c).2 = some kind) :
    kind.Awaited ((self.merge c).1.pendingAt c.handle) := by
  obtain ⟨h, loc, remote⟩ := c
  obtain ⟨hloc, -⟩ := hc
  cases loc with
  | none => cases remote <;> cases hk
  | some p =>
    have hp : p.handle = h := hloc p rfl
    by_cases hs : p.status = .tombstone
    · rw [merge_tombstone _ _ hs] at hk ⊢
      cases remote with
      | none => cases hk
      | some item =>
        dsimp only at hk ⊢
        split at hk
        · rename_i hbased
          rw [if_pos hbased]
          exact mergeTombstone_awaited self h p item hk
        · cases hk
    · rw [merge_live _ _ hs] at hk ⊢
      cases remote with
      | some item =>
        subst hp
        exact mergePresent_awaited self p item hk
      | none =>
        dsimp only at hk ⊢
        split at hk
        · rename_i hbased
          rw [if_pos hbased]
          simp only [mergeVanished] at hk ⊢
          split at hk
          · rename_i hedited
            rw [if_pos hedited]
            split at hk
            · cases hk
            · rename_i hmay
              rw [if_neg hmay]
              exact pushAdd_awaited _ h _ hk
          · cases hk
        · rename_i hbased
          rw [if_neg hbased]
          simp only [mergeCreate] at hk ⊢
          split at hk
          · rename_i hmay
            rw [if_pos hmay]
            exact pushAdd_awaited self h p hk
          · cases hk

/-- A merge writes rows, never the checkpoint. -/
theorem derived_rows {collection : ReplicaCollectionId} {opts : ReplicaSyncOptions}
    {cs : List Candidate} (hpaired : ∀ c ∈ cs, c.Paired) :
    ∀ op ∈ derived collection opts cs, op.row.isSome := by
  intro op hop
  obtain ⟨c, hc, hop⟩ := List.mem_flatMap.mp hop
  obtain ⟨ops, hops, hrow⟩ := ((new collection opts).merge_local (hpaired c hc)).1.writes
  rw [effect, hops] at hop
  rcases hrow op hop with hr | ⟨g, hr, -⟩ <;> rw [hr] <;> rfl

end ReplicaSync

theorem Pending.record_rows (collection : ReplicaCollectionId) (awaits : Pending)
    (r : ReplicaPushResult) : ∀ op ∈ awaits.record collection r, op.row.isSome := by
  intro op hop
  simp only [Pending.record, List.mem_append, Option.mem_toList, Option.map_eq_some_iff] at hop
  rcases hop with ((⟨p, -, rfl⟩ | ⟨p, -, rfl⟩) | hop) | hop
  · rfl
  · rfl
  · split at hop
    · rw [List.mem_singleton.mp hop]
      rfl
    · cases hop
  · cases hc : awaits.created with
    | none => simp [hc] at hop
    | some p =>
      simp only [hc, Option.map_some, Option.getD_some, Pending.recordCreate, List.mem_cons,
        Option.mem_toList, Option.map_eq_some_iff] at hop
      rcases hop with rfl | ⟨a, -, rfl⟩ <;> rfl

namespace Outbox

/-- An awaited change leaves a row to write once it is accepted. -/
theorem record_awaited {awaits : Pending} {kind : ReplicaChangeKind} (h : kind.Awaited awaits)
    (collection : ReplicaCollectionId) (r : ReplicaPushResult) :
    awaits.record collection r ≠ [] := by
  intro hnil
  simp only [Pending.record, List.append_eq_nil_iff] at hnil
  obtain ⟨⟨⟨hflags, hcontent⟩, hdropped⟩, hcreated⟩ := hnil
  cases kind with
  | add =>
    obtain ⟨p, hp⟩ := Option.isSome_iff_exists.mp h
    simp [hp, Pending.recordCreate] at hcreated
  | remove =>
    have hd : awaits.dropped = true := h
    simp [hd] at hdropped
  | setFlags =>
    obtain ⟨p, hp⟩ := Option.isSome_iff_exists.mp h
    simp [hp] at hflags
  | update =>
    obtain ⟨p, hp⟩ := Option.isSome_iff_exists.mp h
    simp [hp] at hcontent

theorem recordAll_rows (collection : ReplicaCollectionId) (box : Outbox) (es : List PushExchange) :
    ∀ op ∈ box.recordAll collection es, op.row.isSome := by
  intro op hop
  obtain ⟨r, -, -, hop⟩ := recordAll_mem es hop
  exact Pending.record_rows collection _ r op hop

end Outbox

/-- The changes a run derives, in candidate order. -/
def derivedChanges (collection : ReplicaCollectionId) (opts : ReplicaSyncOptions)
    (cs : List Candidate) : List ReplicaChange :=
  cs.filterMap (fun c => (effect collection opts c).2.map (ReplicaChange.new collection))

/-- A run from its enumerate reply on: the batches of `groups` of candidates, then the `chunks` of
changes, the writes of the `last` candidates riding along with the first record. -/
structure Recorded (collection : ReplicaCollectionId) (opts : ReplicaSyncOptions)
    (loaded : ReplicaLoaded) (snapshot : ReplicaRemoteSnapshot) (groups : List (List Candidate))
    (last : List Candidate) (chunks : List PushExchange) (box : Outbox) (t : Transcript) :
    Prop where
  cut : mergedCandidates loaded snapshot = groups.flatten ++ last
  full : ∀ g ∈ groups,
    ReplicaSync.WRITE_CHUNK ≤ (ReplicaSync.derived collection opts g).length
  chunked : Chunked (derivedChanges collection opts (mergedCandidates loaded snapshot)) chunks
  ordered : (derivedChanges collection opts (mergedCandidates loaded snapshot)).Pairwise
    (fun k l => k.handle < l.handle)
  awaits : ∀ c ∈ mergedCandidates loaded snapshot,
    box c.handle = (effect collection opts c).1.pendingAt c.handle
  outcomes : ∀ e ∈ chunks, ∀ k ∈ e.1, ∀ r, e.2.find? (fun x => x.confirms k.handle) = some r →
    (box k.handle).record collection r ≠ [] ∧
      (box k.handle).record collection r <:+: box.recorded collection e.2
  exchanges : t = groups.map (fun g => written (ReplicaSync.derived collection opts g)) ++
    pushPhase collection box snapshot.checkpoint (ReplicaSync.derived collection opts last) chunks
  closes : ∃ ops, t.writes = ops ++ [.setCheckpoint collection snapshot.checkpoint] ∧
    ∀ op ∈ ops, op.row.isSome

theorem derivedChanges_ordered (collection : ReplicaCollectionId) (opts : ReplicaSyncOptions)
    {cs : List Candidate} (hpaired : ∀ c ∈ cs, c.Paired)
    (hasc : cs.Pairwise (fun a b => a.handle < b.handle)) :
    (derivedChanges collection opts cs).Pairwise (fun k l => k.handle < l.handle) := by
  have hnames : ∀ c ∈ cs, ∀ k ∈ (effect collection opts c).2.map (ReplicaChange.new collection),
      k.handle = c.handle := by
    intro c hc k hk
    obtain ⟨kind, hkind, rfl⟩ := Option.map_eq_some_iff.mp (Option.mem_def.mp hk)
    exact ((ReplicaSync.new collection opts).merge_local (hpaired c hc)).2 kind hkind
  rw [derivedChanges, List.pairwise_filterMap]
  refine hasc.imp_of_mem ?_
  intro c d hc hd hcd k hk l hl
  rw [hnames c hc k hk, hnames d hd l hl]
  exact hcd

namespace ReplicaSync

/-- A run still waiting for an answer of the kind it asked for. -/
theorem reaches_awaits {a b : ReplicaSync} {x y : Option ReplicaArg} {t : Transcript}
    (h : Coroutine.Reaches resume a x t b y) (hkind : ∀ e ∈ t, e.2.Answers e.1)
    (ha : a.Awaits x) : b.Awaits y := by
  induction h with
  | refl => exact ha
  | ask yields _ ih =>
    refine ih (fun e he => hkind e (List.mem_cons_of_mem _ he)) ?_
    rcases resume_awaited ha with hw | ⟨c, report, hc⟩
    · rw [yields] at hw
      exact hw.1 _ (hkind _ List.mem_cons_self)
    · rw [yields] at hc
      cases hc

/-- A run cut short can go on to its end, with nothing reported on what it still pushes. -/
theorem awaits_completes {a : ReplicaSync} {x : Option ReplicaArg} (ha : a.Awaits x) :
    ∃ u report, Coroutine.Runs resume a x u (.ok report) ∧ ∀ e ∈ Transcript.pushes u, e.2 = [] := by
  have hsilent : ∀ {s s' : Seam} {u : Transcript}, Coroutine.Follows Seam.service s u s' →
      s.replies = [] → ∀ e ∈ Transcript.pushes u, e.2 = [] := by
    intro s s' u h
    induction h with
    | nil => exact fun _ e he => by cases he
    | @cons s s' y u rest ih =>
      intro hs e he
      cases y with
      | wantsPush collection changes =>
        rcases List.mem_cons.mp he with rfl | he
        · simp only [hs, List.headD_nil]
        · exact ih (by simp only [Seam.service, hs, List.tail_nil]) e he
      | wantsWrite | wantsLoad | wantsEnumerate | wantsFetch | wantsLookupObject =>
        exact ih hs e he
  let silent : Seam := ⟨CollectionRows.empty, none, ⟨[], [], true, ⟨[]⟩⟩, []⟩
  obtain ⟨fuel, s, u, report, hd⟩ := drive_awaits Seam.service Seam.service_answers _ ha silent
  obtain ⟨hruns, hfollows⟩ := Coroutine.drive_runs hd
  exact ⟨u, report, hruns, hsilent hfollows rfl⟩

/-- From its enumerate reply on, a run batches what it merges, then drains its pushes. -/
theorem runs_merged {collection : ReplicaCollectionId} {opts : ReplicaSyncOptions}
    {loaded : ReplicaLoaded} {snapshot : ReplicaRemoteSnapshot} {t : Transcript}
    {report : ReplicaSyncReport}
    (h : Coroutine.Runs resume (new collection opts) none
      (enumerated collection opts loaded snapshot t) (.ok report)) :
    ∃ (groups : List (List Candidate)) (last : List Candidate) (out : ReplicaSync) (u : Transcript),
      mergedCandidates loaded snapshot = groups.flatten ++ last ∧
      (∀ g ∈ groups, WRITE_CHUNK ≤ (derived collection opts g).length) ∧
      t = groups.map (fun g => written (derived collection opts g)) ++ u ∧
      Merged (new collection opts) (mergedCandidates loaded snapshot) last snapshot.checkpoint out ∧
      Drains report out u := by
  obtain ⟨hasc, hpaired, -⟩ :=
    Merge.candidates_spec (CollectionRows.ofLoad loaded.placements) snapshot
  let m := Merge.between (collectPlacements loaded.placements) snapshot
  let start := opened collection opts (if opts.full then none else loaded.checkpoint) m
  have hbatches : Batches report start m t := mergeStep_batches rfl (runs_enumerated.mp h)
  have hstart : start.mergeAll m.candidates = _ :=
    opened_mergeAll collection opts (if opts.full then none else loaded.checkpoint) m m.candidates
  obtain ⟨groups, last, out, u, hcut, hfull, ht, hm, hu⟩ := hbatches.merged rfl hpaired hasc
  exact ⟨groups, last, out, u, hcut, hfull, ht, ⟨hm.collection, hm.nextCheckpoint,
    hm.pushes.trans ((congrArg pushes hstart).trans rfl),
    hm.pending.trans ((congrArg pendingAt hstart).trans rfl), hm.writes⟩, hu⟩

theorem recorded_of_runs {collection : ReplicaCollectionId} {opts : ReplicaSyncOptions}
    {loaded : ReplicaLoaded} {snapshot : ReplicaRemoteSnapshot} {t : Transcript}
    {report : ReplicaSyncReport}
    (h : Coroutine.Runs resume (new collection opts) none
      (enumerated collection opts loaded snapshot t) (.ok report)) (hnamed : Transcript.InFlight t) :
    ∃ groups last chunks box,
      Recorded collection opts loaded snapshot groups last chunks box t := by
  obtain ⟨hasc, hpaired, -⟩ :=
    Merge.candidates_spec (CollectionRows.ofLoad loaded.placements) snapshot
  let cs := mergedCandidates loaded snapshot
  obtain ⟨groups, last, out, u, hcut, hfull, ht, hm, hu⟩ := runs_merged h
  have hall := mergedAll collection opts cs hpaired hasc
  have hpushes : out.pushes = derivedChanges collection opts cs := hm.pushes.trans hall.pushes
  have hordered := derivedChanges_ordered collection opts hpaired hasc
  have hbox : ∀ c ∈ cs, out.pendingAt c.handle = (effect collection opts c).1.pendingAt c.handle := by
    intro c hc
    rw [hm.pending]
    exact hall.pending c hc
  obtain ⟨chunks, hchunked, -, hv⟩ := hu.pushPhase out.pendingAt snapshot.checkpoint
    hm.nextCheckpoint (fun k _ => rfl)
    (by
      rw [hpushes, List.Nodup, List.pairwise_map]
      exact hordered.imp (fun hlt => ne_of_lt hlt))
    (fun e he => hnamed e (by
      rw [ht, Transcript.pushes, List.filterMap_append]
      exact List.mem_append_right _ he))
  rw [hpushes] at hchunked
  obtain ⟨box, hwhole⟩ := Syncs.whole ⟨t, report, rfl, h⟩
  refine ⟨groups, last, chunks, out.pendingAt, hcut, hfull, hchunked, hordered, hbox, ?_, ?_, ?_⟩
  · intro e he k hk r hr
    refine ⟨?_, Outbox.recorded_infix _ e.2 hr⟩
    have hmem : k ∈ derivedChanges collection opts cs := by
      rw [← hchunked.all]
      exact List.mem_flatten_of_mem (List.mem_map_of_mem he) hk
    obtain ⟨c, hc, hkc⟩ := List.mem_filterMap.mp hmem
    obtain ⟨kind, hkind, rfl⟩ := Option.map_eq_some_iff.mp hkc
    have hname : kind.handle = c.handle := ((new collection opts).merge_local (hpaired c hc)).2 kind hkind
    rw [ReplicaChange.new_handle, hname, hbox c hc]
    exact Outbox.record_awaited (merge_awaited _ (hpaired c hc) hkind) collection r
  · rw [ht, hv, hm.collection, hm.writes]
    rfl
  · have hwrites := hwhole.writes
    rw [← List.append_assoc] at hwrites
    refine ⟨_, hwrites, ?_⟩
    intro op hop
    rcases List.mem_append.mp hop with hop | hop
    · exact derived_rows hpaired op hop
    · exact Outbox.recordAll_rows collection box _ op hop

/-- Every run records before the next: from the enumerate reply on, full batches of whole
candidates, then the derived changes in handle order, chunk after chunk, each recorded by the write
right after it, and the checkpoint as the last write of all. A run cut short is the start of one
that completes. -/
theorem record_before_next (collection : ReplicaCollectionId) (opts : ReplicaSyncOptions)
    (loaded : ReplicaLoaded) (snapshot : ReplicaRemoteSnapshot) :
    (∀ t report, Coroutine.Runs resume (new collection opts) none
        (enumerated collection opts loaded snapshot t) (.ok report) → Transcript.InFlight t →
      ∃ groups last chunks box,
        Recorded collection opts loaded snapshot groups last chunks box t) ∧
    ∀ t a x, Coroutine.Reaches resume (new collection opts) none
        (enumerated collection opts loaded snapshot t) a x →
      (∀ e ∈ t, e.2.Answers e.1) → Transcript.InFlight t →
      ∃ u report, Transcript.InFlight (t ++ u) ∧ Coroutine.Runs resume (new collection opts) none
        (enumerated collection opts loaded snapshot (t ++ u)) (.ok report) := by
  refine ⟨fun t report h hnamed => recorded_of_runs h hnamed, ?_⟩
  intro t a x hreach hkind hnamed
  have ha : a.Awaits x := by
    refine reaches_awaits hreach ?_ trivial
    intro e he
    rcases List.mem_cons.mp he with rfl | he
    · trivial
    · rcases List.mem_cons.mp he with rfl | he
      · trivial
      · exact hkind e he
  obtain ⟨u, report, hruns, hsilent⟩ := awaits_completes ha
  refine ⟨u, report, ?_, hreach.runs hruns⟩
  intro e he r hr
  rw [Transcript.pushes, List.filterMap_append] at he
  rcases List.mem_append.mp he with he | he
  · exact hnamed e he r hr
  · rw [hsilent e he] at hr
    cases hr

section Runs

open StagedEdit

theorem crowded_lengths {t : Transcript}
    (h : t.pushes.map (fun e => (e.1.map (·.kind), e.2)) = crowdedChunks.zip crowded.replies) :
    t.pushes.map (·.1.length) = [64, 2] := by
  have hmapped := congrArg (List.map (fun e => e.1.length)) h
  simp only [List.map_map, Function.comp_def, List.length_map] at hmapped
  rw [hmapped]
  decide

theorem crowded_inFlight {t : Transcript}
    (h : t.pushes.map (fun e => (e.1.map (·.kind), e.2)) = crowdedChunks.zip crowded.replies) :
    t.InFlight := by
  have hown : ∀ e ∈ crowdedChunks.zip crowded.replies, ∀ r ∈ e.2,
      r.handle ∈ e.1.map (fun kind => kind.handle) := by decide +kernel
  intro e he r hr
  have hmem := hown _ (h ▸ List.mem_map_of_mem he) r hr
  rwa [List.map_map] at hmem

/-- A run of sixty-six changes, read as two chunks, each with its record; stopped once the first is
pushed, it could still complete. -/
theorem record_before_next_crowded : ∃ t, t.pushes.map (·.1.length) = [64, 2] ∧
    (∃ groups last chunks box, Recorded ⟨"contacts"⟩ .default ⟨crowded.rows.placements, none⟩
      crowded.snapshot groups last chunks box t) ∧
    ∃ u report, Transcript.InFlight (t.take 1 ++ u) ∧
      Coroutine.Runs resume (new ⟨"contacts"⟩ .default) none (enumerated ⟨"contacts"⟩ .default
        ⟨crowded.rows.placements, none⟩ crowded.snapshot (t.take 1 ++ u)) (.ok report) := by
  obtain ⟨⟨s, t⟩, hd, hpushes⟩ := Option.map_eq_some_iff.mp crowded_run
  obtain ⟨⟨rest, report, ht, hruns⟩, -⟩ := Seam.sync_syncs hd
  have hflight : Transcript.InFlight t := crowded_inFlight hpushes
  have hanswers := Seam.sync_answers hd
  have hlengths : t.pushes.map (·.1.length) = [64, 2] := crowded_lengths hpushes
  subst ht
  have hspec := record_before_next ⟨"contacts"⟩ .default ⟨crowded.rows.placements, none⟩
    crowded.snapshot
  have hmem : ∀ e ∈ rest.take 1, e ∈ enumerated ⟨"contacts"⟩ .default
      ⟨crowded.rows.placements, none⟩ crowded.snapshot rest := fun e he =>
    List.mem_cons_of_mem _ (List.mem_cons_of_mem _ (List.mem_of_mem_take he))
  refine ⟨rest, hlengths, hspec.1 rest report hruns hflight, ?_⟩
  have hsplit : enumerated ⟨"contacts"⟩ .default ⟨crowded.rows.placements, none⟩ crowded.snapshot rest =
      enumerated ⟨"contacts"⟩ .default ⟨crowded.rows.placements, none⟩ crowded.snapshot
        (rest.take 1) ++ rest.drop 1 :=
    congrArg (fun l => _ :: _ :: l) (List.take_append_drop 1 rest).symm
  have hwhole : Coroutine.Runs resume (new ⟨"contacts"⟩ .default) none (enumerated ⟨"contacts"⟩
      .default ⟨crowded.rows.placements, none⟩ crowded.snapshot rest) (.ok report) := hruns
  rw [hsplit] at hwhole
  obtain ⟨a, x, hreach, -⟩ := hwhole.reaches
  refine hspec.2 (rest.take 1) a x hreach (fun e he => hanswers e (hmem e he)) ?_
  exact fun e he => hflight e (((List.take_sublist 1 rest).filterMap _).subset he)

end Runs

end ReplicaSync
end IoReplica

import IoReplica.Diverging
import IoReplica.MemStorage
import IoReplica.Sync.Chunks
import IoReplica.Sync.Protocol

/-! What a client's call leaves stored, whatever its seams answer and wherever one of them fails. -/
namespace IoReplica

open Coroutine (Progress)

namespace Stored

/-- Every exchange of the transcript is one with the store as it stands. -/
def Reads (s : Stored) (t : Transcript) : Prop := ∀ e ∈ t, ∃ s', s.Granted e.1 s' e.2

variable {s s' : Stored} {t : Transcript}

theorem Reads.loads (h : s.Reads t) {c : ReplicaCollectionId} {scope : ReplicaLoadScope}
    {loaded : ReplicaLoaded} (hmem : (.wantsLoad c scope, .load loaded) ∈ t) :
    s.Loads c scope loaded := by
  obtain ⟨s', hgranted⟩ := h _ hmem
  cases hgranted with
  | load loads => exact loads
  | remote own => exact own.elim

/-- Every row loaded was loaded of the store. -/
theorem Reads.loaded (h : s.Reads t) {p : ReplicaPlacement} (hp : p ∈ t.loaded) :
    ∃ c scope loaded, (.wantsLoad c scope, .load loaded) ∈ t ∧ s.Loads c scope loaded ∧
      p ∈ loaded.placements := by
  obtain ⟨⟨y, a⟩, hmem, hp⟩ := List.mem_flatMap.mp hp
  cases a with
  | load loaded =>
    obtain ⟨s', hgranted⟩ := h _ hmem
    cases hgranted with
    | load loads => exact ⟨_, _, _, hmem, loads, hp⟩
    | @remote y _ own kind => cases y <;> first | exact own.elim | exact kind.elim
  | enumerate | fetch | push | lookupObject | write => cases hp

/-- Every body looked up was found in the store. -/
theorem Reads.known (h : s.Reads t) {link : ReplicaLinkId} {hash : ReplicaHash}
    (hk : t.known[link]? = some hash) : ∃ links known, s.Finds links known ∧
      known[link]? = some hash := by
  rw [Transcript.known] at hk
  cases hf : t.findSome? (fun e => e.2.known?) with
  | none =>
    rw [hf] at hk
    simp at hk
  | some known =>
    rw [hf, Option.getD_some] at hk
    obtain ⟨⟨y, a⟩, hmem, hknown⟩ := List.exists_of_findSome?_eq_some hf
    cases a with
    | lookupObject =>
      cases hknown
      obtain ⟨s', hgranted⟩ := h _ hmem
      cases hgranted with
      | lookup finds => exact ⟨_, _, finds, hk⟩
      | @remote y _ own kind => cases y <;> first | exact own.elim | exact kind.elim
    | enumerate | fetch | push | load | write => cases hknown

/-- A transcript that writes nothing leaves the store, and is read of it. -/
theorem Grants.idle (h : Grants s t s') (hidle : ∀ e ∈ t, ∀ ops, e.1 ≠ .wantsWrite ops) :
    s' = s ∧ s.Reads t := by
  obtain ⟨hstill, hreads⟩ := grants_reads h hidle
  exact ⟨hstill, fun e he => ⟨s, hreads e he⟩⟩

/-- A transcript that writes last leaves what it writes, the rest read of the store before. -/
theorem Grants.last {e : ReplicaYield × ReplicaArg} (h : Grants s (t ++ [e]) s')
    (hidle : ∀ e ∈ t, ∀ ops, e.1 ≠ .wantsWrite ops) :
    s' = s.apply (Transcript.writes (t ++ [e])) ∧ s.Reads (t ++ [e]) := by
  obtain ⟨s₁, ht, he⟩ := h.split
  obtain ⟨rfl, hreads⟩ := Grants.idle ht hidle
  refine ⟨grants_writes h, List.forall_mem_append.mpr ⟨hreads, List.forall_mem_singleton.mpr ?_⟩⟩
  cases he with
  | cons granted => exact ⟨_, granted⟩

/-- The rows a load of the whole collection collects are the stored ones. -/
theorem Loads.collect {c : ReplicaCollectionId} {loaded : ReplicaLoaded}
    (h : s.Loads c .all loaded) : collectPlacements loaded.placements = (s.rows.rows c).rows := by
  ext1 g
  cases hp : (s.rows.rows c).rows[g]? with
  | none =>
    refine Option.eq_none_iff_forall_ne_some.mpr (fun p hmem => ?_)
    have hstored := h.stored p (CollectionRows.mem_of_collect hmem)
    rw [row, CollectionRows.collect_keyed hmem, hp] at hstored
    cases hstored
  | some p =>
    have hh := (s.rows.rows c).keyed g p hp
    subst hh
    refine CollectionRows.collect_only (h.floor p.handle p hp rfl) (fun q hq hqp => ?_)
    have hstored := h.stored q hq
    rw [hqp, row, hp, Option.some.injEq] at hstored
    exact hstored.symm

end Stored

section Sync

variable {c : ReplicaCollectionId} {opts : ReplicaSyncOptions} {loaded : ReplicaLoaded}
  {snapshot : ReplicaRemoteSnapshot} {t : Transcript}

/-- A sync is of the rows its load collects and of the checkpoint beside them. -/
theorem Syncs.recollected {rest : Transcript}
    (h : Syncs c opts loaded snapshot ((.wantsLoad c .all, .load loaded) :: rest))
    {loaded' : ReplicaLoaded}
    (hrows : collectPlacements loaded'.placements = collectPlacements loaded.placements)
    (hcheckpoint : loaded'.checkpoint = loaded.checkpoint) :
    Syncs c opts loaded' snapshot ((.wantsLoad c .all, .load loaded') :: rest) := by
  obtain ⟨u, report, ht, hruns⟩ := h
  cases ht
  refine ⟨u, report, by rw [hcheckpoint], ?_⟩
  have hopen : ReplicaSync.awaitingEnumerate c opts loaded' =
      ReplicaSync.awaitingEnumerate c opts loaded := by
    simp only [ReplicaSync.awaitingEnumerate, hrows, hcheckpoint]
  have hends := ReplicaSync.runs_enumerated.mp hruns
  rw [← hopen] at hends
  have hruns' := ReplicaSync.runs_enumerated.mpr hends
  rw [← hcheckpoint]
  exact hruns'

theorem ReplicaSync.Drains.closes {report : ReplicaSyncReport} {out : ReplicaSync} {u : Transcript}
    (h : Drains report out u) : ∃ v ops,
    u = v ++ [IoReplica.written (ops ++ out.closing)] := by
  induction h with
  | @idle a => exact ⟨[], a.writes, rfl⟩
  | @last a results => exact ⟨[_], (a.recorded results).writes, rfl⟩
  | @chunk a u results more rest ih =>
    obtain ⟨v, ops, rfl⟩ := ih
    have hclosing : ReplicaSync.closing { a.recorded results with writes := [] } = a.closing :=
      a.recorded_closing results
    exact ⟨_ :: _ :: v, ops, by rw [hclosing]; rfl⟩

/-- A sync ends with the batch that sets its checkpoint, and writes rows alone before that. -/
theorem Syncs.closes (h : Syncs c opts loaded snapshot t) :
    ∃ v ops, t = v ++ [written (ops ++ [.setCheckpoint c snapshot.checkpoint])] ∧
      ∀ op ∈ Transcript.writes v ++ ops, op.row.isSome := by
  obtain ⟨box, hwhole⟩ := h.whole
  obtain ⟨rest, report, ht, hruns⟩ := h
  subst ht
  obtain ⟨groups, last, out, u, -, -, hrest, hmerged, hdrains⟩ := ReplicaSync.runs_merged hruns
  obtain ⟨v, ops, rfl⟩ := hdrains.closes
  have hclosing : out.closing = [.setCheckpoint c snapshot.checkpoint] := by
    rw [ReplicaSync.closing, hmerged.nextCheckpoint, hmerged.collection]
    rfl
  rw [hclosing] at hrest
  obtain ⟨pre, hpre⟩ : ∃ pre : Transcript,
      (.wantsLoad c .all, .load loaded) ::
        (.wantsEnumerate c (if opts.full then none else loaded.checkpoint), .enumerate snapshot) ::
          rest = pre ++ [written (ops ++ [.setCheckpoint c snapshot.checkpoint])] := by
    rw [hrest, ← List.append_assoc]
    exact ⟨_ :: _ :: _, rfl⟩
  refine ⟨pre, ops, hpre, ?_⟩
  -- the checkpoint is the last write either way, so what comes before it is the same
  have hwrites := hwhole.writes
  rw [hpre, Transcript.writes, List.flatMap_append, List.flatMap_singleton, ← List.append_assoc] at hwrites
  have hcut : Transcript.writes pre ++ ops = _ :=
    (List.append_inj' ((List.append_assoc _ _ _).trans hwrites) rfl).1
  rw [hcut]
  intro op hop
  rcases List.mem_append.mp hop with hop | hop
  · obtain ⟨d, hd, hop⟩ := List.mem_flatMap.mp hop
    exact ReplicaSync.derived_rows (fun d hd => mergedCandidates_paired hd) op
      (List.mem_flatMap.mpr ⟨d, hd, hop⟩)
  · exact Outbox.recordAll_rows c box _ op hop

end Sync

namespace ReplicaClient

variable {S R : Type} [ReplicaStorage S] [LawfulStorage S] [ReplicaRemote R]
  {client client' : ReplicaClient S R} {fuel : ℕ}

section Single

variable {C T E : Type} {Good : Except E T → Prop}
  {resume : C → Option ReplicaArg → C × ReplicaCoroutineState ReplicaYield (Except E T)}
  (p : Progress resume ReplicaArg.Answers Good) {c : C} (hc : p.Awaits c none)

/-- A call that writes last fails and leaves the store as it was, or leaves what its run writes over
what it read there. -/
theorem run_single {out : Except (Error S R E) T}
    (hlast : ∀ c, p.Awaits c (some .write) →
      ∃ c' x, resume c (some .write) = (c', .complete (.ok x)))
    (hc : p.Awaits c none) (h : run resume fuel c none client = some (client', out)) :
    (client'.stored = client.stored ∧ ∀ x, out ≠ .ok x) ∨
      ∃ (t : Transcript) (x : T), Coroutine.Runs resume c none t (.ok x) ∧ out = .ok x ∧
        client'.stored = client.stored.apply t.writes ∧ client.stored.Reads t := by
  have hclosing : ∀ c y b, (∃ ops, y = .wantsWrite ops) → b.Answers y → p.Awaits c (some b) →
      ∃ c' r, resume c (some b) = (c', .complete r) ∧ ∃ x, r = .ok x := by
    rintro c y b ⟨ops, rfl⟩ hb ha
    obtain rfl := hb.write
    obtain ⟨c', x, hr⟩ := hlast c ha
    exact ⟨c', .ok x, hr, x, rfl⟩
  obtain ⟨t, res, hextends, rfl⟩ := run_extends p hc h
  cases hextends with
  | @completed _ _ r finishes granted =>
    have hgrants := grants_stored granted
    rcases p.closing hclosing finishes.runs finishes.kind hc with hnone | ⟨⟨x, rfl⟩, v, e, rfl, he, hv⟩
    · obtain ⟨hstill, hreads⟩ := hgrants.idle (fun e he ops hops => hnone e he ⟨ops, hops⟩)
      cases r with
      | ok x =>
        have hwrites := Stored.grants_writes hgrants
        exact Or.inr ⟨t, x, finishes.runs, rfl, hwrites, hreads⟩
      | error => exact Or.inl ⟨hstill, fun x hx => (by cases hx)⟩
    · obtain ⟨hwrites, hreads⟩ := hgrants.last (fun e he ops hops => hv e he ⟨ops, hops⟩)
      exact Or.inr ⟨_, x, finishes.runs, rfl, hwrites, hreads⟩
  | failed finishes granted failed =>
    have hidle := p.unclosed hclosing finishes.runs finishes.kind hc
    obtain ⟨hstill, -⟩ := (grants_stored granted).idle
      (fun e he ops hops => hidle e he ⟨ops, hops⟩)
    exact Or.inl ⟨(fails_stored failed).trans hstill, fun x hx => (by cases hx)⟩

end Single

/-- A sync fails before anything is written, or leaves the first batches of a whole run over the
stored rows: all of them when it succeeds, and else not the one that sets the checkpoint. -/
theorem run_sync {c : ReplicaCollectionId} {opts : ReplicaSyncOptions}
    {out : Except (Error S R ReplicaArgError) ReplicaSyncReport}
    (h : client.sync fuel c opts = some (client', out)) :
    (client'.stored = client.stored ∧ ∀ x, out ≠ .ok x) ∨
      ∃ snapshot t first rest, Syncs c opts
        ⟨(client.stored.rows.rows c).placements, client.stored.checkpoints c⟩ snapshot t ∧
        t.batches = first ++ rest ∧ client'.stored = client.stored.apply first.flatten ∧
        ((∃ x, out = .ok x) ↔ rest = []) := by
  have hstart : ReplicaSync.progress.Awaits (.new c opts) none := trivial
  obtain ⟨t, res, hextends, rfl⟩ := run_extends ReplicaSync.progress hstart h
  -- what the first exchange was granted is the load of the whole run
  have hwhole : ∀ {t u : Transcript} {report : ReplicaSyncReport} {s' : Stored}, t ≠ [] →
      Coroutine.Runs ReplicaSync.resume (.new c opts) none (t ++ u) (.ok report) →
      Stored.Grants client.stored t s' →
      ∃ snapshot w, Syncs c opts
        ⟨(client.stored.rows.rows c).placements, client.stored.checkpoints c⟩ snapshot w ∧
        w.batches = t.batches ++ Transcript.batches u := by
    intro t u report s' ht hruns hgrants
    obtain ⟨loaded, snapshot, hsync⟩ := runs_syncs hruns
    have hwhole := hsync
    obtain ⟨rest, -, hload, -⟩ := hsync
    cases t with
    | nil => exact absurd rfl ht
    | cons e t =>
      rw [List.cons_append, List.cons.injEq] at hload
      obtain ⟨rfl, hrest⟩ := hload
      cases hgrants with
      | cons granted _ =>
        have hloads : client.stored.Loads c .all loaded := by
          cases granted with
          | load loads => exact loads
          | remote own => exact own.elim
        refine ⟨snapshot, _, hwhole.recollected ?_ hloads.checkpoint.symm, ?_⟩
        · exact (CollectionRows.collect_placements _).trans hloads.collect.symm
        · simp [Transcript.batches]
  cases hextends with
  | @completed _ _ r finishes granted =>
    obtain ⟨report, rfl⟩ := finishes.good
    have hgrants := grants_stored granted
    have hne : t ≠ [] := by
      rintro rfl
      exact absurd finishes.runs.ends (by simp [ReplicaSync.resume, ReplicaSync.new, Coroutine.Ends])
    have hruns := finishes.runs
    rw [← List.append_nil t] at hruns
    obtain ⟨snapshot, w, hsync, hbatches⟩ := hwhole hne hruns hgrants
    refine Or.inr ⟨snapshot, w, t.batches, [], hsync, hbatches, ?_, by simp [settled]⟩
    rw [Transcript.flatten_batches]
    exact Stored.grants_writes hgrants
  | @failed s' _ _ u y b e r finishes granted failed =>
    obtain ⟨report, rfl⟩ := finishes.good
    have hgrants := grants_stored granted
    have hkept := fails_stored failed
    by_cases hne : t = []
    · have hstill := Stored.grants_writes hgrants
      rw [hne] at hstill
      exact Or.inl ⟨hkept.trans hstill, fun x hx => (by cases hx)⟩
    obtain ⟨snapshot, w, hsync, hbatches⟩ := hwhole hne finishes.runs hgrants
    refine Or.inr ⟨snapshot, w, t.batches, Transcript.batches ((y, b) :: u), hsync, hbatches, ?_, ?_⟩
    · rw [Transcript.flatten_batches]
      exact hkept.trans (Stored.grants_writes hgrants)
    · -- the request that failed comes before the last of the run, which is a write
      obtain ⟨loaded, snapshot', hsync'⟩ := runs_syncs finishes.runs
      obtain ⟨v, ops, hlast, -⟩ := hsync'.closes
      have hmem : written (ops ++ [.setCheckpoint c snapshot'.checkpoint]) ∈ (y, b) :: u := by
        have hget := congrArg List.getLast? hlast
        rw [List.getLast?_append_cons, List.getLast?_concat] at hget
        exact List.mem_of_getLast? hget
      have hbatch : ops ++ [.setCheckpoint c snapshot'.checkpoint] ∈
          Transcript.batches ((y, b) :: u) := List.mem_filterMap.mpr ⟨_, hmem, rfl⟩
      refine ⟨fun hx => ?_, fun hnil => ?_⟩
      · obtain ⟨x, hx⟩ := hx
        cases hx
      · rw [hnil] at hbatch
        cases hbatch

end ReplicaClient

namespace ReplicaOpen

theorem asks_local {self self' : ReplicaOpen} {a : Option ReplicaArg} {y : ReplicaYield}
    (h : self.resume a = (self', .yielded y)) : ¬ y.Remote := by
  simp only [resume] at h
  split at h <;> cases h
  exact id

end ReplicaOpen

namespace ReplicaMutate

theorem asks_local {self self' : ReplicaMutate} {a : Option ReplicaArg} {y : ReplicaYield}
    (h : self.resume a = (self', .yielded y)) : ¬ y.Remote := by
  simp only [resume] at h
  split at h
  · cases h
    exact id
  · split at h
    · split at h
      · split at h <;> cases h
        exact id
      · cases h
    · split at h <;> cases h
      exact id
  · cases h
  · cases h
  · cases h

end ReplicaMutate

namespace ReplicaClient

variable {S R : Type} [ReplicaStorage S] [ReplicaRemote R]

/-- Every call of a client returns, whatever its seams answer and wherever one fails. It fails with
a seam's own error, or refuses a mutation, never with its coroutine's contract broken; and opening or
mutating never touches the remote. -/
theorem calls_return (client : ReplicaClient S R) :
    (∀ c, ∃ fuel client' out, client.open fuel c = some (client', out) ∧
      (∀ err, out ≠ .error (.coroutine err)) ∧ client'.remote = client.remote) ∧
    (∀ c handles tier, ∃ fuel client' out, client.upgrade fuel c handles tier = some (client', out) ∧
      ∀ err, out ≠ .error (.coroutine err)) ∧
    (∀ c mutation, ∃ fuel client' out, client.mutate fuel c mutation = some (client', out) ∧
      (∀ err, out = .error (.coroutine err) →
        (∃ handle, err = .unknownHandle handle) ∨ ∃ linkId, err = .linkExists linkId) ∧
      client'.remote = client.remote) ∧
    (∀ c opts, ∃ fuel client' out, client.sync fuel c opts = some (client', out) ∧
      ∀ err, out ≠ .error (.coroutine err)) ∧
    ∀ c, ∃ fuel client' out, client.rekey fuel c = some (client', out) ∧
      ∀ err, out ≠ .error (.coroutine err) := by
  refine ⟨fun c => ?_, fun c handles tier => ?_, fun c mutation => ?_, fun c opts => ?_, fun c => ?_⟩
  · have hstart : ReplicaOpen.progress.Awaits (.new c) none := trivial
    obtain ⟨fuel, client', out, hrun, hgood⟩ := run_returns ReplicaOpen.progress hstart client
    refine ⟨fuel, client', out, hrun, fun err herr => ?_, ?_⟩
    · obtain ⟨loaded, hl⟩ := hgood err herr
      cases hl
    · exact run_offline ReplicaOpen.progress hstart
        (fun _ _ _ _ h => ReplicaOpen.asks_local h) hrun
  · have hstart : ReplicaUpgrade.progress.Awaits (.new c handles tier) none := trivial
    obtain ⟨fuel, client', out, hrun, hgood⟩ := run_returns ReplicaUpgrade.progress hstart client
    refine ⟨fuel, client', out, hrun, fun err herr => ?_⟩
    obtain ⟨report, hr⟩ := hgood err herr
    cases hr
  · have hstart : ReplicaMutate.progress.Awaits (.new c mutation) none := trivial
    obtain ⟨fuel, client', out, hrun, hgood⟩ := run_returns ReplicaMutate.progress hstart client
    refine ⟨fuel, client', out, hrun, fun err herr => ?_, ?_⟩
    · rcases hgood err herr with hok | ⟨handle, herr⟩ | ⟨linkId, herr⟩
      · cases hok
      · cases herr
        exact Or.inl ⟨handle, rfl⟩
      · cases herr
        exact Or.inr ⟨linkId, rfl⟩
    · exact run_offline ReplicaMutate.progress hstart
        (fun _ _ _ _ h => ReplicaMutate.asks_local h) hrun
  · have hstart : ReplicaSync.progress.Awaits (.new c opts) none := trivial
    obtain ⟨fuel, client', out, hrun, hgood⟩ := run_returns ReplicaSync.progress hstart client
    refine ⟨fuel, client', out, hrun, fun err herr => ?_⟩
    obtain ⟨report, hr⟩ := hgood err herr
    cases hr
  · have hstart : ReplicaRekey.progress.Awaits (.new c) none := trivial
    obtain ⟨fuel, client', out, hrun, hgood⟩ := run_returns ReplicaRekey.progress hstart client
    refine ⟨fuel, client', out, hrun, fun err herr => ?_⟩
    obtain ⟨report, hr⟩ := hgood err herr
    cases hr

end ReplicaClient

/-- A call of one of a client's verbs. -/
inductive ReplicaCall
  | «open» (collection : ReplicaCollectionId)
  | upgrade (collection : ReplicaCollectionId) (handles : List ReplicaHandle) (tier : ReplicaTier)
  | mutate (collection : ReplicaCollectionId) (mutation : ReplicaMutation)
  | sync (collection : ReplicaCollectionId) (opts : ReplicaSyncOptions)
  | rekey (collection : ReplicaCollectionId)

namespace ReplicaCall

/-- What a call leaves of a store, and whether it succeeded. -/
inductive Leaves (s : Stored) : ReplicaCall → Bool → Stored → Prop
  | failed (call : ReplicaCall) : Leaves s call false s
  | opened (c : ReplicaCollectionId) : Leaves s (.open c) true s
  | upgraded {c : ReplicaCollectionId} {handles : List ReplicaHandle} {tier : ReplicaTier}
      {loaded : ReplicaLoaded} {t : Transcript} (upgrades : Upgrades c handles tier loaded t)
      (reads : s.Reads t) : Leaves s (.upgrade c handles tier) true (s.apply t.writes)
  | mutated {c : ReplicaCollectionId} {mutation : ReplicaMutation} {loaded : ReplicaLoaded}
      {ops : List ReplicaWriteOp} (loads : s.Loads c mutation.scope loaded)
      (stages : Stages c loaded mutation ops) : Leaves s (.mutate c mutation) true (s.apply ops)
  | synced {c : ReplicaCollectionId} {opts : ReplicaSyncOptions} {snapshot : ReplicaRemoteSnapshot}
      {t : Transcript} {first rest : List (List ReplicaWriteOp)} {ok : Bool}
      (syncs : Syncs c opts ⟨(s.rows.rows c).placements, s.checkpoints c⟩ snapshot t)
      (batches : t.batches = first ++ rest) (whole : ok = true ↔ rest = []) :
      Leaves s (.sync c opts) ok (s.apply first.flatten)
  | rekeyed {c : ReplicaCollectionId} {loaded : ReplicaLoaded} {snapshot : ReplicaRemoteSnapshot}
      {t : Transcript} (loads : s.Loads c .all loaded) (rekeys : Rekeys c loaded snapshot t) :
      Leaves s (.rekey c) true (s.apply t.writes)

variable {S R : Type} [ReplicaStorage S] [ReplicaRemote R]

/-- Runs a call: what it leaves of the client, and whether it succeeded. -/
def run (fuel : ℕ) (client : ReplicaClient S R) : ReplicaCall → Option (ReplicaClient S R × Bool)
  | .open c => (client.open fuel c).map (fun out => (out.1, out.2.isOk))
  | .upgrade c handles tier =>
    (client.upgrade fuel c handles tier).map (fun out => (out.1, out.2.isOk))
  | .mutate c mutation => (client.mutate fuel c mutation).map (fun out => (out.1, out.2.isOk))
  | .sync c opts => (client.sync fuel c opts).map (fun out => (out.1, out.2.isOk))
  | .rekey c => (client.rekey fuel c).map (fun out => (out.1, out.2.isOk))

variable [LawfulStorage S]

theorem isOk_false {E T : Type} {out : Except E T} (h : ∀ x, out ≠ .ok x) : out.isOk = false := by
  cases out with
  | error => rfl
  | ok x => exact absurd rfl (h x)

/-- A call that returns leaves what its verb makes of the store: a completed run's writes, or
nothing, or the first batches of a sync. -/
theorem run_leaves {fuel : ℕ} {client client' : ReplicaClient S R} {call : ReplicaCall} {ok : Bool}
    (h : call.run fuel client = some (client', ok)) : call.Leaves client.stored ok client'.stored := by
  cases call with
  | «open» c =>
    obtain ⟨⟨next, out⟩, hrun, heq⟩ := Option.map_eq_some_iff.mp h
    cases heq
    have hlast : ∀ c : ReplicaOpen, ReplicaOpen.progress.Awaits c (some .write) →
        ∃ c' x, c.resume (some .write) = (c', .complete (.ok x)) := by
      rintro ⟨c, state⟩ ha
      cases state <;> exact ha.elim
    have hstart : ReplicaOpen.progress.Awaits (.new c) none := trivial
    rcases ReplicaClient.run_single ReplicaOpen.progress hlast hstart hrun with
      ⟨hkept, hfails⟩ | ⟨t, x, hruns, rfl, hstored, -⟩
    · rw [hkept, isOk_false hfails]
      exact .failed _
    · have hwrites : t.writes = [] := by
        obtain ⟨b, u, rfl, hload⟩ := hruns.ends
        cases b with
        | load loaded =>
          obtain ⟨rfl, -⟩ := hload.ends
          rfl
        | enumerate | fetch | push | write | lookupObject => exact absurd hload.ends.2 (by simp)
      rw [hstored, hwrites]
      exact .opened c
  | upgrade c handles tier =>
    obtain ⟨⟨next, out⟩, hrun, heq⟩ := Option.map_eq_some_iff.mp h
    cases heq
    have hlast : ∀ c : ReplicaUpgrade, ReplicaUpgrade.progress.Awaits c (some .write) →
        ∃ c' x, c.resume (some .write) = (c', .complete (.ok x)) := by
      intro c ha
      have haw : c.Awaits (some .write) := ha
      cases hs : c.state <;> simp [ReplicaUpgrade.Awaits, ReplicaUpgrade.resume, hs] at haw ⊢
    have hstart : ReplicaUpgrade.progress.Awaits (.new c handles tier) none := trivial
    rcases ReplicaClient.run_single ReplicaUpgrade.progress hlast hstart hrun with
      ⟨hkept, hfails⟩ | ⟨t, x, hruns, rfl, hstored, hreads⟩
    · rw [hkept, isOk_false hfails]
      exact .failed _
    · obtain ⟨b, u, ht, hload⟩ := hruns.ends
      obtain ⟨loaded, rfl⟩ : ∃ loaded, b = .load loaded := by
        cases b with
        | load loaded => exact ⟨loaded, rfl⟩
        | enumerate | fetch | push | write | lookupObject => exact absurd hload.ends.2 (by simp)
      rw [hstored]
      exact .upgraded ⟨u, x, ht, hruns⟩ hreads
  | mutate c mutation =>
    obtain ⟨⟨next, out⟩, hrun, heq⟩ := Option.map_eq_some_iff.mp h
    cases heq
    have hlast : ∀ c : ReplicaMutate, ReplicaMutate.progress.Awaits c (some .write) →
        ∃ c' x, c.resume (some .write) = (c', .complete (.ok x)) := by
      intro c ha
      have haw : c.Awaits (some .write) := ha
      cases hs : c.state <;> simp [ReplicaMutate.Awaits, ReplicaMutate.resume, hs] at haw ⊢
    have hstart : ReplicaMutate.progress.Awaits (.new c mutation) none := trivial
    rcases ReplicaClient.run_single ReplicaMutate.progress hlast hstart hrun with
      ⟨hkept, hfails⟩ | ⟨t, x, hruns, rfl, hstored, hreads⟩
    · rw [hkept, isOk_false hfails]
      exact .failed _
    · obtain ⟨loaded, hmutates⟩ := runs_mutates hruns
      obtain ⟨ops, -, ht⟩ := hmutates.exchanges
      rw [hstored]
      refine .mutated (hreads.loads ?_) hmutates.stages.1
      rw [ht]
      exact List.mem_cons_self
  | sync c opts =>
    obtain ⟨⟨next, out⟩, hrun, heq⟩ := Option.map_eq_some_iff.mp h
    cases heq
    rcases ReplicaClient.run_sync hrun with
      ⟨hkept, hfails⟩ | ⟨snapshot, t, first, rest, hsync, hbatches, hstored, hwhole⟩
    · rw [hkept, isOk_false hfails]
      exact .failed _
    · rw [hstored]
      refine .synced hsync hbatches (Iff.trans ?_ hwhole)
      cases out <;> simp [Except.isOk, Except.toBool]
  | rekey c =>
    obtain ⟨⟨next, out⟩, hrun, heq⟩ := Option.map_eq_some_iff.mp h
    cases heq
    have hlast : ∀ c : ReplicaRekey, ReplicaRekey.progress.Awaits c (some .write) →
        ∃ c' x, c.resume (some .write) = (c', .complete (.ok x)) := by
      intro c ha
      have haw : c.Awaits (some .write) := ha
      cases hs : c.state <;> simp [ReplicaRekey.Awaits, ReplicaRekey.resume, hs] at haw ⊢
    have hstart : ReplicaRekey.progress.Awaits (.new c) none := trivial
    rcases ReplicaClient.run_single ReplicaRekey.progress hlast hstart hrun with
      ⟨hkept, hfails⟩ | ⟨t, x, hruns, rfl, hstored, hreads⟩
    · rw [hkept, isOk_false hfails]
      exact .failed _
    · obtain ⟨loaded, snapshot, hrekeys⟩ := runs_rekeys hruns
      have hload : (.wantsLoad c .all, .load loaded) ∈ t := by
        obtain ⟨rest, -, rfl, -⟩ := hrekeys
        exact List.mem_cons_self
      rw [hstored]
      exact .rekeyed (hreads.loads hload) hrekeys

/-- A failed call leaves the store as it was. A failed sync may have written, but rows alone, of its
own collection, and the first batches of a whole run. -/
theorem failed_call {fuel : ℕ} {client client' : ReplicaClient S R} {call : ReplicaCall}
    (h : call.run fuel client = some (client', false)) :
    client'.stored = client.stored ∨ ∃ c opts snapshot t first rest, call = .sync c opts ∧
      Syncs c opts ⟨(client.stored.rows.rows c).placements, client.stored.checkpoints c⟩ snapshot t ∧
      t.batches = first ++ rest ∧ rest ≠ [] ∧
      client'.stored = client.stored.apply first.flatten ∧
      client'.stored.objects = client.stored.objects ∧
      client'.stored.checkpoints = client.stored.checkpoints ∧
      ∀ d, d ≠ c → client'.stored.rows.rows d = client.stored.rows.rows d := by
  generalize hs' : client'.stored = s'
  have hleaves := run_leaves h
  rw [hs'] at hleaves
  cases hleaves with
  | failed => exact Or.inl rfl
  | @synced c opts snapshot t first rest _ syncs batches whole =>
    have hrest : rest ≠ [] := fun hnil => absurd (whole.mpr hnil) (by decide)
    have hrows : ∀ op ∈ first.flatten, op.row.isSome ∧ op.collection = some c := by
      intro op hop
      have hwritten : op ∈ t.writes := by
        rw [← t.flatten_batches, batches, List.flatten_append]
        exact List.mem_append_left _ hop
      refine ⟨?_, syncs.within rfl (client.stored.rows.placed c) op hwritten⟩
      -- the batch with the checkpoint is the last, and so not among the first
      obtain ⟨v, ops, ht, hall⟩ := syncs.closes
      obtain ⟨last, hlast⟩ : ∃ last, rest = rest.dropLast ++ [last] :=
        ⟨_, (List.dropLast_append_getLast hrest).symm⟩
      have hcut : first ++ rest.dropLast = Transcript.batches v := by
        have hbatches : Transcript.batches t = Transcript.batches v ++
            [ops ++ [.setCheckpoint c snapshot.checkpoint]] := by
          rw [ht]
          simp [Transcript.batches, written]
        rw [hbatches, hlast, ← List.append_assoc] at batches
        exact (List.append_inj' batches rfl).1.symm
      refine hall op (List.mem_append_left _ ?_)
      rw [← Transcript.flatten_batches, ← hcut, List.flatten_append]
      exact List.mem_append_left _ hop
    refine Or.inr ⟨c, opts, snapshot, t, first, rest, rfl, syncs, batches, hrest, rfl, ?_, ?_, ?_⟩
    · ext hash
      rw [Stored.mem_objects, or_iff_left]
      rintro ⟨op, hop, hstores⟩
      cases op with
      | storeObject => exact absurd (hrows _ hop).1 (by simp [ReplicaWriteOp.row, ReplicaWriteOp.keyed])
      | upsertPlacement | dropPlacement | setCheckpoint => cases hstores
    · exact client.stored.apply_checkpoints_rows (fun op hop => (hrows op hop).1)
    · intro d hd
      rw [Stored.apply_rows, client.stored.rows.apply_rows (fun op hop => (hrows op hop).2),
        Function.update_of_ne hd]

end ReplicaCall

section Broken

/-- A remote whose every call fails. -/
structure BrokenRemote

instance : ReplicaRemote BrokenRemote where
  Error := String
  enumerate r _ _ := (r, .error "network unplugged")
  fetch r _ _ _ := (r, .error "network unplugged")
  push r _ _ := (r, .error "network unplugged")

/-- A remote that is cut off after so many pushes, which it accepts whole. -/
structure CutRemote where
  pushes : ℕ

instance : ReplicaRemote CutRemote where
  Error := String
  enumerate r _ _ := (r, .ok ⟨[], [], false, ⟨[8]⟩⟩)
  fetch r _ _ _ := (r, .error "network unplugged")
  push r _ changes :=
    match r.pushes with
    | 0 => (r, .error "network unplugged")
    | n + 1 => (⟨n⟩, .ok (changes.map (fun k => ⟨k.handle, .accepted, none, none⟩)))

/-- Sixty-five contacts created locally, and the cursor of an earlier sync. -/
def draftStorage : MemStorage where
  placements := (List.range 65).foldl (fun m i => m.insert (draft i)) .empty
  objects := ∅
  checkpoints := (∅ : Std.ExtTreeMap ReplicaCollectionId ReplicaCheckpoint).insert ⟨"contacts"⟩ ⟨[7]⟩

/-- A sync cut off at its second push: the batch recording the first one stays, the rest of the run
never happened, and the next run is read from the old cursor. -/
theorem failed_call_cut : ∃ (client' : ReplicaClient MemStorage CutRemote)
    (snapshot : ReplicaRemoteSnapshot) (t : Transcript) (first rest : List (List ReplicaWriteOp)),
    (ReplicaCall.sync ⟨"contacts"⟩ .default).run 9 ⟨draftStorage, ⟨1⟩⟩ = some (client', false) ∧
      Syncs ⟨"contacts"⟩ .default ⟨(draftStorage.stored.rows.rows ⟨"contacts"⟩).placements, some ⟨[7]⟩⟩
        snapshot t ∧
      t.batches = first ++ rest ∧ first ≠ [] ∧ rest ≠ [] ∧
      client'.stored = draftStorage.stored.apply first.flatten ∧
      client'.stored.row ⟨"contacts"⟩ (draft 0).handle = none ∧
      client'.stored.row ⟨"contacts"⟩ (draft 64).handle = some (draft 64) ∧
      client'.stored.checkpoints ⟨"contacts"⟩ = some ⟨[7]⟩ := by
  have hrun : ((ReplicaCall.sync ⟨"contacts"⟩ .default).run 9
      (⟨draftStorage, ⟨1⟩⟩ : ReplicaClient MemStorage CutRemote)).map (fun o => (o.2,
        [o.1.storage.placements.entries[(draft 0).key]?,
          o.1.storage.placements.entries[(draft 64).key]?])) =
      some (false, [none, some (draft 64)]) := by
    decide +kernel
  have hstart : draftStorage.placements.entries[(draft 0).key]? = some (draft 0) := by
    decide +kernel
  obtain ⟨⟨client', ok⟩, hrun, heq⟩ := Option.map_eq_some_iff.mp hrun
  simp only [Prod.mk.injEq, List.cons.injEq, and_true] at heq
  obtain ⟨rfl, hgone, hleft⟩ := heq
  have hgone : client'.stored.row ⟨"contacts"⟩ (draft 0).handle = none :=
    (client'.storage.stored_row _ _).trans hgone
  have hleft : client'.stored.row ⟨"contacts"⟩ (draft 64).handle = some (draft 64) :=
    (client'.storage.stored_row _ _).trans hleft
  have hmoved : client'.stored ≠ draftStorage.stored := by
    intro hsame
    have hrow := (draftStorage.stored_row ⟨"contacts"⟩ (draft 0).handle).trans hstart
    rw [← hsame, hgone] at hrow
    cases hrow
  rcases ReplicaCall.failed_call hrun with hkept | ⟨_, _, snapshot, t, first, rest, hcall, hsync,
    hbatches, hrest, hstored, -, hcheckpoints, -⟩
  · exact absurd hkept hmoved
  · cases hcall
    refine ⟨client', snapshot, t, first, rest, hrun, hsync, hbatches, ?_, hrest, hstored, hgone, hleft,
      ?_⟩
    · rintro rfl
      exact hmoved hstored
    · rw [hcheckpoints]
      rfl

end Broken
end IoReplica

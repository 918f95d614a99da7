import IoReplica.Calls
import IoReplica.Shared
import IoReplica.Sync.Members

/-! What a client's run makes of a shared server: each request is served after anyone else's turns,
and what it is answered was so at some state of the server along the run. -/
namespace IoReplica

namespace MemRemote

variable {w w' w₀ w₁ : MemRemote} {c : ReplicaCollectionId} {o : ReplicaOrigin} {g : ReplicaHandle}
  {t : Transcript}

/-- One request served, after any turns of others. One that is not the remote's never reaches it. -/
inductive Exchanges (w : MemRemote) : ReplicaYield → MemRemote → ReplicaArg → Prop
  | enumerate {v : MemRemote} (turns : Elsewhere w v) (c : ReplicaCollectionId)
      (cursor : Option ReplicaCheckpoint) :
      Exchanges w (.wantsEnumerate c cursor) (v.enumerate c cursor).1
        (.enumerate (v.enumerate c cursor).2)
  | fetch {v : MemRemote} (turns : Elsewhere w v) (c : ReplicaCollectionId)
      (handles : List ReplicaHandle) (tier : ReplicaTier) :
      Exchanges w (.wantsFetch c handles tier) (v.fetch c handles tier).1
        (.fetch (v.fetch c handles tier).2)
  | push {v : MemRemote} (turns : Elsewhere w v) (c : ReplicaCollectionId)
      (changes : List ReplicaChange) :
      Exchanges w (.wantsPush c changes) (v.push c changes).1 (.push (v.push c changes).2)
  | idle {y : ReplicaYield} (own : ¬ y.Remote) (a : ReplicaArg) : Exchanges w y w a

/-- A request served is one more turn at the server. -/
theorem Exchanges.elsewhere {y : ReplicaYield} {a : ReplicaArg} (h : Exchanges w y w' a) :
    Elsewhere w w' := by
  cases h with
  | enumerate turns c cursor => exact turns.tail (.enumerate _ c cursor)
  | fetch turns c handles tier => exact turns.tail (.fetch _ c handles tier)
  | @push v turns c changes => exact turns.trans (v.push_turns c changes).1
  | idle => exact .refl

/-- The requests of a transcript, each served where the one before it left the server. -/
abbrev Exchanged : MemRemote → Transcript → MemRemote → Prop := Coroutine.Grants Exchanges

theorem Exchanged.elsewhere (h : Exchanged w t w') : Elsewhere w w' :=
  h.invariant (P := Elsewhere w) (fun _ _ _ _ hs step => hs.trans step.elsewhere) .refl

/-- The member was there at some state of the server between the two. -/
def LiveWithin (w w' : MemRemote) (o : ReplicaOrigin) : Prop :=
  ∃ v, Elsewhere w v ∧ (v.member o).isSome ∧ Elsewhere v w'

/-- The member was not there at some state of the server between the two. -/
def GoneWithin (w w' : MemRemote) (o : ReplicaOrigin) : Prop :=
  ∃ v, Elsewhere w v ∧ v.member o = none ∧ Elsewhere v w'

theorem LiveWithin.widen (h : LiveWithin w w' o) (hw : Elsewhere w₀ w) (hw' : Elsewhere w' w₁) :
    LiveWithin w₀ w₁ o := by
  obtain ⟨v, hv, hlive, hv'⟩ := h
  exact ⟨v, hw.trans hv, hlive, hv'.trans hw'⟩

theorem GoneWithin.widen (h : GoneWithin w w' o) (hw : Elsewhere w₀ w) (hw' : Elsewhere w' w₁) :
    GoneWithin w₀ w₁ o := by
  obtain ⟨v, hv, hgone, hv'⟩ := h
  exact ⟨v, hw.trans hv, hgone, hv'.trans hw'⟩

/-- A member there at some point is one no keep-both fork is named like. -/
theorem LiveWithin.plain (h : LiveWithin w w' o) (hw : w.AllPlain) : o.handle.Plain := by
  obtain ⟨v, hv, hlive, -⟩ := h
  exact (Elsewhere.leads hv).plain hw o hlive

/-- A push result is of a change of its own push, served along the run. -/
theorem Exchanged.answered (h : Exchanged w t w')
    (hown : ∀ e ∈ t, ∀ d changes, e.1 = .wantsPush d changes → d = c) {e : PushExchange}
    (he : e ∈ t.pushes) {r : ReplicaPushResult} (hr : r ∈ e.2) : Answered w w' c e.1 r := by
  induction h with
  | nil => cases he
  | @cons w w₁ w' y a t granted rest ih =>
    rw [List.forall_mem_cons] at hown
    have hlater : e ∈ Transcript.pushes t → Answered w w' c e.1 r := fun he =>
      (ih hown.2 he).widen granted.elsewhere .refl
    cases granted with
    | enumerate | fetch => exact hlater he
    | @push v turns d changes =>
      rcases List.mem_cons.mp he with rfl | he
      · have hd : d = c := hown.1 d changes rfl
        subst hd
        exact ((v.push_turns d changes).2 r hr).widen turns (Exchanged.elsewhere rest)
      · exact hlater he
    | idle own a =>
      cases y with
      | wantsPush => exact absurd trivial own
      | wantsEnumerate | wantsFetch | wantsLoad | wantsLookupObject | wantsWrite => exact hlater he

/-- A member the run removed was gone at some point of it. -/
theorem Exchanged.removed (ht : Exchanged w t w')
    (hown : ∀ e ∈ t, ∀ d changes, e.1 = .wantsPush d changes → d = c) (h : t.Removes g) :
    GoneWithin w w' ⟨c, g⟩ := by
  obtain ⟨e, he, r, hr, hacc, hh, hremoves⟩ := h
  obtain @⟨v, change, mem, earlier, result, later⟩ := ht.answered hown he hr
  have hnames : change.handle = g := by
    rw [← hh, ← result, serve_handle]
    rfl
  obtain ⟨dest, link, ifMatch, hkind⟩ := hremoves change mem hnames
  rw [hkind] at result later
  rw [← result] at hacc
  exact ⟨_, earlier.tail (.serve v c _), serve_removed hacc, later⟩

/-- A handle the run was assigned was that of a member at some point of it. -/
theorem Exchanged.assigned (ht : Exchanged w t w')
    (hown : ∀ e ∈ t, ∀ d changes, e.1 = .wantsPush d changes → d = c) (h : t.Assigns g) :
    LiveWithin w w' ⟨c, g⟩ := by
  obtain ⟨e, he, r, hr, hassigned⟩ := h
  obtain @⟨v, change, mem, earlier, result, later⟩ := ht.answered hown he hr
  rw [← result] at hassigned
  exact ⟨_, earlier.tail (.serve v c _), serve_assigned hassigned, later⟩

end MemRemote

section Sync

variable {c : ReplicaCollectionId} {opts : ReplicaSyncOptions} {loaded : ReplicaLoaded}
  {snapshot : ReplicaRemoteSnapshot} {t : Transcript}

theorem ReplicaSync.Drains.pushes_own {report : ReplicaSyncReport} {a : ReplicaSync} {u : Transcript}
    (h : Drains report a u) :
    ∀ e ∈ u, ∀ d changes, e.1 = .wantsPush d changes → d = a.collection := by
  have hwritten : ∀ ops d changes, (IoReplica.written ops).1 ≠ .wantsPush d changes :=
    fun _ _ _ h => by cases h
  induction h with
  | @idle a =>
    intro e he d changes hd
    rw [List.mem_singleton.mp he] at hd
    exact absurd hd (hwritten _ d changes)
  | @last a results =>
    intro e he d changes hd
    rcases List.mem_cons.mp he with rfl | he
    · cases hd
      rfl
    · rw [List.mem_singleton.mp he] at hd
      exact absurd hd (hwritten _ d changes)
  | @chunk a u results more rest ih =>
    have hcollection : (a.recorded results).collection = a.collection :=
      (a.recorded_spec results).1
    intro e he d changes hd
    rcases List.mem_cons.mp he with rfl | he
    · cases hd
      rfl
    · rcases List.mem_cons.mp he with rfl | he
      · exact absurd hd (hwritten _ d changes)
      · exact (ih e he d changes hd).trans hcollection

/-- A sync pushes the changes of its own collection alone. -/
theorem Syncs.pushes_own (h : Syncs c opts loaded snapshot t) :
    ∀ e ∈ t, ∀ d changes, e.1 = .wantsPush d changes → d = c := by
  obtain ⟨rest, report, rfl, hruns⟩ := h
  obtain ⟨groups, last, out, u, -, -, hrest, hmerged, hdrains⟩ := ReplicaSync.runs_merged hruns
  have hcollection : out.collection = c := hmerged.collection
  intro e he d changes hd
  rcases List.mem_cons.mp he with rfl | he
  · cases hd
  · rcases List.mem_cons.mp he with rfl | he
    · cases hd
    · rw [hrest] at he
      rcases List.mem_append.mp he with he | he
      · obtain ⟨g, -, rfl⟩ := List.mem_map.mp he
        cases hd
      · exact (hdrains.pushes_own e he d changes hd).trans hcollection

end Sync

namespace ReplicaClient

open MemRemote

variable {S R E : Type} [ReplicaStorage S] [ReplicaRemote R] [Shares R]

/-- The server a client's remote reaches. -/
def server (client : ReplicaClient S R) : MemRemote := Shares.server client.remote

theorem ofRemote_replied {α : Type} {client next : ReplicaClient S R} {arg : α → ReplicaArg}
    {reply : R × Except (ReplicaRemote.Error R) α} {served : MemRemote → MemRemote × α}
    (hreply : client.server.Replied (Shares.server reply.1) served reply.2)
    {out : Except (Error S R E) ReplicaArg} (h : client.ofRemote arg reply = (next, out)) :
    match out with
    | .ok a => ∃ v, Elsewhere client.server v ∧ next.server = (served v).1 ∧ a = arg (served v).2
    | .error _ => Elsewhere client.server next.server := by
  obtain ⟨remote, reply⟩ := reply
  cases h
  cases reply with
  | error err => exact hreply
  | ok x =>
    obtain ⟨v, turns, hserved⟩ := hreply
    refine ⟨v, turns, ?_, ?_⟩
    · rw [hserved]
      rfl
    · rw [hserved]

theorem service_exchanges (client : ReplicaClient S R) (y : ReplicaYield) (next : ReplicaClient S R)
    (a : ReplicaArg) (h : client.service (E := E) y = (next, .ok a)) :
    Exchanges client.server y next.server a := by
  cases y with
  | wantsEnumerate c cursor =>
    obtain ⟨v, turns, hnext, rfl⟩ := ofRemote_replied (Shares.enumerates client.remote c cursor) h
    rw [hnext]
    exact .enumerate turns c cursor
  | wantsFetch c handles tier =>
    obtain ⟨v, turns, hnext, rfl⟩ := ofRemote_replied (Shares.fetches client.remote c handles tier) h
    rw [hnext]
    exact .fetch turns c handles tier
  | wantsPush c changes =>
    obtain ⟨v, turns, hnext, rfl⟩ := ofRemote_replied (Shares.pushes client.remote c changes) h
    rw [hnext]
    exact .push turns c changes
  | wantsLoad | wantsLookupObject =>
    have hsame : next = client := (congrArg Prod.fst h).symm
    rw [hsame]
    exact .idle id a
  | wantsWrite ops =>
    have hstill : (client.service (E := E) (.wantsWrite ops)).1.server = client.server := rfl
    have hsame : next.server = client.server := by rwa [h] at hstill
    rw [hsame]
    exact .idle id a

theorem service_elsewhere (client : ReplicaClient S R) (y : ReplicaYield) :
    Elsewhere client.server (client.service (E := E) y).1.server := by
  cases hy : client.service (E := E) y with
  | mk next reply =>
    cases reply with
    | ok a => exact (service_exchanges client y next a hy).elsewhere
    | error err =>
      cases y with
      | wantsEnumerate c cursor =>
        exact ofRemote_replied (Shares.enumerates client.remote c cursor) hy
      | wantsFetch c handles tier =>
        exact ofRemote_replied (Shares.fetches client.remote c handles tier) hy
      | wantsPush c changes => exact ofRemote_replied (Shares.pushes client.remote c changes) hy
      | wantsLoad | wantsLookupObject =>
        have hsame : next = client := (congrArg Prod.fst hy).symm
        rw [hsame]
      | wantsWrite ops =>
        have hstill : (client.service (E := E) (.wantsWrite ops)).1.server = client.server := rfl
        have hsame : next.server = client.server := by rwa [hy] at hstill
        rw [hsame]

/-- A verb moves the server by turns at it. -/
theorem run_elsewhere {C T : Type}
    (resume : C → Option ReplicaArg → C × ReplicaCoroutineState ReplicaYield (Except E T)) {fuel : ℕ}
    {c : C} {arg : Option ReplicaArg} {client client' : ReplicaClient S R}
    {out : Except (Error S R E) T} (h : run resume fuel c arg client = some (client', out)) :
    Elsewhere client.server client'.server :=
  run_invariant (P := fun next => Elsewhere client.server next.server)
    (fun next y hs => hs.trans (service_elsewhere next y)) resume h .refl

theorem call_elsewhere {fuel : ℕ} {client client' : ReplicaClient S R} {call : ReplicaCall} {ok : Bool}
    (h : call.run fuel client = some (client', ok)) : Elsewhere client.server client'.server := by
  cases call with
  | «open» | upgrade | mutate | sync | rekey =>
    obtain ⟨⟨next, out⟩, hrun, heq⟩ := Option.map_eq_some_iff.mp h
    cases heq
    exact run_elsewhere _ hrun

end ReplicaClient

section Leaves

open MemRemote

variable (s : Stored) (w w₁ w' : MemRemote) (c : ReplicaCollectionId) (opts : ReplicaSyncOptions)

/-- What a run of a sync got done, of the members the server held when it enumerated them: the start
`u` of a whole run. -/
structure SyncsWithin (u v : Transcript) : Prop where
  syncs : Syncs c opts ⟨(s.rows.rows c).placements, s.checkpoints c⟩
    (w₁.enumerate c (if opts.full then none else s.checkpoints c)).2 (u ++ v)
  after : Elsewhere w₁ w'
  removed : ∀ g, u.Removes g → GoneWithin w₁ w' ⟨c, g⟩
  assigned : ∀ g, u.Assigns g → LiveWithin w₁ w' ⟨c, g⟩

/-- Where a sync leaves its store and the server it shares: nothing written, or what a start of a
whole run wrote. It is all of the run when it succeeded, and else stops short of the checkpoint. -/
inductive SyncLeaves : Bool → Stored → MemRemote → Prop
  | nothing {w' : MemRemote} (turns : Elsewhere w w') : SyncLeaves false s w'
  | wrote {w₁ w' : MemRemote} {u v : Transcript} {ok : Bool} (turns : Elsewhere w w₁)
      (within : SyncsWithin s w₁ w' c opts u v) (whole : ok = true → v = [])
      (cut : ok = false → ∀ op ∈ u.writes, op.row.isSome) : SyncLeaves ok (s.apply u.writes) w'

end Leaves

section Start

open MemRemote

variable {c : ReplicaCollectionId} {opts : ReplicaSyncOptions}

/-- A run not whole wrote rows alone. -/
theorem Syncs.cut_rows {loaded : ReplicaLoaded} {snapshot : ReplicaRemoteSnapshot} {u v : Transcript}
    {e : ReplicaYield × ReplicaArg} (h : Syncs c opts loaded snapshot (u ++ e :: v)) :
    ∀ op ∈ u.writes, op.row.isSome := by
  obtain ⟨pre, ops, hlast, hall⟩ := h.closes
  have hcut : u <+: pre := by
    have hdrop := congrArg List.dropLast hlast
    rw [List.dropLast_concat, List.dropLast_append_of_ne_nil (List.cons_ne_nil e v)] at hdrop
    exact ⟨_, hdrop⟩
  obtain ⟨more, rfl⟩ := hcut
  intro op hop
  refine hall op (List.mem_append_left _ ?_)
  rw [Transcript.writes, List.flatMap_append]
  exact List.mem_append_left _ hop

/-- A start of a whole run, granted by a store and served by the server, leaves what it wrote. -/
theorem SyncLeaves.of_start {s s' : Stored} {w w₂ w' : MemRemote} {t u : Transcript}
    {report : ReplicaSyncReport} {ok : Bool}
    (hruns : Coroutine.Runs ReplicaSync.resume (.new c opts) none (t ++ u) (.ok report))
    (hgrants : Stored.Grants s t s') (hserved : Exchanged w t w₂) (hafter : Elsewhere w₂ w')
    (hok : ok = true ↔ u = []) : SyncLeaves s w c opts ok s' w' := by
  have hstored := Stored.grants_writes hgrants
  obtain ⟨loaded, snapshot, hsync⟩ := runs_syncs hruns
  have hrun := hsync
  obtain ⟨rest, -, hshape, -⟩ := hsync
  rcases t with _ | ⟨e, _ | ⟨e', t⟩⟩
  · have hu : u ≠ [] := fun hnil => by rw [hnil] at hshape; cases hshape
    obtain rfl : ok = false := Bool.eq_false_iff.mpr (fun h => hu (hok.mp h))
    subst hstored
    exact .nothing ((Exchanged.elsewhere hserved).trans hafter)
  · obtain ⟨rfl, rfl⟩ := List.cons.inj hshape
    obtain rfl : ok = false := Bool.eq_false_iff.mpr (fun h => absurd (hok.mp h) (List.cons_ne_nil _ _))
    subst hstored
    exact .nothing ((Exchanged.elsewhere hserved).trans hafter)
  · obtain ⟨hload, htail⟩ := List.cons.inj hshape
    obtain ⟨hlist, -⟩ := List.cons.inj htail
    subst hload hlist
    cases hgrants with
    | cons granted _ =>
    have hloads : s.Loads c .all loaded := by
      cases granted with
      | load loads => exact loads
      | remote own => exact own.elim
    cases hserved with
    | cons loading hserved =>
    cases loading
    cases hserved with
    | cons listing hserved =>
    rw [hloads.checkpoint] at listing hrun
    cases listing with
    | idle own => exact absurd trivial own
    | @enumerate w₁ turns =>
      let u' : Transcript :=
        (.wantsLoad c .all, .load ⟨(s.rows.rows c).placements, s.checkpoints c⟩) ::
        (.wantsEnumerate c (if opts.full then none else s.checkpoints c),
          .enumerate (w₁.enumerate c (if opts.full then none else s.checkpoints c)).2) :: t
      have hrecollected : Syncs c opts ⟨(s.rows.rows c).placements, s.checkpoints c⟩
          (w₁.enumerate c (if opts.full then none else s.checkpoints c)).2 (u' ++ u) :=
        hrun.recollected ((CollectionRows.collect_placements _).trans hloads.collect.symm)
          hloads.checkpoint.symm
      have hown : ∀ e ∈ t, ∀ d changes, e.1 = .wantsPush d changes → d = c := fun e he =>
        hrecollected.pushes_own e
          (List.mem_append_left _ (List.mem_cons_of_mem _ (List.mem_cons_of_mem _ he)))
      have hlisted : Elsewhere w₁ _ :=
        .single (.enumerate w₁ c (if opts.full then none else s.checkpoints c))
      have hwrites : s' = s.apply (Transcript.writes u') := hstored
      rw [hwrites]
      refine .wrote turns ⟨hrecollected, ?_, fun g hg => ?_, fun g hg => ?_⟩ hok.mp (fun hfalse => ?_)
      · exact hlisted.trans ((Exchanged.elsewhere hserved).trans hafter)
      · exact (Exchanged.removed hserved hown hg).widen hlisted hafter
      · exact (Exchanged.assigned hserved hown hg).widen hlisted hafter
      · obtain ⟨e, more, rfl⟩ := List.exists_cons_of_ne_nil
          (fun hnil => absurd (hok.mpr hnil) (by rw [hfalse]; decide))
        exact hrecollected.cut_rows

end Start

namespace ReplicaClient

open MemRemote

variable {S R E : Type} [ReplicaStorage S] [LawfulStorage S] [ReplicaRemote R] [Shares R]
  {c : ReplicaCollectionId} {opts : ReplicaSyncOptions}

/-- What a request granted is answered by the store and served by the server. -/
structure Shared (client : ReplicaClient S R) (y : ReplicaYield) (next : ReplicaClient S R)
    (a : ReplicaArg) : Prop where
  granted : client.stored.Granted y next.stored a
  exchanges : Exchanges client.server y next.server a

/-- What a failed request leaves. -/
structure Unshared (client next : ReplicaClient S R) : Prop where
  stored : next.stored = client.stored
  turns : Elsewhere client.server next.server

theorem service_shared (client : ReplicaClient S R) (y : ReplicaYield) (next : ReplicaClient S R)
    (a : ReplicaArg) (h : client.service (E := E) y = (next, .ok a)) : client.Shared y next a :=
  ⟨granted_stored _ _ _ _ (service_granted client y next a h), service_exchanges client y next a h⟩

theorem service_unshared (client : ReplicaClient S R) (y : ReplicaYield) (next : ReplicaClient S R)
    (e : Error S R E) (h : client.service y = (next, .error e)) : client.Unshared next := by
  refine ⟨fails_stored (service_fails client y next e h), ?_⟩
  have hmoved := service_elsewhere (E := E) client y
  rwa [h] at hmoved

/-- A sync over a lawful storage leaves what a start of a whole run wrote, of the members the server
listed along the way. -/
theorem sync_leaves {fuel : ℕ} {client client' : ReplicaClient S R}
    {out : Except (Error S R ReplicaArgError) ReplicaSyncReport}
    (h : client.sync fuel c opts = some (client', out)) :
    SyncLeaves client.stored client.server c opts out.isOk client'.stored client'.server := by
  have hstart : ReplicaSync.progress.Awaits (.new c opts) none := trivial
  have hkind : ∀ (client : ReplicaClient S R) y next a, client.Shared y next a → a.Answers y :=
    fun client y next a h => h.granted.answers
  obtain ⟨t, res, hextends, rfl⟩ := run_extends_over ReplicaSync.progress hstart
    service_shared (fun client y next e hy => service_unshared client y next e hy) hkind h
  have hgrants : ∀ (client : ReplicaClient S R) y next a, client.Shared y next a →
      client.stored.Granted y next.stored a := fun client y next a h => h.granted
  have hserves : ∀ (client : ReplicaClient S R) y next a, client.Shared y next a →
      Exchanges client.server y next.server a := fun client y next a h => h.exchanges
  cases hextends with
  | @completed _ _ r finishes shared =>
    obtain ⟨report, rfl⟩ := finishes.good
    have hruns := finishes.runs
    rw [← List.append_nil t] at hruns
    refine .of_start hruns (shared.refine hgrants) (shared.refine hserves) .refl ?_
    simp [settled, Except.isOk, Except.toBool]
  | @failed s' _ _ u y b e r finishes shared failed =>
    obtain ⟨report, rfl⟩ := finishes.good
    have hstored := shared.refine hgrants
    rw [← failed.stored] at hstored
    refine .of_start finishes.runs hstored (shared.refine hserves) failed.turns ?_
    simp [settled, Except.isOk, Except.toBool]

end ReplicaClient
end IoReplica

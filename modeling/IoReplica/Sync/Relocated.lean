import IoReplica.Sync.Halves

/-! A move between two collections, whatever the order its halves are synced in: how many members
their servers hold of the item. -/
namespace IoReplica

/-- A sync under way: the run, and the changes its server has still to answer, each with its
answer. -/
structure Running where
  step : SyncStep
  rest : List (ReplicaChangeKind × Option ReplicaPushResult)

/-- The replica and its servers, each collection with the sync it has under way. -/
structure Moving where
  storage : Storage
  servers : Servers
  running : ReplicaCollectionId → Option Running

/-- A handle never used: no row stands under it, and no pending create copies from it. -/
def Moving.Fresh (w : Moving) (o : ReplicaOrigin) : Prop :=
  (w.storage.rows o.collection).rows[o.handle]? = none ∧
    ∀ (c : ReplicaCollectionId) (h : ReplicaHandle) (q : ReplicaPlacement),
      (w.storage.rows c).rows[h]? = some q → q.base = none → q.origin ≠ some o

/-- A row moved into another collection under a placeholder, and the link id it carries. -/
structure Move where
  source : ReplicaPlacement
  target : ReplicaCollectionId
  placeholder : ReplicaHandle
  link : ReplicaLinkId

namespace Move
variable {v : Move} {s : Storage} {m : Servers} {w w' : Moving} {c : ReplicaCollectionId}

/-- Where the moved member stands. -/
def origin (v : Move) : ReplicaOrigin := ⟨v.source.collection, v.source.handle⟩

def away (v : Move) : ReplicaPlacement := ReplicaMutate.movedAway v.source v.target

def create (v : Move) : ReplicaPlacement :=
  ReplicaMutate.stagedCopy v.source v.target v.placeholder

/-- The row of a collection that stages its half of the move. -/
def half (v : Move) (c : ReplicaCollectionId) : ReplicaHandle :=
  if c = v.target then v.placeholder else v.source.handle

/-- A linked, based row without a staged edit, its member as the row last saw it, about to be moved
into another collection whose server holds no member with its link id. -/
structure Ready (v : Move) (s : Storage) (m : Servers) : Prop where
  stored : (s.rows v.source.collection).rows[v.source.handle]? = some v.source
  linked : v.source.linkId = some v.link
  based : v.source.base.isSome
  unedited : v.source.stagedEdit = none
  -- a conflict would record another's edit of the member
  unconflicted : v.source.conflictRevision = none
  held : m v.origin = some ⟨some v.link, v.source.baseRevision⟩
  elsewhere : v.target ≠ v.source.collection
  unheld : ∀ h, ¬ m.Holds v.link ⟨v.target, h⟩
  free : (s.rows v.target).rows[v.placeholder]? = none
  vacant : m ⟨v.target, v.placeholder⟩ = none

/-- Nothing else of the two collections delivers the item: its source holds one member of it, and no
other row is pushed as an add of its link id or as a copy of the moved member. -/
structure Alone (v : Move) (s : Storage) (m : Servers) : Prop where
  member : ∀ h, m.Holds v.link ⟨v.source.collection, h⟩ → h = v.source.handle
  rows : ∀ (c : ReplicaCollectionId) (h : ReplicaHandle) (q : ReplicaPlacement),
    c = v.source.collection ∨ c = v.target → (s.rows c).rows[h]? = some q →
      (⟨c, h⟩ : ReplicaOrigin) ≠ v.origin → Bystander m v.link c q

/-- The move staged, no sync under way. -/
def start (v : Move) (s : Storage) (m : Servers) : Moving where
  storage := s.apply (MovedEdit.staged v.source v.target v.placeholder)
  servers := m
  running := fun _ => none

/-- A run of a collection, over its rows and what its server holds as it begins. -/
structure Begins (v : Move) (w : Moving) (c : ReplicaCollectionId) (step : SyncStep) : Prop where
  side : c = v.source.collection ∨ c = v.target
  idle : w.running c = none
  reads : step.Over c (w.storage.rows c)
  granted : MovedEdit.Granted step.opts
  tells : w.servers.Tells c step.snapshot
  inFlight : step.transcript.InFlight
  undisturbed : Undisturbed (w.storage.rows c) (v.half c) step.transcript

/-- A run of a collection whose last change is answered. -/
def Finishes (c : ReplicaCollectionId) (w w' : Moving) : Prop :=
  ∃ step, w.running c = some ⟨step, []⟩ ∧
    w' = ⟨w.storage.apply step.transcript.writes, w.servers, Function.update w.running c none⟩

/-- One step of either collection's syncs, interleaved at will: a run begins, its server answers its
next change, it finishes, or others change members that are not the item's. -/
inductive Step (v : Move) (w : Moving) : Moving → Prop
  | begin {c : ReplicaCollectionId} {step : SyncStep} (begins : v.Begins w c step) :
      Step v w ⟨w.storage, w.servers,
        Function.update w.running c (some ⟨step, step.transcript.answers⟩)⟩
  | serve {c : ReplicaCollectionId} {step : SyncStep} {kind : ReplicaChangeKind}
      {r : Option ReplicaPushResult} {rest : List (ReplicaChangeKind × Option ReplicaPushResult)}
      {m : Servers} (runs : w.running c = some ⟨step, (kind, r) :: rest⟩)
      (serves : w.servers.Serves w.Fresh c kind r m) :
      Step v w ⟨w.storage, m, Function.update w.running c (some ⟨step, rest⟩)⟩
  | finish {c : ReplicaCollectionId} {w' : Moving} (finishes : Finishes c w w') : Step v w w'
  | others {m : Servers} (spared : ∀ o, m o = w.servers o ∨ (¬ w.servers.Holds v.link o ∧
      ¬ m.Holds v.link o ∧ (w.servers o = none → w.Fresh o))) :
      Step v w ⟨w.storage, m, w.running⟩

/-- The source still holds the moved member. -/
def Left (v : Move) (w : Moving) : Prop := w.servers.Holds v.link v.origin

/-- A run under way: what it began over, and what of its answers is still to come. -/
structure Runs (v : Move) (w : Moving) (c : ReplicaCollectionId) (run : Running) : Prop where
  side : c = v.source.collection ∨ c = v.target
  reads : run.step.Over c (w.storage.rows c)
  granted : MovedEdit.Granted run.step.opts
  inFlight : run.step.transcript.InFlight
  undisturbed : Undisturbed (w.storage.rows c) (v.half c) run.step.transcript
  told : c = v.source.collection → v.Left w →
    MovedEdit.Unmoved v.source (w.storage.rows c) run.step.snapshot
  unlisted : c = v.target → (w.storage.rows c).rows[v.placeholder]? = some v.create →
    run.step.snapshot.reported v.placeholder = none
  rest : run.rest <:+ run.step.transcript.answers

/-- The add of the pending create was accepted in the run under way. -/
def Spent (v : Move) (w : Moving) : Prop :=
  ∃ run, w.running v.target = some run ∧ (∀ k ∈ run.rest, k.1.handle ≠ v.placeholder) ∧
    (Outbox.confirmation v.placeholder run.step.transcript.pushes).isSome

/-- What every interleaving keeps. -/
structure Inv (v : Move) (w : Moving) : Prop where
  source : ∀ (h : ReplicaHandle) (q : ReplicaPlacement),
    (w.storage.rows v.source.collection).rows[h]? = some q →
      (h = v.source.handle ∧ q = v.away) ∨ Bystander w.servers v.link v.source.collection q
  target : ∀ (h : ReplicaHandle) (q : ReplicaPlacement),
    (w.storage.rows v.target).rows[h]? = some q →
      (h = v.placeholder ∧ q = v.create) ∨ Bystander w.servers v.link v.target q
  vacant : (w.storage.rows v.target).rows[v.placeholder]? = some v.create →
    w.servers ⟨v.target, v.placeholder⟩ = none
  only : ∀ h, w.servers.Holds v.link ⟨v.source.collection, h⟩ → h = v.source.handle
  one : ∀ g h, w.servers.Holds v.link ⟨v.target, g⟩ → w.servers.Holds v.link ⟨v.target, h⟩ → g = h
  delivered : v.Left w ∨ ∃ h, w.servers.Holds v.link ⟨v.target, h⟩
  -- the moved row waits for its relocation as long as its member stands
  stored : v.Left w →
    (w.storage.rows v.source.collection).rows[v.source.handle]? = some v.away
  held : v.Left w → w.servers v.origin = some ⟨some v.link, v.source.baseRevision⟩
  queued : v.Left w → ∀ run, w.running v.source.collection = some run →
    ∃ k ∈ run.rest, k.1.handle = v.source.handle
  -- the create delivered is not pushed again
  spent : v.Left w → ∀ h, w.servers.Holds v.link ⟨v.target, h⟩ →
    (w.storage.rows v.target).rows[v.placeholder]? ≠ some v.create ∨ v.Spent w
  runs : ∀ c run, w.running c = some run → v.Runs w c run

theorem half_target (v : Move) : v.half v.target = v.placeholder := if_pos rfl

/-- Once its member is gone the moved row stands by. -/
theorem away_bystander (hr : v.Ready s m) (hl : ¬ v.Left w) :
    Bystander w.servers v.link v.source.collection v.away := by
  have hbased : v.away.base.isSome := hr.based
  have hstaged : v.away.stagedEdit = none := hr.unedited
  refine ⟨fun _ => ⟨hbased, hstaged⟩, fun o ho => ?_, fun o hb => ?_, fun _ => hl⟩
  · rw [hstaged] at ho
    cases ho
  · rw [hb] at hbased
    cases hbased

theorem create_not_bystander (hr : v.Ready s m) : ¬ Bystander w.servers v.link c v.create := by
  intro h
  have hbase := (h.linked hr.linked).1
  cases hbase

/-- A run is under way as long as its collection's rows stand. -/
theorem Runs.keeps {run : Running} (h : v.Runs w c run)
    (hrows : w'.storage.rows c = w.storage.rows c) (hl : v.Left w' → v.Left w) :
    v.Runs w' c run := by
  refine ⟨h.side, ?_, h.granted, h.inFlight, ?_, ?_, ?_, h.rest⟩
  · rw [hrows]
    exact h.reads
  · rw [hrows]
    exact h.undisturbed
  · rw [hrows]
    exact fun hc hl' => h.told hc (hl hl')
  · rw [hrows]
    exact h.unlisted

/-- A run over bystanders leaves bystanders. -/
theorem Runs.leaves_bystanders {run : Running} (h : v.Runs w c run)
    (hby : ∀ (g : ReplicaHandle) (q : ReplicaPlacement), (w.storage.rows c).rows[g]? = some q →
      Bystander w.servers v.link c q)
    {g : ReplicaHandle} {q : ReplicaPlacement}
    (hq : ((w.storage.rows c).apply run.step.transcript.writes).rows[g]? = some q) :
    Bystander w.servers v.link c q :=
  h.reads.syncs.obeys_rows h.reads.loads (Bystander.inherits w.servers v.link c)
    ⟨hby, fun g q hq _ => (hby g q hq).reverted⟩ hq

namespace Inv

/-- What moves the servers and takes answers off runs, the rows left as they are, keeps the
invariant where it keeps what it says of the item's members. -/
theorem carry (hi : v.Inv w) (hr : v.Ready s m) {m' : Servers}
    {running : ReplicaCollectionId → Option Running}
    (hruns : ∀ c run', running c = some run' →
      ∃ run, w.running c = some run ∧ run'.step = run.step ∧ run'.rest <:+ run.rest)
    (hheld : ∀ o, m'.Holds v.link o →
      w.servers.Holds v.link o ∨ (o.collection = v.target ∧ w.Fresh o))
    (hvacant : w.servers ⟨v.target, v.placeholder⟩ = none →
      m' ⟨v.target, v.placeholder⟩ = none ∨ w.Fresh ⟨v.target, v.placeholder⟩)
    (hleft : m'.Holds v.link v.origin → v.Left w ∧ m' v.origin = w.servers v.origin ∧
      ∀ run', running v.source.collection = some run' → ∃ k ∈ run'.rest,
        k.1.handle = v.source.handle)
    (hone : ∀ g h, m'.Holds v.link ⟨v.target, g⟩ → m'.Holds v.link ⟨v.target, h⟩ → g = h)
    (hdelivered : m'.Holds v.link v.origin ∨ ∃ h, m'.Holds v.link ⟨v.target, h⟩)
    (hspent : m'.Holds v.link v.origin → ∀ h, m'.Holds v.link ⟨v.target, h⟩ →
      (w.storage.rows v.target).rows[v.placeholder]? ≠ some v.create ∨
        v.Spent ⟨w.storage, m', running⟩) :
    v.Inv ⟨w.storage, m', running⟩ := by
  have hbystander : ∀ (c : ReplicaCollectionId) (h : ReplicaHandle) (q : ReplicaPlacement),
      (w.storage.rows c).rows[h]? = some q → Bystander w.servers v.link c q →
        Bystander m' v.link c q := by
    intro c h q hq hby
    refine hby.extend (fun o ho => (hheld o ho).imp_right And.right) (fun hfresh => ?_)
      (fun o hb ho hfresh => hfresh.2 c h q hq hb ho)
    rw [(w.storage.rows c).keyed h q hq] at hfresh
    rw [hfresh.1] at hq
    cases hq
  refine ⟨?_, ?_, ?_, ?_, hone, hdelivered, ?_, ?_, fun hl => (hleft hl).2.2, hspent, ?_⟩
  · exact fun h q hq => (hi.source h q hq).imp_right (hbystander _ h q hq)
  · exact fun h q hq => (hi.target h q hq).imp_right (hbystander _ h q hq)
  · intro hq
    rcases hvacant (hi.vacant hq) with hnone | hfresh
    · exact hnone
    · rw [hfresh.1] at hq
      cases hq
  · intro h hh
    rcases hheld _ hh with hold | ⟨htarget, -⟩
    · exact hi.only h hold
    · exact absurd htarget.symm hr.elsewhere
  · exact fun hl => hi.stored (hleft hl).1
  · exact fun hl => (hleft hl).2.1.trans (hi.held (hleft hl).1)
  · intro c run' hrun'
    obtain ⟨run, hrun, hstep, hrest⟩ := hruns c run' hrun'
    obtain ⟨step, rest⟩ := run
    dsimp only at hstep hrest
    subst hstep
    have hold := hi.runs c _ hrun
    exact ⟨hold.side, hold.reads, hold.granted, hold.inFlight, hold.undisturbed,
      fun hc hl => hold.told hc (hleft hl).1, hold.unlisted, hrest.trans hold.rest⟩

/-- Every change still to be answered leaves the item's members alone, or is one of the two halves,
its member still at the source. -/
theorem pushes (hi : v.Inv w) (hr : v.Ready s m) {run : Running} (hrun : w.running c = some run)
    {kind : ReplicaChangeKind} {r : Option ReplicaPushResult} (hk : (kind, r) ∈ run.rest) :
    (w.servers.Harmless v.link c kind ∧ (v.Left w → kind.locus c ≠ v.origin)) ∨
      (v.Left w ∧ c = v.source.collection ∧ kind = .remove v.source.handle (some v.target)
        (some v.link) v.source.baseRevision) ∨
      (v.Left w ∧ c = v.target ∧
        (w.storage.rows v.target).rows[v.placeholder]? = some v.create ∧
        kind = .add v.placeholder (some v.link) v.source.flags (some v.origin)
          v.source.object) := by
  have hruns := hi.runs c run hrun
  obtain ⟨k, hkmem, rfl⟩ := Transcript.mem_changes_of_answers (hruns.rest.subset hk)
  obtain ⟨box, hwhole⟩ := hruns.reads.syncs.whole
  obtain ⟨d, hd, hdk, hkind⟩ := hwhole.mem_changes.mp hkmem
  obtain ⟨kind, heffect, rfl⟩ := Option.map_eq_some_iff.mp hkind
  rw [mem_mergedCandidates, hruns.reads.loads, CollectionRows.collect_placements] at hd
  have hloc := (Merge.candidateAt_spec hd).2
  have hsame : (ReplicaChange.new c kind).kind = kind := rfl
  have hnamed : d.handle = kind.handle := hdk
  rw [hsame]
  obtain ⟨g, loc, remote⟩ := d
  dsimp only at hloc hnamed heffect
  subst hnamed
  cases loc with
  | none => cases remote <;> cases heffect
  | some q =>
    have hq := hloc.symm
    have hqg : q.handle = kind.handle := (w.storage.rows c).keyed _ q hq
    by_cases hby : Bystander w.servers v.link c q
    · rw [← hqg] at heffect
      refine Or.inl ⟨hby.harmless heffect, fun hl hlocus => ?_⟩
      have hc : c = v.source.collection := congrArg ReplicaOrigin.collection hlocus
      have hh : kind.handle = v.source.handle := congrArg ReplicaOrigin.handle hlocus
      have haway := hi.stored hl
      rw [← hc, ← hh, hq, Option.some.injEq] at haway
      refine hby.removes (by rw [haway]; rfl) ?_
      rw [hqg, hc, hh]
      exact hl
    · rcases hruns.side with rfl | rfl
      · obtain ⟨hh, rfl⟩ := (hi.source _ q hq).resolve_right hby
        have hl : v.Left w := by
          by_contra hl
          exact hby (away_bystander hr hl)
        have hpushed := movedAway_pushed hruns.reads hruns.granted (hi.stored hl) hr.based
          hr.unedited (hruns.told rfl hl)
        have hmem : ReplicaChange.new v.source.collection kind ∈
            run.step.transcript.changes.filter (fun k => k.handle = v.source.handle) :=
          List.mem_filter.mpr ⟨hkmem, decide_eq_true hh⟩
        rw [hpushed, hr.linked] at hmem
        exact Or.inr (Or.inl ⟨hl, rfl, congrArg ReplicaChange.kind (List.mem_singleton.mp hmem)⟩)
      · obtain ⟨hh, rfl⟩ := (hi.target _ q hq).resolve_right hby
        rw [hh] at hq
        have hu := hruns.undisturbed
        rw [half_target] at hu
        have hpushed := stagedCopy_pushed hruns.reads hruns.granted hq
          ⟨hruns.unlisted rfl hq, hu⟩
        have hmem : ReplicaChange.new v.target kind ∈
            run.step.transcript.changes.filter (fun k => k.handle = v.placeholder) :=
          List.mem_filter.mpr ⟨hkmem, decide_eq_true hh⟩
        rw [hpushed, hr.linked] at hmem
        have hadd : kind = .add v.placeholder (some v.link) v.source.flags (some v.origin)
            v.source.object := congrArg ReplicaChange.kind (List.mem_singleton.mp hmem)
        by_cases hl : v.Left w
        · exact Or.inr (Or.inr ⟨hl, rfl, hq, hadd⟩)
        · exact Or.inl ⟨by rw [hadd]; exact hl, fun h => absurd h hl⟩

/-- Answers taken off a run under way leave it under way. -/
theorem taken {c : ReplicaCollectionId} {step : SyncStep}
    {k : ReplicaChangeKind × Option ReplicaPushResult}
    {rest : List (ReplicaChangeKind × Option ReplicaPushResult)}
    (hrun : w.running c = some ⟨step, k :: rest⟩) (c' : ReplicaCollectionId) (run' : Running)
    (hrun' : Function.update w.running c (some ⟨step, rest⟩) c' = some run') :
    ∃ run, w.running c' = some run ∧ run'.step = run.step ∧ run'.rest <:+ run.rest := by
  by_cases hc : c' = c
  · subst hc
    rw [Function.update_self, Option.some.injEq] at hrun'
    subst hrun'
    exact ⟨_, hrun, rfl, List.suffix_cons k rest⟩
  · rw [Function.update_of_ne hc] at hrun'
    exact ⟨run', hrun', rfl, List.suffix_refl _⟩

/-- An answered change of another member leaves the item's members and both halves as they are. -/
theorem serve_harmless (hi : v.Inv w) (hr : v.Ready s m) {step : SyncStep}
    {kind : ReplicaChangeKind} {r : Option ReplicaPushResult}
    {rest : List (ReplicaChangeKind × Option ReplicaPushResult)} {m' : Servers}
    (hrun : w.running c = some ⟨step, (kind, r) :: rest⟩)
    (hserves : w.servers.Serves w.Fresh c kind r m') (hk : w.servers.Harmless v.link c kind)
    (hne : v.Left w → kind.locus c ≠ v.origin) :
    v.Inv ⟨w.storage, m', Function.update w.running c (some ⟨step, rest⟩)⟩ := by
  have hsame := hserves.harmless hk
  refine hi.carry hr (taken hrun) (fun o ho => Or.inl ((hsame o).mp ho)) hserves.lands ?_ ?_ ?_ ?_
  · intro hl'
    have hl : v.Left w := (hsame _).mp hl'
    refine ⟨hl, ?_, ?_⟩
    · rw [hserves.keeps (hi.held hl) (hne hl).symm, hi.held hl]
    · intro run' hrun'
      by_cases hc : v.source.collection = c
      · subst hc
        rw [Function.update_self, Option.some.injEq] at hrun'
        subst hrun'
        obtain ⟨k, hmem, hh⟩ := hi.queued hl _ hrun
        rcases List.mem_cons.mp hmem with rfl | hmem
        · exact absurd (congrArg (ReplicaOrigin.mk v.source.collection) hh) (hne hl)
        · exact ⟨k, hmem, hh⟩
      · rw [Function.update_of_ne hc] at hrun'
        exact hi.queued hl run' hrun'
  · exact fun g h hg hh => hi.one g h ((hsame _).mp hg) ((hsame _).mp hh)
  · rcases hi.delivered with hl | ⟨h, hh⟩
    · exact Or.inl ((hsame _).mpr hl)
    · exact Or.inr ⟨h, (hsame _).mpr hh⟩
  · intro hl h hh
    refine (hi.spent ((hsame _).mp hl) h ((hsame _).mp hh)).imp_right ?_
    rintro ⟨run, hrunning, hrest, hconf⟩
    by_cases hc : v.target = c
    · subst hc
      rw [hrun, Option.some.injEq] at hrunning
      subst hrunning
      exact ⟨⟨step, rest⟩, Function.update_self ..,
        fun k hk' => hrest k (List.mem_cons_of_mem _ hk'), hconf⟩
    · exact ⟨run, (Function.update_of_ne hc ..).trans hrunning, hrest, hconf⟩

/-- The relocation leaves the source without the member and the target with one: its own, where the
create had delivered it, or the relocated one. -/
theorem serve_remove (hi : v.Inv w) (hr : v.Ready s m) {step : SyncStep}
    {r : Option ReplicaPushResult}
    {rest : List (ReplicaChangeKind × Option ReplicaPushResult)} {m' : Servers}
    (hrun : w.running v.source.collection = some ⟨step, (.remove v.source.handle (some v.target)
      (some v.link) v.source.baseRevision, r) :: rest⟩)
    (hserves : w.servers.Serves w.Fresh v.source.collection (.remove v.source.handle
      (some v.target) (some v.link) v.source.baseRevision) r m') (hl : v.Left w) :
    v.Inv ⟨w.storage, m',
      Function.update w.running v.source.collection (some ⟨step, rest⟩)⟩ := by
  obtain ⟨g, hholds, hg⟩ := hserves.relocates (hi.held hl) hr.elsewhere
  have hgone : ¬ m'.Holds v.link v.origin := by
    intro h
    rcases (hholds _).mp h with heq | ⟨hne, -⟩
    · exact hr.elsewhere (congrArg ReplicaOrigin.collection heq).symm
    · exact hne rfl
  have hone : ∀ h, m'.Holds v.link ⟨v.target, h⟩ → h = g := by
    intro h hh
    rcases (hholds _).mp hh with heq | ⟨-, hold⟩
    · exact congrArg ReplicaOrigin.handle heq
    · rcases hg with hg | ⟨hnone, -⟩
      · exact hi.one h g hold hg
      · exact absurd hold (hnone h)
  refine hi.carry hr (taken hrun) ?_ hserves.lands (fun h => absurd h hgone)
    (fun h h' hh hh' => (hone h hh).trans (hone h' hh').symm)
    (Or.inr ⟨g, (hholds _).mpr (Or.inl rfl)⟩) (fun h => absurd h hgone)
  intro o ho
  rcases (hholds o).mp ho with rfl | ⟨-, hold⟩
  · exact hg.imp_right (fun hnew => ⟨rfl, hnew.2⟩)
  · exact Or.inl hold

/-- The add of the pending create, the moved member still standing, gives the target its one member,
and is recorded when its run finishes. -/
theorem serve_add (hi : v.Inv w) (hr : v.Ready s m) {step : SyncStep}
    {r : Option ReplicaPushResult}
    {rest : List (ReplicaChangeKind × Option ReplicaPushResult)} {m' : Servers}
    (hrun : w.running v.target = some ⟨step, (.add v.placeholder (some v.link) v.source.flags
      (some v.origin) v.source.object, r) :: rest⟩)
    (hserves : w.servers.Serves w.Fresh v.target (.add v.placeholder (some v.link) v.source.flags
      (some v.origin) v.source.object) r m') (hl : v.Left w)
    (hrow : (w.storage.rows v.target).rows[v.placeholder]? = some v.create) :
    v.Inv ⟨w.storage, m', Function.update w.running v.target (some ⟨step, rest⟩)⟩ := by
  obtain ⟨g, result, rfl, hnew, hholds⟩ := hserves.copies hl
  -- the create would not be pending here had its add been accepted before
  have hnone : ∀ h, ¬ w.servers.Holds v.link ⟨v.target, h⟩ := by
    intro h hh
    rcases hi.spent hl h hh with hrow' | ⟨run, hrunning, hrest, -⟩
    · exact hrow' hrow
    · rw [hrun, Option.some.injEq] at hrunning
      subst hrunning
      exact hrest _ List.mem_cons_self rfl
  have hone : ∀ h, m'.Holds v.link ⟨v.target, h⟩ → h = g := by
    intro h hh
    rcases (hholds _).mp hh with heq | hold
    · exact congrArg ReplicaOrigin.handle heq
    · exact absurd hold (hnone h)
  have hl' : m'.Holds v.link v.origin := (hholds _).mpr (Or.inr hl)
  have hruns := hi.runs v.target _ hrun
  have hdistinct := hruns.reads.syncs.changes_nodup
  have honce := hdistinct
  rw [← Transcript.answers_handles] at honce
  have hlast := (hruns.rest.sublist.map _).nodup honce
  rw [List.map_cons, List.nodup_cons] at hlast
  refine hi.carry hr (taken hrun) ?_ hserves.lands (fun _ => ⟨hl, ?_, ?_⟩)
    (fun h h' hh hh' => (hone h hh).trans (hone h' hh').symm) (Or.inl hl') (fun _ h _ => ?_)
  · intro o ho
    rcases (hholds o).mp ho with rfl | hold
    · exact Or.inr ⟨rfl, hnew⟩
    · exact Or.inl hold
  · rw [hserves.keeps (hi.held hl) (fun heq => hr.elsewhere
      (congrArg ReplicaOrigin.collection heq).symm), hi.held hl]
  · intro run' hrun'
    rw [Function.update_of_ne (Ne.symm hr.elsewhere)] at hrun'
    exact hi.queued hl run' hrun'
  · refine Or.inr ⟨⟨step, rest⟩, Function.update_self .., ?_, ?_⟩
    · intro k hk hh
      exact hlast.1 (List.mem_map.mpr ⟨k, hk, hh⟩)
    · have hconf := Transcript.confirmation_of_answers hruns.inFlight hdistinct
        (hruns.rest.subset List.mem_cons_self)
      exact Option.isSome_iff_exists.mpr ⟨result, hconf⟩

/-- Others move no member of the item. -/
theorem others (hi : v.Inv w) (hr : v.Ready s m) {m' : Servers}
    (spared : ∀ o, m' o = w.servers o ∨ (¬ w.servers.Holds v.link o ∧ ¬ m'.Holds v.link o ∧
      (w.servers o = none → w.Fresh o))) : v.Inv ⟨w.storage, m', w.running⟩ := by
  have hsame : ∀ o, m'.Holds v.link o ↔ w.servers.Holds v.link o := by
    intro o
    rcases spared o with heq | ⟨hold, hnew, -⟩
    · rw [Servers.Holds, Servers.Holds, heq]
    · exact ⟨fun h => absurd h hnew, fun h => absurd h hold⟩
  refine hi.carry hr (fun c run hrun => ⟨run, hrun, rfl, List.suffix_refl _⟩)
    (fun o ho => Or.inl ((hsame o).mp ho)) (fun hnone => ?_) (fun hl' => ?_)
    (fun g h hg hh => hi.one g h ((hsame _).mp hg) ((hsame _).mp hh)) ?_ (fun hl h hh => ?_)
  · rcases spared ⟨v.target, v.placeholder⟩ with heq | ⟨-, -, hfresh⟩
    · exact Or.inl (heq.trans hnone)
    · exact Or.inr (hfresh hnone)
  · have hl : v.Left w := (hsame _).mp hl'
    refine ⟨hl, ?_, hi.queued hl⟩
    rcases spared v.origin with heq | ⟨hold, -⟩
    · exact heq
    · exact absurd hl hold
  · rcases hi.delivered with hl | ⟨h, hh⟩
    · exact Or.inl ((hsame _).mpr hl)
    · exact Or.inr ⟨h, (hsame _).mpr hh⟩
  · exact hi.spent ((hsame _).mp hl) h ((hsame _).mp hh)

/-- A run that begins has its half of the move to push, where it is not done. -/
theorem begin (hi : v.Inv w) (hr : v.Ready s m) {step : SyncStep} (hb : v.Begins w c step) :
    v.Inv ⟨w.storage, w.servers,
      Function.update w.running c (some ⟨step, step.transcript.answers⟩)⟩ := by
  have htold : c = v.source.collection → v.Left w →
      MovedEdit.Unmoved v.source (w.storage.rows c) step.snapshot := by
    rintro rfl hl
    exact hb.tells.unmoved (hi.stored hl) (by simp [away, ReplicaMutate.movedAway]) rfl
      hr.unconflicted hr.based (hi.held hl) rfl
  have hunlisted : c = v.target →
      (w.storage.rows c).rows[v.placeholder]? = some v.create →
        step.snapshot.reported v.placeholder = none := by
    rintro rfl hrow
    cases hi' : step.snapshot.reported v.placeholder with
    | none => rfl
    | some item =>
      obtain ⟨held, hheld, -⟩ := hb.tells.listed _ _ hi'
      rw [hi.vacant hrow] at hheld
      cases hheld
  refine ⟨hi.source, hi.target, hi.vacant, hi.only, hi.one, hi.delivered, hi.stored, hi.held, ?_,
    ?_, ?_⟩
  · intro hl run hrun
    by_cases hc : v.source.collection = c
    · subst hc
      dsimp only at hrun
      rw [Function.update_self, Option.some.injEq] at hrun
      subst hrun
      have hpushed := movedAway_pushed hb.reads hb.granted (hi.stored hl) hr.based hr.unedited
        (htold rfl hl)
      have hmem := List.mem_filter.mp (hpushed.symm ▸ List.mem_singleton_self _)
      obtain ⟨r, hanswer⟩ := Transcript.mem_answers_of_changes hmem.1
      exact ⟨_, hanswer, rfl⟩
    · dsimp only at hrun
      rw [Function.update_of_ne hc] at hrun
      exact hi.queued hl run hrun
  · intro hl h hh
    refine (hi.spent hl h hh).imp_right ?_
    rintro ⟨run, hrun, hrest, hconf⟩
    have hc : v.target ≠ c := by
      rintro rfl
      rw [hb.idle] at hrun
      cases hrun
    exact ⟨run, (Function.update_of_ne hc ..).trans hrun, hrest, hconf⟩
  · intro c' run hrun
    by_cases hc : c' = c
    · subst hc
      dsimp only at hrun
      rw [Function.update_self, Option.some.injEq] at hrun
      subst hrun
      exact ⟨hb.side, hb.reads, hb.granted, hb.inFlight, hb.undisturbed, htold, hunlisted,
        List.suffix_refl _⟩
    · dsimp only at hrun
      rw [Function.update_of_ne hc] at hrun
      exact (hi.runs c' run hrun).keeps rfl id

/-- A run that ends leaves the others under way. -/
theorem ended (hi : v.Inv w) {step : SyncStep} (hrun : w.running c = some ⟨step, []⟩)
    (c' : ReplicaCollectionId) (run : Running)
    (hrun' : Function.update w.running c none c' = some run) :
    v.Runs ⟨w.storage.apply step.transcript.writes, w.servers, Function.update w.running c none⟩
      c' run := by
  have hruns := hi.runs c _ hrun
  by_cases hc : c' = c
  · rw [hc, Function.update_self] at hrun'
    cases hrun'
  · rw [Function.update_of_ne hc] at hrun'
    refine (hi.runs c' run hrun').keeps ?_ id
    dsimp only
    rw [w.storage.apply_sync hruns.reads.syncs hruns.reads.loads, Function.update_of_ne hc]

/-- A run of the source that ends has had its relocation served, and leaves bystanders. -/
theorem finish_source (hi : v.Inv w) (hr : v.Ready s m) {step : SyncStep}
    (hrun : w.running v.source.collection = some ⟨step, []⟩) :
    v.Inv ⟨w.storage.apply step.transcript.writes, w.servers,
      Function.update w.running v.source.collection none⟩ ∧ ¬ v.Left w := by
  have hl : ¬ v.Left w := by
    intro hl
    obtain ⟨k, hk, -⟩ := hi.queued hl _ hrun
    cases hk
  have hruns := hi.runs _ _ hrun
  have hrows := w.storage.apply_sync hruns.reads.syncs hruns.reads.loads
  have htarget : (w.storage.apply step.transcript.writes).rows v.target =
      w.storage.rows v.target := by
    rw [hrows, Function.update_of_ne hr.elsewhere]
  have hby : ∀ (h : ReplicaHandle) (q : ReplicaPlacement),
      (w.storage.rows v.source.collection).rows[h]? = some q →
        Bystander w.servers v.link v.source.collection q := by
    intro h q hq
    rcases hi.source h q hq with ⟨-, rfl⟩ | hby
    · exact away_bystander hr hl
    · exact hby
  refine ⟨⟨?_, ?_, ?_, hi.only, hi.one, hi.delivered, fun h => absurd h hl, fun h => absurd h hl,
    fun h => absurd h hl, fun h => absurd h hl, ?_⟩, hl⟩
  · intro h q hq
    dsimp only at hq
    rw [hrows, Function.update_self] at hq
    exact Or.inr (hruns.leaves_bystanders hby hq)
  · dsimp only
    rw [htarget]
    exact hi.target
  · dsimp only
    rw [htarget]
    exact hi.vacant
  · exact fun c' run hrun' => hi.ended hrun c' run hrun'

/-- A run of the target that ends leaves the create pending only where its add was not accepted. -/
theorem finish_target (hi : v.Inv w) (hr : v.Ready s m) {step : SyncStep}
    (hrun : w.running v.target = some ⟨step, []⟩) :
    v.Inv ⟨w.storage.apply step.transcript.writes, w.servers,
      Function.update w.running v.target none⟩ := by
  have hruns := hi.runs _ _ hrun
  have hrows := w.storage.apply_sync hruns.reads.syncs hruns.reads.loads
  have hsource : (w.storage.apply step.transcript.writes).rows v.source.collection =
      w.storage.rows v.source.collection := by
    rw [hrows, Function.update_of_ne (Ne.symm hr.elsewhere)]
  have hleaves : ∀ (h : ReplicaHandle) (q : ReplicaPlacement),
      ((w.storage.rows v.target).apply step.transcript.writes).rows[h]? = some q →
      (h = v.placeholder ∧ q = v.create ∧
          (w.storage.rows v.target).rows[v.placeholder]? = some v.create ∧
          Outbox.confirmation v.placeholder step.transcript.pushes = none) ∨
        Bystander w.servers v.link v.target q := by
    intro h q hq
    by_cases hrow : (w.storage.rows v.target).rows[v.placeholder]? = some v.create
    · have hu := hruns.undisturbed
      rw [half_target] at hu
      refine (stagedCopy_settles hruns.reads hruns.granted hrow ⟨hruns.unlisted rfl hrow, hu⟩
        (fun g x hx hne => (hi.target g x hx).resolve_left (fun hg => hne hg.1)) hq).imp_left ?_
      rintro ⟨hh, hcreate, hconf⟩
      exact ⟨hh, hcreate, hrow, hconf⟩
    · have hby : ∀ (h : ReplicaHandle) (q : ReplicaPlacement),
          (w.storage.rows v.target).rows[h]? = some q →
            Bystander w.servers v.link v.target q := by
        intro h q hq
        refine (hi.target h q hq).resolve_left ?_
        rintro ⟨rfl, rfl⟩
        exact hrow hq
      exact Or.inr (hruns.leaves_bystanders hby hq)
  have hafter : ((w.storage.apply step.transcript.writes).rows v.target).rows[v.placeholder]? =
      some v.create → (w.storage.rows v.target).rows[v.placeholder]? = some v.create ∧
        Outbox.confirmation v.placeholder step.transcript.pushes = none := by
    intro hq
    rw [hrows, Function.update_self] at hq
    rcases hleaves _ _ hq with ⟨-, -, hpending⟩ | hby
    · exact hpending
    · exact absurd hby (create_not_bystander hr)
  refine ⟨?_, ?_, fun hq => hi.vacant (hafter hq).1, hi.only, hi.one, hi.delivered, ?_, hi.held, ?_,
    ?_, ?_⟩
  · dsimp only
    rw [hsource]
    exact hi.source
  · intro h q hq
    dsimp only at hq
    rw [hrows, Function.update_self] at hq
    exact (hleaves h q hq).imp_left (fun hc => ⟨hc.1, hc.2.1⟩)
  · dsimp only
    rw [hsource]
    exact hi.stored
  · intro hl run hrun'
    dsimp only at hrun'
    rw [Function.update_of_ne (Ne.symm hr.elsewhere)] at hrun'
    exact hi.queued hl run hrun'
  · intro hl h hh
    refine Or.inl (fun hq => ?_)
    obtain ⟨hrow, hnone⟩ := hafter hq
    rcases hi.spent hl h hh with hrow' | ⟨run, hrunning, -, hconf⟩
    · exact hrow' hrow
    · rw [hrun, Option.some.injEq] at hrunning
      subst hrunning
      rw [hnone] at hconf
      cases hconf
  · exact fun c' run hrun' => hi.ended hrun c' run hrun'

/-- Every step keeps the invariant, and none brings the moved member back. -/
theorem step (hi : v.Inv w) (hr : v.Ready s m) (h : v.Step w w') :
    v.Inv w' ∧ (v.Left w' → v.Left w) := by
  cases h with
  | begin begins => exact ⟨hi.begin hr begins, id⟩
  | @serve c step kind r rest m' runs serves =>
    rcases hi.pushes hr runs List.mem_cons_self with
      ⟨hk, hne⟩ | ⟨hl, rfl, rfl⟩ | ⟨hl, rfl, hrow, rfl⟩
    · exact ⟨hi.serve_harmless hr runs serves hk hne, (serves.harmless hk _).mp⟩
    · exact ⟨hi.serve_remove hr runs serves hl, fun _ => hl⟩
    · exact ⟨hi.serve_add hr runs serves hl hrow, fun _ => hl⟩
  | finish finishes =>
    obtain ⟨step, hrun, rfl⟩ := finishes
    refine ⟨?_, id⟩
    rcases (hi.runs _ _ hrun).side with rfl | rfl
    · exact (hi.finish_source hr hrun).1
    · exact hi.finish_target hr hrun
  | others spared =>
    refine ⟨hi.others hr spared, fun hl' => ?_⟩
    rcases spared v.origin with heq | ⟨-, hnew, -⟩
    · have hsame := congrArg (fun item => item.bind (·.linkId)) heq
      exact hsame.symm.trans hl'
    · exact absurd hl' hnew

/-- Every interleaving does, from any state that has it. -/
theorem reaches (hi : v.Inv w) (hr : v.Ready s m) (h : Relation.ReflTransGen v.Step w w') :
    v.Inv w' ∧ (v.Left w' → v.Left w) := by
  induction h with
  | refl => exact ⟨hi, id⟩
  | tail _ hstep ih =>
    obtain ⟨hnext, hback⟩ := ih.1.step hr hstep
    exact ⟨hnext, ih.2 ∘ hback⟩

/-- The move just staged: its member at the source, its two rows pending, and bystanders. -/
theorem start (hr : v.Ready s m) (ha : v.Alone s m) : v.Inv (v.start s m) := by
  obtain ⟨hsource, htarget⟩ := MovedEdit.staged_rows s hr.elsewhere v.placeholder
  have hlinked : v.source.linkId.isSome = true := by rw [hr.linked]; rfl
  rw [if_pos hlinked] at htarget
  have haway : v.away.handle = v.source.handle := rfl
  have hcreate : v.create.handle = v.placeholder := rfl
  have hleft : m.Holds v.link v.origin := by
    rw [Servers.Holds, hr.held]
    rfl
  refine ⟨?_, ?_, fun _ => hr.vacant, ha.member, fun g _ hg => absurd hg (hr.unheld g),
    Or.inl hleft, fun _ => ?_, fun _ => hr.held, ?_, fun _ h hh => absurd hh (hr.unheld h), ?_⟩
  · intro h q hq
    dsimp only [Move.start] at hq
    rw [hsource, CollectionRows.get_write, rowAfter_upsert, rowAfter_nil] at hq
    split at hq
    · rename_i hh
      cases hq
      exact Or.inl ⟨hh.symm, rfl⟩
    · rename_i hh
      refine Or.inr (ha.rows _ h q (Or.inl rfl) hq (fun heq => hh ?_))
      exact (congrArg ReplicaOrigin.handle heq).symm
  · intro h q hq
    dsimp only [Move.start] at hq
    rw [htarget, CollectionRows.get_write, rowAfter_upsert, rowAfter_nil] at hq
    split at hq
    · rename_i hh
      cases hq
      exact Or.inl ⟨hh.symm, rfl⟩
    · refine Or.inr (ha.rows _ h q (Or.inr rfl) hq (fun heq => hr.elsewhere ?_))
      exact congrArg ReplicaOrigin.collection heq
  · dsimp only [Move.start]
    rw [hsource, CollectionRows.get_write, rowAfter_upsert]
    exact if_pos haway
  · rintro _ run ⟨⟩
  · rintro c run ⟨⟩

end Inv

/-- A move delivers one member, whatever the order its halves are synced in: the servers always hold
one between them, the target never two, and once the source has completed a sync it holds none and
the target exactly one. -/
theorem move_delivers_once (hr : v.Ready s m) (ha : v.Alone s m)
    (h : Relation.ReflTransGen v.Step (v.start s m) w) :
    ((∃ h, w.servers.Holds v.link ⟨v.source.collection, h⟩) ∨
        ∃ h, w.servers.Holds v.link ⟨v.target, h⟩) ∧
      (∀ g h, w.servers.Holds v.link ⟨v.target, g⟩ → w.servers.Holds v.link ⟨v.target, h⟩ →
        g = h) ∧
      ∀ w₁ w₂, Finishes v.source.collection w w₁ → Relation.ReflTransGen v.Step w₁ w₂ →
        (∀ h, ¬ w₂.servers.Holds v.link ⟨v.source.collection, h⟩) ∧
          ∃! h, w₂.servers.Holds v.link ⟨v.target, h⟩ := by
  have hi := ((Inv.start hr ha).reaches hr h).1
  refine ⟨hi.delivered.imp_left (fun hl => ⟨_, hl⟩), hi.one, ?_⟩
  rintro w₁ w₂ ⟨step, hrun, rfl⟩ hlater
  obtain ⟨hi₁, hl⟩ := hi.finish_source hr hrun
  obtain ⟨hi₂, hback⟩ := hi₁.reaches hr hlater
  have hgone : ¬ v.Left w₂ := fun hl₂ => hl (hback hl₂)
  refine ⟨fun h hh => hgone ?_, ?_⟩
  · have hh' := hh
    rw [hi₂.only h hh] at hh'
    exact hh'
  · obtain ⟨h, hh⟩ := hi₂.delivered.resolve_left hgone
    exact ⟨h, hh, fun g hg => hi₂.one g h hg hh⟩

section Runs

/-- The card as its server holds it, its link id resolved. -/
def linkedCard : ReplicaPlacement := { Copies.cleanCard with linkId := some ⟨"l"⟩ }

def cardMove : Move := ⟨linkedCard, ⟨"archive"⟩, ⟨"n"⟩, ⟨"l"⟩⟩

/-- The card's server holds it alone, the archive's nothing. -/
def cardServers : Servers :=
  fun o => if o = cardMove.origin then some ⟨some ⟨"l"⟩, some "1"⟩ else none

/-- Once a copy of the card has landed in the archive. -/
def copiedServers (servers : Servers) (g : ReplicaHandle) : Servers :=
  Function.update servers ⟨⟨"archive"⟩, g⟩ (some ⟨some ⟨"l"⟩, some "1"⟩)

/-- The card, and copies of it staged in the archive before. -/
def staging (copies : List ReplicaHandle) : List ReplicaWriteOp :=
  .upsertPlacement linkedCard :: copies.map (fun h =>
    .upsertPlacement (ReplicaMutate.stagedCopy linkedCard ⟨"archive"⟩ h))

def cardStorage (copies : List ReplicaHandle) : Storage := Storage.empty.apply (staging copies)

/-- The rows the move leaves: the card's, the copies' and its own two. -/
theorem card_rows {copies : List ReplicaHandle} {c : ReplicaCollectionId} {h : ReplicaHandle}
    {q : ReplicaPlacement}
    (hq : ((cardMove.start (cardStorage copies) cardServers).storage.rows c).rows[h]? = some q) :
    (q = linkedCard ∨ q = cardMove.away) ∨
      ∃ g, (g ∈ copies ∨ g = ⟨"n"⟩) ∧ q = ReplicaMutate.stagedCopy linkedCard ⟨"archive"⟩ g := by
  rcases Storage.apply_mem _ hq with hq | hmem
  · rcases Storage.apply_mem _ hq with hq | hmem
    · simp [Storage.empty, CollectionRows.empty] at hq
    · rcases List.mem_cons.mp hmem with heq | hmem
      · cases heq
        exact Or.inl (Or.inl rfl)
      · obtain ⟨g, hg, heq⟩ := List.mem_map.mp hmem
        cases heq
        exact Or.inr ⟨g, Or.inl hg, rfl⟩
  · have hops : MovedEdit.staged cardMove.source cardMove.target cardMove.placeholder =
        [.upsertPlacement cardMove.create, .upsertPlacement cardMove.away] := rfl
    rw [hops, List.mem_cons, List.mem_singleton] at hmem
    rcases hmem with heq | heq
    · cases heq
      exact Or.inr ⟨⟨"n"⟩, Or.inr rfl, rfl⟩
    · cases heq
      exact Or.inl (Or.inr rfl)

theorem contacts_ne_archive : (⟨"contacts"⟩ : ReplicaCollectionId) ≠ ⟨"archive"⟩ := by decide

/-- A handle of the archive that stages no copy was never used. -/
theorem card_fresh (copies : List ReplicaHandle) {g : ReplicaHandle} (hg : g ∉ copies)
    (hn : g ≠ ⟨"n"⟩) :
    (cardMove.start (cardStorage copies) cardServers).Fresh ⟨⟨"archive"⟩, g⟩ := by
  refine ⟨?_, fun c h q hq hbase => ?_⟩
  · rw [Option.eq_none_iff_forall_ne_some]
    intro q hq
    have hplaced := Storage.placed _ _ g q hq
    have hkeyed := CollectionRows.keyed _ g q hq
    rcases card_rows hq with (rfl | rfl) | ⟨f, hf, rfl⟩
    · exact contacts_ne_archive hplaced
    · exact contacts_ne_archive hplaced
    · rcases hf with hf | hf
      · exact hg (hkeyed ▸ hf)
      · exact hn (hkeyed.symm.trans hf)
  · rcases card_rows hq with (rfl | rfl) | ⟨f, -, rfl⟩
    · cases hbase
    · cases hbase
    · intro horigin
      exact contacts_ne_archive (congrArg ReplicaOrigin.collection (Option.some.inj horigin))

theorem cardStorage_rows (copies : List ReplicaHandle) :
    (cardStorage copies).rows ⟨"contacts"⟩ =
        CollectionRows.empty.write (.upsertPlacement linkedCard) ∧
      (cardStorage copies).rows ⟨"archive"⟩ = CollectionRows.empty.apply (copies.map (fun h =>
        .upsertPlacement (ReplicaMutate.stagedCopy linkedCard ⟨"archive"⟩ h))) := by
  have hcard : ReplicaWriteOp.collection (.upsertPlacement linkedCard) = some ⟨"contacts"⟩ := rfl
  have hcopies : ∀ op ∈ copies.map (fun h => ReplicaWriteOp.upsertPlacement
      (ReplicaMutate.stagedCopy linkedCard ⟨"archive"⟩ h)), op.collection = some ⟨"archive"⟩ := by
    intro op hop
    obtain ⟨h, -, rfl⟩ := List.mem_map.mp hop
    rfl
  have hrows := (Storage.empty.write (.upsertPlacement linkedCard)).apply_rows hcopies
  rw [Storage.write_rows _ hcard] at hrows
  have hall : (cardStorage copies).rows = _ := hrows
  rw [hall, Function.update_self, Function.update_of_ne (by decide), Function.update_self]
  exact ⟨rfl, congrArg (CollectionRows.apply · _) (Function.update_of_ne (by decide) ..)⟩

theorem card_ready (copies : List ReplicaHandle) (hn : ⟨"n"⟩ ∉ copies) :
    cardMove.Ready (cardStorage copies) cardServers where
  stored := by
    have hrow := CollectionRows.get_single linkedCard linkedCard.handle
    rw [if_pos rfl, ← (cardStorage_rows copies).1] at hrow
    exact hrow
  linked := rfl
  based := rfl
  unedited := by decide
  unconflicted := rfl
  held := by decide
  elsewhere := by decide
  unheld h := by
    exact Servers.not_holds_of_none
      (if_neg (fun heq => contacts_ne_archive (congrArg ReplicaOrigin.collection heq).symm))
  free := by
    have harchive : cardMove.target = ⟨"archive"⟩ := rfl
    rw [harchive, (cardStorage_rows copies).2, CollectionRows.get_apply, rowAfter_of_ne]
    · simp [CollectionRows.empty]
    · intro op hop
      obtain ⟨h, hh, rfl⟩ := List.mem_map.mp hop
      intro hrow
      have hname : h = ⟨"n"⟩ := Option.some.inj hrow
      exact hn (hname ▸ hh)
  vacant := by decide

theorem card_alone : cardMove.Alone (cardStorage []) cardServers where
  member h hh := by
    obtain ⟨item, hitem, -⟩ := hh.held
    rw [cardServers] at hitem
    split at hitem
    · rename_i heq
      exact congrArg ReplicaOrigin.handle heq
    · cases hitem
  rows c h q hc hq hne := by
    exfalso
    rcases hc with rfl | rfl
    · have hcontacts : cardMove.source.collection = ⟨"contacts"⟩ := rfl
      rw [hcontacts, (cardStorage_rows []).1, CollectionRows.get_single] at hq
      split at hq
      · rename_i hh
        exact hne (congrArg (ReplicaOrigin.mk ⟨"contacts"⟩) hh.symm)
      · cases hq
    · have harchive : cardMove.target = ⟨"archive"⟩ := rfl
      rw [harchive, (cardStorage_rows []).2] at hq
      simp [CollectionRows.apply, CollectionRows.empty] at hq

/-- A driven run over a collection's rows is one of its syncs. -/
theorem seam_begins {seam s' : Seam} {t : Transcript} {fuel : ℕ}
    (hside : c = v.source.collection ∨ c = v.target) (hidle : w.running c = none)
    (hrows : w.storage.rows c = seam.rows)
    (h : seam.sync fuel c .default = some (s', t)) (htells : w.servers.Tells c seam.snapshot)
    (hflight : t.InFlight) (hu : Undisturbed seam.rows (v.half c) t) :
    v.Begins w c ⟨.default, ⟨seam.rows.placements, seam.checkpoint⟩, seam.snapshot, t⟩ := by
  refine ⟨hside, hidle, ⟨?_, (Seam.sync_syncs h).1⟩, ⟨rfl, rfl⟩, htells, hflight, ?_⟩
  · rw [hrows]
  · rw [hrows]
    exact hu

theorem begun {step : SyncStep} {rest : List (ReplicaChangeKind × Option ReplicaPushResult)}
    (hb : v.Begins w c step) (hrest : step.transcript.answers = rest) :
    v.Step w ⟨w.storage, w.servers, Function.update w.running c (some ⟨step, rest⟩)⟩ := by
  rw [← hrest]
  exact .begin hb

theorem ends (storage : Storage) (servers : Servers)
    (running : ReplicaCollectionId → Option Running) (c : ReplicaCollectionId) (step : SyncStep) :
    ∃ w', Finishes c ⟨storage, servers, Function.update running c (some ⟨step, []⟩)⟩ w' :=
  ⟨_, step, Function.update_self .., rfl⟩

/-- What the card's source syncs after the move: the tombstone alone, its member listed. -/
def awaySeam : Seam where
  rows := (CollectionRows.empty.write (.upsertPlacement linkedCard)).write
    (.upsertPlacement cardMove.away)
  checkpoint := none
  snapshot := ⟨[⟨⟨"a"⟩, .empty, some "1"⟩], [], true, ⟨[]⟩⟩
  replies := [[⟨⟨"a"⟩, .accepted, none, none⟩]]

def awayKind : ReplicaChangeKind := .remove ⟨"a"⟩ (some ⟨"archive"⟩) (some ⟨"l"⟩) (some "1")

theorem awaySeam_run : ∃ s' t, awaySeam.sync 9 ⟨"contacts"⟩ .default = some (s', t) ∧
    t.pushes = [([.new ⟨"contacts"⟩ awayKind], [⟨⟨"a"⟩, .accepted, none, none⟩])] := by
  have hrun : (awaySeam.sync 9 ⟨"contacts"⟩ .default).map (fun o => o.2.pushes) =
      some [([.new ⟨"contacts"⟩ awayKind], [⟨⟨"a"⟩, .accepted, none, none⟩])] := by
    decide +kernel
  obtain ⟨⟨s', t⟩, hd, heq⟩ := Option.map_eq_some_iff.mp hrun
  exact ⟨s', t, hd, heq⟩

theorem card_tells : cardServers.Tells ⟨"contacts"⟩ awaySeam.snapshot where
  listed h item hi := by
    have hitem := List.mem_of_find?_eq_some hi
    have hh := ReplicaRemoteSnapshot.reported_handle hi
    rw [List.mem_singleton.mp hitem] at hh ⊢
    exact ⟨⟨some ⟨"l"⟩, some "1"⟩, by rw [← hh]; decide, rfl⟩
  whole _ h hh := by
    rw [cardServers] at hh
    split at hh
    · rename_i heq
      have hname : h = ⟨"a"⟩ := congrArg ReplicaOrigin.handle heq
      rw [hname]
      decide
    · cases hh
  vanished h hh := by cases hh

theorem away_undisturbed {t : Transcript}
    (hpushes : t.pushes = [([.new ⟨"contacts"⟩ awayKind], [⟨⟨"a"⟩, .accepted, none, none⟩])]) :
    Undisturbed awaySeam.rows ⟨"a"⟩ t := by
  refine ⟨fun g q hq hg => ?_, fun e he r hr hne => ?_⟩
  · have haway : cardMove.away.handle = ⟨"a"⟩ := rfl
    have hcard : linkedCard.handle = ⟨"a"⟩ := rfl
    rw [awaySeam, CollectionRows.get_write, rowAfter_upsert, rowAfter_nil, haway,
      if_neg (Ne.symm hg), CollectionRows.get_single, hcard, if_neg (Ne.symm hg)] at hq
    cases hq
  · rw [hpushes, List.mem_singleton] at he
    rw [he, List.mem_singleton] at hr
    exact absurd (congrArg ReplicaPushResult.handle hr) hne

/-- The card relocated by its source's sync alone: the archive comes to hold it, the source none. -/
theorem card_delivered_once : ∃ w w',
    Relation.ReflTransGen cardMove.Step (cardMove.start (cardStorage []) cardServers) w ∧
      Finishes ⟨"contacts"⟩ w w' ∧ (∀ h, ¬ w'.servers.Holds ⟨"l"⟩ ⟨⟨"contacts"⟩, h⟩) ∧
      ∃! h, w'.servers.Holds ⟨"l"⟩ ⟨⟨"archive"⟩, h⟩ := by
  obtain ⟨s', t, hd, hpushes⟩ := awaySeam_run
  have hready := card_ready [] (by decide)
  have hrows : (cardMove.start (cardStorage []) cardServers).storage.rows ⟨"contacts"⟩ =
      awaySeam.rows := by
    have hstaged := (MovedEdit.staged_rows (cardStorage []) hready.elsewhere ⟨"n"⟩).1
    have hcontacts : cardMove.source.collection = ⟨"contacts"⟩ := rfl
    rw [hcontacts, (cardStorage_rows []).1] at hstaged
    exact hstaged
  have hflight : t.InFlight := by
    rw [Transcript.InFlight, hpushes]
    decide
  have hanswers : t.answers = [(awayKind, some ⟨⟨"a"⟩, .accepted, none, none⟩)] := by
    rw [Transcript.answers, hpushes]
    rfl
  have hbegun := begun (seam_begins (v := cardMove) (Or.inl rfl) rfl hrows hd card_tells hflight
    (away_undisturbed hpushes)) hanswers
  have hlacks : ¬ cardServers.Served (some ⟨"l"⟩) ⟨"archive"⟩ := by
    rintro ⟨link, g, hl, hg⟩
    cases hl
    exact hready.unheld g hg
  have hheld : cardServers ⟨⟨"contacts"⟩, ⟨"a"⟩⟩ = some ⟨some ⟨"l"⟩, some "1"⟩ := by decide
  have hvacant : cardServers ⟨⟨"archive"⟩, ⟨"z"⟩⟩ = none := by decide
  have hfresh := card_fresh [] (g := ⟨"z"⟩) (by decide) (by decide)
  have hreach := (Relation.ReflTransGen.refl.tail hbegun).tail
    (.serve (Function.update_self ..) (.relocated (some "1") hlacks hheld hvacant hfresh))
  obtain ⟨w', hends⟩ := ends _ _ _ _ _
  obtain ⟨hnone, hone⟩ := (move_delivers_once hready card_alone hreach).2.2 w' w' hends .refl
  exact ⟨_, w', hreach, hends, hnone, hone⟩

/-- What the archive syncs where a copy of the card was staged before the move: both creates. -/
def twiceSeam : Seam where
  rows := (CollectionRows.empty.write (.upsertPlacement
    (ReplicaMutate.stagedCopy linkedCard ⟨"archive"⟩ ⟨"m"⟩))).write
    (.upsertPlacement cardMove.create)
  checkpoint := none
  snapshot := ⟨[], [], true, ⟨[]⟩⟩
  replies := [[⟨⟨"m"⟩, .accepted, some ⟨"y"⟩, some "1"⟩, ⟨⟨"n"⟩, .accepted, some ⟨"z"⟩, some "1"⟩]]

def addKind (h : ReplicaHandle) : ReplicaChangeKind :=
  .add h (some ⟨"l"⟩) .empty (some cardMove.origin) (some ⟨"old"⟩)

def twicePushes : List PushExchange :=
  [([.new ⟨"archive"⟩ (addKind ⟨"m"⟩), .new ⟨"archive"⟩ (addKind ⟨"n"⟩)],
    [⟨⟨"m"⟩, .accepted, some ⟨"y"⟩, some "1"⟩, ⟨⟨"n"⟩, .accepted, some ⟨"z"⟩, some "1"⟩])]

theorem twiceSeam_run : ∃ s' t, twiceSeam.sync 9 ⟨"archive"⟩ .default = some (s', t) ∧
    t.pushes = twicePushes := by
  have hrun : (twiceSeam.sync 9 ⟨"archive"⟩ .default).map (fun o => o.2.pushes) =
      some twicePushes := by decide +kernel
  obtain ⟨⟨s', t⟩, hd, heq⟩ := Option.map_eq_some_iff.mp hrun
  exact ⟨s', t, hd, heq⟩

theorem twice_undisturbed {t : Transcript} (hpushes : t.pushes = twicePushes) :
    Undisturbed twiceSeam.rows ⟨"n"⟩ t := by
  refine ⟨fun g q hq hg => ?_, fun e he r hr hne => ?_⟩
  · have hcreate : cardMove.create.handle = ⟨"n"⟩ := rfl
    rw [twiceSeam, CollectionRows.get_write, rowAfter_upsert, rowAfter_nil, hcreate,
      if_neg (Ne.symm hg), CollectionRows.get_single] at hq
    split at hq
    · rename_i hm
      cases hq
      rintro ⟨o, ho, hfork⟩
      cases ho
      rw [← hm] at hfork
      exact absurd hfork (by decide)
    · cases hq
  · rw [hpushes, twicePushes, List.mem_singleton] at he
    rw [he, List.mem_cons, List.mem_singleton] at hr
    rcases hr with rfl | rfl
    · decide
    · exact absurd rfl hne

theorem card_copied (servers : Servers) {fresh : ReplicaOrigin → Prop} (h : ReplicaHandle)
    {g : ReplicaHandle}
    (hheld : servers cardMove.origin = some ⟨some ⟨"l"⟩, some "1"⟩)
    (hvacant : servers ⟨⟨"archive"⟩, g⟩ = none) (hfresh : fresh ⟨⟨"archive"⟩, g⟩) :
    servers.Serves fresh ⟨"archive"⟩ (addKind h) (some ⟨h, .accepted, some g, some "1"⟩)
      (copiedServers servers g) :=
  .copied (some "1") hheld hvacant hfresh (Or.inr rfl)

/-- A copy of the card staged in the archive before the move is another member of it: an add tells
the copy asked for from the one the move stages by nothing. -/
theorem copied_before_move : ¬ ∀ (v : Move) (s : Storage) (m : Servers) (w : Moving), v.Ready s m →
    Relation.ReflTransGen v.Step (v.start s m) w →
      ∀ g h, w.servers.Holds v.link ⟨v.target, g⟩ → w.servers.Holds v.link ⟨v.target, h⟩ →
        g = h := by
  intro hall
  obtain ⟨s', t, hd, hpushes⟩ := twiceSeam_run
  have hready := card_ready [⟨"m"⟩] (by decide)
  have hrows : (cardMove.start (cardStorage [⟨"m"⟩]) cardServers).storage.rows ⟨"archive"⟩ =
      twiceSeam.rows := by
    have hstaged := (MovedEdit.staged_rows (cardStorage [⟨"m"⟩]) hready.elsewhere ⟨"n"⟩).2
    have harchive : cardMove.target = ⟨"archive"⟩ := rfl
    rw [harchive, (cardStorage_rows [⟨"m"⟩]).2] at hstaged
    exact hstaged
  have htells : cardServers.Tells ⟨"archive"⟩ twiceSeam.snapshot := by
    refine ⟨fun h item hi => (by cases hi), fun _ h hh => ?_, fun h hh => (by cases hh)⟩
    obtain ⟨item, hitem⟩ := Option.isSome_iff_exists.mp hh
    rw [cardServers, if_neg (fun heq =>
      contacts_ne_archive (congrArg ReplicaOrigin.collection heq).symm)] at hitem
    cases hitem
  have hflight : t.InFlight := by
    rw [Transcript.InFlight, hpushes]
    decide
  have hanswers : t.answers = [(addKind ⟨"m"⟩, some ⟨⟨"m"⟩, .accepted, some ⟨"y"⟩, some "1"⟩),
      (addKind ⟨"n"⟩, some ⟨⟨"n"⟩, .accepted, some ⟨"z"⟩, some "1"⟩)] := by
    rw [Transcript.answers, hpushes]
    rfl
  have hbegun := begun (seam_begins (v := cardMove) (Or.inr rfl) rfl hrows hd htells hflight
    (twice_undisturbed hpushes)) hanswers
  have hfresh : ∀ g, g ∉ [(⟨"m"⟩ : ReplicaHandle)] → g ≠ ⟨"n"⟩ →
      (cardMove.start (cardStorage [⟨"m"⟩]) cardServers).Fresh ⟨⟨"archive"⟩, g⟩ :=
    fun g hm hn => card_fresh [⟨"m"⟩] hm hn
  have hfirst := card_copied cardServers ⟨"m"⟩ (by decide) (by decide)
    (hfresh ⟨"y"⟩ (by decide) (by decide))
  have hsecond := card_copied (copiedServers cardServers ⟨"y"⟩) ⟨"n"⟩ (by decide) (by decide)
    (hfresh ⟨"z"⟩ (by decide) (by decide))
  have hreach := ((Relation.ReflTransGen.refl.tail hbegun).tail
    (.serve (Function.update_self ..) hfirst)).tail (.serve (Function.update_self ..) hsecond)
  have hy : (copiedServers (copiedServers cardServers ⟨"y"⟩) ⟨"z"⟩).Holds ⟨"l"⟩
      ⟨⟨"archive"⟩, ⟨"y"⟩⟩ := by
    rw [Servers.Holds]
    decide
  have hz : (copiedServers (copiedServers cardServers ⟨"y"⟩) ⟨"z"⟩).Holds ⟨"l"⟩
      ⟨⟨"archive"⟩, ⟨"z"⟩⟩ := by
    rw [Servers.Holds]
    decide
  exact absurd (hall cardMove _ _ _ hready hreach ⟨"y"⟩ ⟨"z"⟩ hy hz) (by decide)

end Runs

end Move
end IoReplica

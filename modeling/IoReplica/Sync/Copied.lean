import IoReplica.Mutate
import IoReplica.Sync.Assigned
import IoReplica.Sync.Seam
import IoReplica.Sync.Storage

/-! A copied or moved row: the body its create records, against the one its server came to hold. -/
namespace IoReplica

/-- The body each member of the remote holds, collection by collection. -/
abbrev Bodies := ReplicaCollectionId → ReplicaHandle → Option ReplicaHash

namespace Bodies

def put (b : Bodies) (c : ReplicaCollectionId) (h : ReplicaHandle) (body : Option ReplicaHash) :
    Bodies := Function.update b c (Function.update (b c) h body)

theorem put_self (b : Bodies) (c : ReplicaCollectionId) (h : ReplicaHandle)
    (body : Option ReplicaHash) : b.put c h body c h = body := by
  simp [put]

theorem put_of_ne (b : Bodies) {c d : ReplicaCollectionId} {g h : ReplicaHandle}
    (hne : ¬ (d = c ∧ h = g)) (body : Option ReplicaHash) : b.put d h body c g = b c g := by
  by_cases hd : c = d
  · subst hd
    have hg : g ≠ h := fun hgh => hne ⟨rfl, hgh.symm⟩
    rw [put, Function.update_self, Function.update_of_ne hg]
  · rw [put, Function.update_of_ne hd]

/-- Serving one accepted change of collection `c`: an add with an origin copies the body held there,
one without uploads its own, and a member not reported lands where nothing was held. -/
inductive Serves (c : ReplicaCollectionId) (b : Bodies) :
    ReplicaChangeKind → ReplicaPushResult → Bodies → Prop
  | copied {h : ReplicaHandle} {link : Option ReplicaLinkId} {flags : ReplicaFlags}
      {origin : ReplicaOrigin} {object : Option ReplicaHash} {r : ReplicaPushResult}
      {a : ReplicaHandle} {body : ReplicaHash} (assigned : r.assigned = some a)
      (held : b origin.collection origin.handle = some body) :
      Serves c b (.add h link flags (some origin) object) r (b.put c a (some body))
  | appended {h : ReplicaHandle} {link : Option ReplicaLinkId} {flags : ReplicaFlags}
      {object : ReplicaHash} {r : ReplicaPushResult} {a : ReplicaHandle}
      (assigned : r.assigned = some a) :
      Serves c b (.add h link flags none (some object)) r (b.put c a (some object))
  | unreported {h g : ReplicaHandle} {link : Option ReplicaLinkId} {flags : ReplicaFlags}
      {origin : Option ReplicaOrigin} {object : Option ReplicaHash} {r : ReplicaPushResult}
      (assigned : r.assigned = none) (free : b c g = none) (body : Option ReplicaHash) :
      Serves c b (.add h link flags origin object) r (b.put c g body)
  | removed {h : ReplicaHandle} {dest : Option ReplicaCollectionId} {link : Option ReplicaLinkId}
      {ifMatch : Option String} {r : ReplicaPushResult} :
      Serves c b (.remove h dest link ifMatch) r (b.put c h none)
  | relocated {h g : ReplicaHandle} {dest : ReplicaCollectionId} {link : Option ReplicaLinkId}
      {ifMatch : Option String} {r : ReplicaPushResult} (free : b dest g = none) :
      Serves c b (.remove h (some dest) link ifMatch) r ((b.put c h none).put dest g (b c h))
  | flagged {h : ReplicaHandle} {flags : ReplicaFlags} {r : ReplicaPushResult} :
      Serves c b (.setFlags h flags) r b
  | updated {h : ReplicaHandle} {object : ReplicaHash} {ifMatch : Option String}
      {r : ReplicaPushResult} : Serves c b (.update h object ifMatch) r (b.put c h (some object))

/-- Serving accepted changes in order. -/
inductive ServesAll (c : ReplicaCollectionId) :
    Bodies → List (ReplicaChangeKind × ReplicaPushResult) → Bodies → Prop
  | nil (b : Bodies) : ServesAll c b [] b
  | cons {b b' b'' : Bodies} {kind : ReplicaChangeKind} {r : ReplicaPushResult}
      {rest : List (ReplicaChangeKind × ReplicaPushResult)} (first : Serves c b kind r b')
      (then' : ServesAll c b' rest b'') : ServesAll c b ((kind, r) :: rest) b''

/-- A change of another member, assigned another handle, leaves a member its body. -/
theorem serves_keeps {c : ReplicaCollectionId} {b b' : Bodies} {kind : ReplicaChangeKind}
    {r : ReplicaPushResult} (h : Serves c b kind r b') {a : ReplicaHandle} {body : ReplicaHash}
    (ha : b c a = some body) (hname : kind.handle ≠ a) (hassigned : r.assigned ≠ some a) :
    b' c a = some body := by
  have hput : ∀ g body', g ≠ a → b.put c g body' c a = some body := by
    intro g body' hg
    rw [b.put_of_ne (fun hc => hg hc.2), ha]
  cases h with
  | copied assigned held => exact hput _ _ (fun hc => hassigned (hc ▸ assigned))
  | appended assigned => exact hput _ _ (fun hc => hassigned (hc ▸ assigned))
  | @unreported _ g _ _ _ _ _ _ free body' =>
    refine hput g body' (fun hc => ?_)
    rw [hc, ha] at free
    cases free
  | removed => exact hput _ _ hname
  | @relocated h g dest link ifMatch _ free =>
    have hkept := hput h none hname
    rw [put_of_ne _ _ _, hkept]
    rintro ⟨rfl, rfl⟩
    rw [ha] at free
    cases free
  | flagged => exact ha
  | updated => exact hput _ _ hname

theorem servesAll_keeps {c : ReplicaCollectionId} {b b' : Bodies}
    {ks : List (ReplicaChangeKind × ReplicaPushResult)} (h : ServesAll c b ks b')
    {a : ReplicaHandle} {body : ReplicaHash} (ha : b c a = some body)
    (hks : ∀ k ∈ ks, k.1.handle ≠ a ∧ k.2.assigned ≠ some a) : b' c a = some body := by
  induction h with
  | nil => exact ha
  | cons first _ ih =>
    obtain ⟨hname, hassigned⟩ := hks _ List.mem_cons_self
    exact ih (serves_keeps first ha hname hassigned)
      (fun k hk => hks k (List.mem_cons_of_mem _ hk))

end Bodies

/-- A copy, or a move of a linked row, about to be staged under a free placeholder of its target. -/
structure Copies (s : Storage) (p : ReplicaPlacement) (target : ReplicaCollectionId)
    (placeholder : ReplicaHandle) (mutation : ReplicaMutation) : Prop where
  stored : (s.rows p.collection).rows[p.handle]? = some p
  stages : mutation = .copy p.handle target placeholder ∨
    (mutation = .move p.handle target placeholder ∧ p.linkId.isSome)
  free : (s.rows target).rows[placeholder]? = none

namespace Copies
variable {s : Storage} {p : ReplicaPlacement} {target : ReplicaCollectionId}
  {placeholder : ReplicaHandle} {mutation : ReplicaMutation}

/-- The storage the mutation leaves. -/
def staged (s : Storage) (p : ReplicaPlacement) (mutation : ReplicaMutation) : Storage :=
  s.apply ((ReplicaMutate.new p.collection mutation).writes p)

/-- The create a copy or a move stages stands in its target. -/
theorem staged_create (h : Copies s p target placeholder mutation) :
    ((staged s p mutation).rows target).rows[placeholder]? =
      some (ReplicaMutate.stagedCopy p target placeholder) := by
  have hcopy : ReplicaWriteOp.collection
      (.upsertPlacement (ReplicaMutate.stagedCopy p target placeholder)) = some target := rfl
  have haway : ReplicaWriteOp.collection (.upsertPlacement (ReplicaMutate.movedAway p target)) =
      some p.collection := rfl
  have hput : ((s.write (.upsertPlacement (ReplicaMutate.stagedCopy p target placeholder))).rows
      target).rows[placeholder]? = some (ReplicaMutate.stagedCopy p target placeholder) := by
    rw [s.write_rows hcopy, Function.update_self, CollectionRows.get_write, rowAfter_upsert]
    exact if_pos rfl
  rcases h.stages with rfl | ⟨rfl, hlink⟩
  · exact hput
  · have hops : (ReplicaMutate.new p.collection (.move p.handle target placeholder)).writes p =
        [.upsertPlacement (ReplicaMutate.stagedCopy p target placeholder),
          .upsertPlacement (ReplicaMutate.movedAway p target)] := by
      simp [ReplicaMutate.writes, ReplicaMutate.new, hlink]
    rw [staged, hops, Storage.apply, List.foldl_cons, List.foldl_cons, List.foldl_nil,
      Storage.write_rows _ haway]
    by_cases hc : target = p.collection
    · have hne : p.handle ≠ placeholder := by
        intro hph
        have hstored := h.stored
        rw [hph, ← hc, h.free] at hstored
        cases hstored
      rw [← hc, Function.update_self, CollectionRows.get_write, rowAfter_upsert, rowAfter_nil, hput]
      exact if_neg hne
    · rw [Function.update_of_ne hc]
      exact hput

end Copies

/-- What the merge makes of the pending create: its add, where the source may add. -/
theorem effect_stagedCopy (p : ReplicaPlacement) (target : ReplicaCollectionId)
    (placeholder : ReplicaHandle) (opts : ReplicaSyncOptions) :
    let copy := ReplicaMutate.stagedCopy p target placeholder
    let e := effect target opts ⟨placeholder, some copy, none⟩
    e.1.writes = [] ∧
      e.1.pendingAt placeholder =
        (if opts.mayAdd then { Pending.none with created := some copy } else .none) ∧
      e.2 = if opts.mayAdd then some (.add placeholder p.linkId p.flags
        (some ⟨p.collection, p.handle⟩) p.object) else none := by
  have hmerge := ReplicaSync.merge_live (ReplicaSync.new target opts) placeholder
    (p := ReplicaMutate.stagedCopy p target placeholder) (by simp [ReplicaMutate.stagedCopy]) none
  have hbase : (ReplicaMutate.stagedCopy p target placeholder).base.isSome = false := rfl
  have hstatus : (ReplicaMutate.stagedCopy p target placeholder).status = .created := rfl
  dsimp only at hmerge ⊢
  rw [hbase, if_neg Bool.false_ne_true] at hmerge
  rw [effect, hmerge]
  cases hmay : opts.mayAdd with
  | false =>
    have hpend := ReplicaSync.new_pendingAt target opts placeholder
    have hmay' : (ReplicaSync.new target opts).opts.mayAdd = false := hmay
    simp only [ReplicaSync.mergeCreate, hmay', Bool.false_and, Bool.false_eq_true, if_false, hpend]
    exact ⟨rfl, trivial, trivial⟩
  | true =>
    have hmay' : (ReplicaSync.new target opts).opts.mayAdd = true := hmay
    simp only [ReplicaSync.mergeCreate, hmay', hstatus, decide_true, Bool.and_self, if_true]
    refine ⟨rfl, ?_, rfl⟩
    simp [ReplicaSync.pushAdd, ReplicaSync.stashCreate, ReplicaSync.pendingAt, ReplicaSync.new,
      ReplicaSync.awaitsDrop, Pending.none]

/-- A whole sync over stored rows. -/
structure SyncStep.Over (step : SyncStep) (c : ReplicaCollectionId) (s : CollectionRows) : Prop where
  loads : step.loaded.placements = s.placements
  syncs : Syncs c step.opts step.loaded step.snapshot step.transcript

namespace Copies
variable {s : Storage} {p : ReplicaPlacement} {target : ReplicaCollectionId}
  {placeholder : ReplicaHandle} {mutation : ReplicaMutation}

/-- A target sync that meets the pending create: its remote lists no member under the placeholder,
and writes none there. -/
structure Meets (s : CollectionRows) (placeholder : ReplicaHandle) (step : SyncStep) : Prop where
  unlisted : step.snapshot.reported placeholder = none
  undisturbed : Undisturbed s placeholder step.transcript

/-- Whole syncs of any collections in any order, none of which has the create accepted. -/
inductive Awaits (target : ReplicaCollectionId) (placeholder : ReplicaHandle) :
    Storage → List (ReplicaCollectionId × SyncStep) → Storage → Prop
  | nil (s : Storage) : Awaits target placeholder s [] s
  | cons {s s' : Storage} {c : ReplicaCollectionId} {step : SyncStep}
      {rest : List (ReplicaCollectionId × SyncStep)} (runs : step.Over c (s.rows c))
      (meets : c = target → Meets (s.rows c) placeholder step ∧
        ∀ k ∈ step.transcript.changes, k.handle = placeholder →
          Outbox.confirmation placeholder step.transcript.pushes = none)
      (then' : Awaits target placeholder (s.apply step.transcript.writes) rest s') :
      Awaits target placeholder s ((c, step) :: rest) s'

/-- A target sync finds the pending create alone under its placeholder. -/
theorem candidate {r : CollectionRows} {step : SyncStep} (hm : Meets r placeholder step)
    (hrow : r.rows[placeholder]? = some (ReplicaMutate.stagedCopy p target placeholder)) :
    Merge.candidateAt r.rows step.snapshot placeholder =
      some ⟨placeholder, some (ReplicaMutate.stagedCopy p target placeholder), none⟩ :=
  Merge.candidateAt_create hrow rfl rfl hm.unlisted

/-- The pending create waits for the sync that has it accepted. -/
theorem awaited {s' : Storage} {steps : List (ReplicaCollectionId × SyncStep)}
    (h : Awaits target placeholder s steps s')
    (hrow : (s.rows target).rows[placeholder]? =
      some (ReplicaMutate.stagedCopy p target placeholder)) :
    (s'.rows target).rows[placeholder]? = some (ReplicaMutate.stagedCopy p target placeholder) := by
  induction h with
  | nil => exact hrow
  | @cons s s' c step rest runs meets _ ih =>
    apply ih
    rw [s.apply_sync runs.syncs runs.loads]
    by_cases hc : target = c
    · subst hc
      obtain ⟨hmeets, hunconfirmed⟩ := meets rfl
      obtain ⟨hafter, hchanges⟩ := runs.syncs.runAt (c := ⟨placeholder, _, none⟩) runs.loads
        (candidate hmeets hrow) hmeets.undisturbed
      obtain ⟨hwrites, hpend, hkind⟩ := effect_stagedCopy p target placeholder step.opts
      dsimp only at hafter hchanges
      rw [Function.update_self, CollectionRows.get_apply, hafter, hwrites, hpend]
      cases hconf : Outbox.confirmation placeholder step.transcript.pushes with
      | none => exact hrow
      | some r =>
        cases hmay : step.opts.mayAdd with
        | false => simpa using hrow
        | true =>
          rw [hkind, hmay] at hchanges
          have hmem : ReplicaChange.new target (.add placeholder p.linkId p.flags
              (some ⟨p.collection, p.handle⟩) p.object) ∈ step.transcript.changes := by
            have hone : ReplicaChange.new target (.add placeholder p.linkId p.flags
                (some ⟨p.collection, p.handle⟩) p.object) ∈
                step.transcript.changes.filter (fun k => k.handle = placeholder) := by
              rw [hchanges]
              exact List.mem_singleton_self _
            exact (List.mem_filter.mp hone).1
          have hnone := hunconfirmed _ hmem rfl
          rw [hconf] at hnone
          cases hnone
    · rw [Function.update_of_ne hc]
      exact hrow

/-- The target sync that has the create accepted under `a`, its remote serving what it accepts in
order: it holds `held` when it comes to the create, and `left` in the end. -/
structure Accepts (s : Storage) (target : ReplicaCollectionId) (placeholder a : ReplicaHandle)
    (step : SyncStep) (held left : Bodies) : Prop where
  runs : step.Over target (s.rows target)
  meets : Meets (s.rows target) placeholder step
  inFlight : step.transcript.InFlight
  fresh : Fresh (s.rows target) step.snapshot placeholder a step.transcript
  served : ∃ first before kind r after created, kind.handle = placeholder ∧ r.assigned = some a ∧
    step.transcript.accepted = before ++ (kind, r) :: after ∧
    Bodies.ServesAll target first before held ∧ Bodies.Serves target held kind r created ∧
    Bodies.ServesAll target created after left

/-- The row under the assigned handle records the body its server holds, and holds that body or an
edit the next sync can push. -/
def Faithful (r : CollectionRows) (target : ReplicaCollectionId) (a : ReplicaHandle) (b : Bodies) :
    Prop :=
  ∃ q, r.rows[a]? = some q ∧ (∀ o, q.baseObject = some o → b target a = some o) ∧
    ∀ o, q.object = some o → b target a = some o ∨ (q.status = .dirty ∧ q.stagedEdit = some o)

/-- The accepted create copies the body its origin's server holds, and the row keeps its own. -/
theorem accepted (hrow : (s.rows target).rows[placeholder]? =
      some (ReplicaMutate.stagedCopy p target placeholder)) {a : ReplicaHandle} {step : SyncStep}
    {held left : Bodies} (h : Accepts s target placeholder a step held left) :
    (∃ revision, ((s.apply step.transcript.writes).rows target).rows[a]? =
      some (ReplicaSync.rekeyedPlacement (ReplicaMutate.stagedCopy p target placeholder) a
        revision)) ∧
    ∃ body, held p.collection p.handle = some body ∧ left target a = some body := by
  obtain ⟨-, before, kind, r, after, created, hname, hassigned, haccepted, -, hserves, hafter⟩ :=
    h.served
  have hat := candidate h.meets hrow
  have hchanges := (h.runs.syncs.runAt (c := ⟨placeholder, _, none⟩) h.runs.loads hat
    h.meets.undisturbed).changes
  obtain ⟨hwrites, hpend, hkind⟩ := effect_stagedCopy p target placeholder step.opts
  have hmem : (kind, r) ∈ step.transcript.accepted := by
    rw [haccepted]
    exact List.mem_append_right _ List.mem_cons_self
  obtain ⟨e, he, k, hk, rfl, hfind⟩ := Transcript.mem_accepted hmem
  have hkmem : k ∈ step.transcript.changes.filter (fun k => k.handle = placeholder) := by
    rw [List.mem_filter]
    exact ⟨List.mem_flatten_of_mem (List.mem_map_of_mem he) hk, decide_eq_true hname⟩
  have hdistinct := h.runs.syncs.changes_nodup
  cases hmay : step.opts.mayAdd with
  | false =>
    dsimp only at hchanges
    rw [hchanges, hkind, hmay] at hkmem
    cases hkmem
  | true =>
    dsimp only at hchanges
    rw [hchanges, hkind, hmay] at hkmem
    have hadd : k.kind = .add placeholder p.linkId p.flags (some ⟨p.collection, p.handle⟩) p.object :=
      congrArg ReplicaChange.kind (List.mem_singleton.mp hkmem)
    rw [hmay] at hpend
    have hconf : Outbox.confirmation placeholder step.transcript.pushes = some r := by
      have hown := Outbox.confirmation_of_accepted h.inFlight hdistinct he hk
      rw [hfind] at hown
      rwa [← hname]
    refine ⟨⟨r.revision, ?_⟩, ?_⟩
    · rw [s.apply_sync h.runs.syncs h.runs.loads, Function.update_self]
      exact h.runs.syncs.assigned (c := ⟨placeholder, _, none⟩) h.runs.loads hat hpend hconf
        hassigned h.fresh h.meets.undisturbed.assigned
    · -- no change accepted after the create names its handle, or is assigned it
      have hrest : ∀ j ∈ after, j.1.handle ≠ a ∧ j.2.assigned ≠ some a := by
        intro j hj
        have hjmem : (j.1, j.2) ∈ step.transcript.accepted := by
          rw [haccepted]
          exact List.mem_append_right _ (List.mem_cons_of_mem _ hj)
        obtain ⟨l, hl, hlk, hlr⟩ := Transcript.mem_changes_of_accepted hjmem
        refine ⟨?_, ?_⟩
        · intro hja
          obtain ⟨box, hwhole⟩ := h.runs.syncs.whole
          obtain ⟨c, hc, hch, -⟩ := hwhole.mem_changes.mp hl
          have hlh : l.handle = a := by rw [← hja, ← hlk]; rfl
          rw [mem_mergedCandidates, h.runs.loads, CollectionRows.collect_placements, hch, hlh,
            h.fresh.unlisted] at hc
          cases hc
        · intro hja
          obtain ⟨e', he', k', hk', hkind', hfind'⟩ := Transcript.mem_accepted hjmem
          have hjp := h.fresh.assigned e' he' j.2 (List.mem_of_find?_eq_some hfind') hja
          have honce := Transcript.accepted_nodup hdistinct
          rw [haccepted, List.map_append, List.map_cons, List.nodup_append] at honce
          refine (List.nodup_cons.mp honce.2.1).1 ?_
          have hjh : j.1.handle = k.kind.handle := by
            rw [← hlk, hname]
            exact hlr.symm.trans hjp
          exact hjh ▸ List.mem_map_of_mem hj
      rw [hadd] at hserves
      cases hserves with
      | @copied _ _ _ _ _ _ b body assigned origin =>
        rw [hassigned, Option.some.injEq] at assigned
        subst assigned
        exact ⟨body, origin, Bodies.servesAll_keeps hafter (Bodies.put_self ..) hrest⟩
      | unreported assigned =>
        rw [hassigned] at assigned
        cases assigned

/-- A copied or moved row records the body its server holds exactly where it held none, or the one
the origin's server held when it served the add. -/
theorem copy_faithful_iff (h : Copies s p target placeholder mutation)
    {steps : List (ReplicaCollectionId × SyncStep)} {s' : Storage}
    (hw : Awaits target placeholder (staged s p mutation) steps s') {a : ReplicaHandle}
    {step : SyncStep} {held left : Bodies} (ha : Accepts s' target placeholder a step held left) :
    Faithful ((s'.apply step.transcript.writes).rows target) target a left ↔
      p.object = none ∨ p.object = held p.collection p.handle := by
  obtain ⟨⟨revision, hq⟩, body, horigin, hleft⟩ := accepted (awaited hw h.staged_create) ha
  rw [horigin]
  constructor
  · rintro ⟨q, hq', hbase, -⟩
    rw [hq, Option.some.injEq] at hq'
    subst hq'
    cases ho : p.object with
    | none => exact Or.inl rfl
    | some o =>
      have hheld := hbase o ho
      exact Or.inr (hheld.symm.trans hleft)
  · intro hp
    have hbody : ∀ o, p.object = some o → left target a = some o := by
      intro o ho
      rw [ho] at hp
      rcases hp with hp | hp
      · cases hp
      · rw [hleft, hp]
    exact ⟨_, hq, hbody, fun o ho => Or.inl (hbody o ho)⟩

section Runs

/-- The card as its server holds it. -/
def cleanCard : ReplicaPlacement :=
  { StagedEdit.card with object := some ⟨"old"⟩, status := .clean }

/-- A card about to be copied into the archive, alone in a storage. -/
def copying (p : ReplicaPlacement) : Storage := Storage.empty.write (.upsertPlacement p)

def copyMutation : ReplicaMutation := .copy ⟨"a"⟩ ⟨"archive"⟩ ⟨"n"⟩

/-- The archive's rows once the copy is staged, and the result its add is answered with. -/
def copySeam (p : ReplicaPlacement) : Seam :=
  ⟨CollectionRows.empty.write (.upsertPlacement (ReplicaMutate.stagedCopy p ⟨"archive"⟩ ⟨"n"⟩)), none,
    ⟨[], [], true, ⟨[]⟩⟩, [[⟨⟨"n"⟩, .accepted, some ⟨"z"⟩, some "1"⟩]]⟩

def copyStep (p : ReplicaPlacement) (t : Transcript) : SyncStep :=
  ⟨.default, ⟨(copySeam p).rows.placements, none⟩, (copySeam p).snapshot, t⟩

/-- What the archive's sync pushes, and the answer it gets. -/
def copyPushes (p : ReplicaPlacement) : List PushExchange :=
  [([.new ⟨"archive"⟩ (.add ⟨"n"⟩ p.linkId p.flags (some ⟨⟨"contacts"⟩, ⟨"a"⟩⟩) p.object)],
    [⟨⟨"n"⟩, .accepted, some ⟨"z"⟩, some "1"⟩])]

/-- The origin's server holds the old body, and the archive's nothing. -/
def oldBodies : Bodies := fun c h => if c = ⟨"contacts"⟩ ∧ h = ⟨"a"⟩ then some ⟨"old"⟩ else none

def copiedBodies : Bodies := oldBodies.put ⟨"archive"⟩ ⟨"z"⟩ (some ⟨"old"⟩)

variable {p : ReplicaPlacement}

theorem copying_rows (hc : p.collection = ⟨"contacts"⟩) :
    (staged (copying p) p copyMutation).rows ⟨"archive"⟩ = (copySeam p).rows := by
  have hrow : ReplicaWriteOp.collection (.upsertPlacement p) = some ⟨"contacts"⟩ := congrArg some hc
  have hcopy : ReplicaWriteOp.collection (.upsertPlacement
      (ReplicaMutate.stagedCopy p ⟨"archive"⟩ ⟨"n"⟩)) = some ⟨"archive"⟩ := rfl
  rw [staged, copying, Storage.apply]
  simp only [ReplicaMutate.writes, ReplicaMutate.new, copyMutation, List.foldl_cons, List.foldl_nil]
  rw [Storage.write_rows _ hcopy, Function.update_self, Storage.write_rows _ hrow,
    Function.update_of_ne (by decide)]
  rfl

theorem card_copies (hc : p.collection = ⟨"contacts"⟩) (hh : p.handle = ⟨"a"⟩) :
    Copies (copying p) p ⟨"archive"⟩ ⟨"n"⟩ copyMutation := by
  have hrow : ReplicaWriteOp.collection (.upsertPlacement p) = some ⟨"contacts"⟩ := congrArg some hc
  refine ⟨?_, Or.inl (by rw [hh]; rfl), ?_⟩
  · rw [hc, copying, Storage.write_rows _ hrow, Function.update_self, CollectionRows.get_write,
      rowAfter_upsert]
    exact if_pos rfl
  · rw [copying, Storage.write_rows _ hrow, Function.update_of_ne (by decide)]
    simp [Storage.empty, CollectionRows.empty]

/-- A run of the archive over the staged copy has the add accepted under `z`. -/
theorem card_accepts (hc : p.collection = ⟨"contacts"⟩)
    (hforks : ¬ Forks ⟨"n"⟩ p.object ⟨"z"⟩) {s' : Seam} {t : Transcript} {fuel : ℕ}
    (h : (copySeam p).sync fuel ⟨"archive"⟩ .default = some (s', t))
    (hpushes : t.pushes = copyPushes p) :
    Accepts (staged (copying p) p copyMutation) ⟨"archive"⟩ ⟨"n"⟩ ⟨"z"⟩ (copyStep p t) oldBodies
      copiedBodies := by
  have hrows := copying_rows hc
  have halone : ∀ g : ReplicaHandle, (copySeam p).rows.rows[g]? = if ⟨"n"⟩ = g then
      some (ReplicaMutate.stagedCopy p ⟨"archive"⟩ ⟨"n"⟩) else none := fun g =>
    CollectionRows.get_single _ g
  have hpush : ∀ e ∈ t.pushes, e ∈ copyPushes p := fun e he => hpushes ▸ he
  have hresult : ∀ e ∈ t.pushes, ∀ r ∈ e.2, r.handle = ⟨"n"⟩ := by
    intro e he r hr
    cases List.mem_singleton.mp (hpush e he)
    cases List.mem_singleton.mp hr
    rfl
  refine ⟨⟨congrArg CollectionRows.placements hrows.symm, (Seam.sync_syncs h).1⟩, ⟨rfl, ?_⟩, ?_,
    ⟨by decide, ?_, ?_, fun e he r hr _ => hresult e he r hr⟩, ?_⟩
  · rw [hrows]
    exact Seam.single_undisturbed (p := ReplicaMutate.stagedCopy p ⟨"archive"⟩ ⟨"n"⟩)
      (fun e he r hr hne => absurd (hresult e he r hr) hne)
  · intro e he r hr
    cases List.mem_singleton.mp (hpush e he)
    cases List.mem_singleton.mp hr
    exact List.mem_singleton_self _
  · rw [hrows, Merge.candidateAt, halone]
    rfl
  · intro g q hq
    rw [hrows, halone] at hq
    split at hq
    · rename_i hg
      cases hq
      cases hg
      exact hforks
    · cases hq
  · refine ⟨oldBodies, [], .add ⟨"n"⟩ p.linkId p.flags (some ⟨⟨"contacts"⟩, ⟨"a"⟩⟩) p.object,
      ⟨⟨"n"⟩, .accepted, some ⟨"z"⟩, some "1"⟩, [], copiedBodies, rfl, rfl, ?_, .nil _,
      .copied rfl rfl, .nil _⟩
    rw [Transcript.accepted, copyStep, hpushes]
    rfl

theorem copySeam_run (hrun : ((copySeam p).sync 9 ⟨"archive"⟩ .default).map (fun o => o.2.pushes) =
      some (copyPushes p)) : ∃ s' t, (copySeam p).sync 9 ⟨"archive"⟩ .default = some (s', t) ∧
        t.pushes = copyPushes p := by
  obtain ⟨⟨s', t⟩, hd, heq⟩ := Option.map_eq_some_iff.mp hrun
  exact ⟨s', t, hd, heq⟩

/-- An edited card copied, its copy synced before its edit: the copy records the new body, its
server copied the old one. -/
theorem edited_copy_unfaithful : ∃ t,
    Copies (copying StagedEdit.card) StagedEdit.card ⟨"archive"⟩ ⟨"n"⟩ copyMutation ∧
    Accepts (staged (copying StagedEdit.card) StagedEdit.card copyMutation) ⟨"archive"⟩ ⟨"n"⟩ ⟨"z"⟩
      (copyStep StagedEdit.card t) oldBodies copiedBodies ∧
    ¬ Faithful (((staged (copying StagedEdit.card) StagedEdit.card copyMutation).apply t.writes).rows
      ⟨"archive"⟩) ⟨"archive"⟩ ⟨"z"⟩ copiedBodies := by
  obtain ⟨s', t, hd, hpushes⟩ := copySeam_run (p := StagedEdit.card) (by decide +kernel)
  have hcopies := card_copies (p := StagedEdit.card) rfl rfl
  have haccepts := card_accepts (p := StagedEdit.card) rfl
    (by rintro ⟨o, ho, hz⟩; cases ho; exact absurd hz (by decide)) hd hpushes
  refine ⟨t, hcopies, haccepts, ?_⟩
  rintro ⟨q, hq, hbase, -⟩
  obtain ⟨⟨revision, hrow⟩, -⟩ := accepted hcopies.staged_create haccepts
  rw [show (copyStep StagedEdit.card t).transcript = t from rfl, hq, Option.some.injEq] at hrow
  have hheld := hbase ⟨"new"⟩ (by rw [hrow]; rfl)
  exact absurd hheld (by decide)

/-- The same card unedited: its copy records what its server copied. -/
theorem clean_copy_faithful : ∃ t,
    Copies (copying cleanCard) cleanCard ⟨"archive"⟩ ⟨"n"⟩ copyMutation ∧
    Syncs ⟨"archive"⟩ .default ⟨(copySeam cleanCard).rows.placements, none⟩
      (copySeam cleanCard).snapshot t ∧
    Accepts (staged (copying cleanCard) cleanCard copyMutation) ⟨"archive"⟩ ⟨"n"⟩ ⟨"z"⟩
      (copyStep cleanCard t) oldBodies copiedBodies ∧
    Faithful (((staged (copying cleanCard) cleanCard copyMutation).apply t.writes).rows ⟨"archive"⟩)
      ⟨"archive"⟩ ⟨"z"⟩ copiedBodies := by
  obtain ⟨s', t, hd, hpushes⟩ := copySeam_run (p := cleanCard) (by decide +kernel)
  have hcopies := card_copies (p := cleanCard) rfl rfl
  have haccepts := card_accepts (p := cleanCard) rfl
    (by rintro ⟨o, ho, hz⟩; cases ho; exact absurd hz (by decide)) hd hpushes
  exact ⟨t, hcopies, (Seam.sync_syncs hd).1, haccepts,
    (copy_faithful_iff hcopies (.nil _) haccepts).mpr (Or.inr rfl)⟩

end Runs

end Copies
end IoReplica

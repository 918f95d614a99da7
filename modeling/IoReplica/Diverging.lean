import IoReplica.Rekey.Sources
import IoReplica.Sync.Destination
import IoReplica.Sync.Resolution
import IoReplica.Upgrade.Reply

/-! The conflict pair: the revision a divergence was marked at, and the body recorded beside it. -/
namespace IoReplica
/-- A rekey writes to its own collection alone. -/
theorem Rekeys.within {collection : ReplicaCollectionId} {loaded : ReplicaLoaded}
    {snapshot : ReplicaRemoteSnapshot} {t : Transcript} {s : CollectionRows}
    (h : Rekeys collection loaded snapshot t) (hl : loaded.placements = s.placements)
    (hs : ∀ (g : ReplicaHandle) (p : ReplicaPlacement), s.rows[g]? = some p →
      p.collection = collection) : ∀ op ∈ t.writes, op.collection = some collection := by
  have hrow : ∀ q, .upsertPlacement q ∈ t.writes → q.collection = collection := by
    intro q hq
    have hsource := h.sources hq
    rw [hl] at hsource
    cases hsource with
    | carried => rfl
    | fresh => rfl
    | @resurrected p hp => exact hs p.handle p ((CollectionRows.mem_placements s p).mp hp)
  obtain ⟨rows, survivors, drops, -, hbatch⟩ :=
    ReplicaRekey.rebuild_batch collection snapshot (resolveLinks t.fetched) hl
  intro op hop
  have hop' := hop
  rw [h.writes, hbatch, ReplicaRekey.batchOps] at hop'
  simp only [List.mem_append, List.mem_map, List.mem_singleton] at hop'
  rcases hop' with ((⟨q, -, rfl⟩ | ⟨q, -, rfl⟩) | ⟨q, -, rfl⟩) | rfl
  · exact congrArg some (hrow q hop)
  · exact congrArg some (hrow q hop)
  · rfl
  · rfl

namespace Diverging

open ReplicaUpgrade

/-- The revision the remote holds each member at. -/
abbrev Remote := ReplicaCollectionId → ReplicaHandle → Option String

/-- The body each revision of a member names, by the collection and the handle it stands under. -/
abbrev Bodies := ReplicaCollectionId → ReplicaHandle → String → ReplicaHash

/-- A revision and a body beside it name one remote state: the body is the one of the revision. -/
def Paired (bodyOf : String → ReplicaHash) (revision : Option String)
    (object : Option ReplicaHash) : Prop :=
  ∀ o, object = some o → ∃ r, revision = some r ∧ bodyOf r = o

theorem Paired.none (bodyOf : String → ReplicaHash) (revision : Option String) :
    Paired bodyOf revision none := fun _ ho => (by cases ho)

/-- The row's conflict pair names one state of its member. -/
def Named (bodies : Bodies) (p : ReplicaPlacement) : Prop :=
  Paired (bodies p.collection p.handle) p.conflictRevision p.conflictObject

/-- A row as runs leave it: its pair names one state, and a pending create has none. -/
structure Sound (bodies : Bodies) (p : ReplicaPlacement) : Prop where
  named : Named bodies p
  created : p.status = .created → p.conflictObject = none

theorem Sound.unpaired {bodies : Bodies} {p : ReplicaPlacement} (hp : p.conflictObject = none) :
    Sound bodies p := by
  refine ⟨?_, fun _ => hp⟩
  rw [Named, hp]
  exact .none _ _

/-- A row of the same member under the same pair. -/
theorem Sound.same {bodies : Bodies} {p q : ReplicaPlacement} (hp : Sound bodies p)
    (hc : q.collection = p.collection) (hh : q.handle = p.handle)
    (hr : q.conflictRevision = p.conflictRevision) (ho : q.conflictObject = p.conflictObject)
    (hs : q.status = .created → p.status = .created) : Sound bodies q := by
  refine ⟨?_, fun h => ho.trans (hp.created (hs h))⟩
  rw [Named, hc, hh, hr, ho]
  exact hp.named

/-- The snapshot lists the remote's members at the revisions it holds them at. -/
def Listed (remote : ReplicaHandle → Option String) (snapshot : ReplicaRemoteSnapshot) : Prop :=
  ∀ item ∈ snapshot.items, item.revision = remote item.handle

/-- A body fetched of a conflicted row is served at the revision the remote holds the member at, and
is the body of that revision. -/
def Served (bodies : ReplicaHandle → String → ReplicaHash)
    (remote : ReplicaHandle → Option String) (t : Transcript) : Prop :=
  ∀ item ∈ t.fetched, ∀ body, item.body = some body → ∀ p ∈ t.loaded, p.handle = item.handle →
    p.status = .conflict → ∃ r, remote p.handle = some r ∧ item.revision = some r ∧
      (storedBody body).1.hash = bodies p.handle r

/-- A body is fetched of a conflicted row only while the remote holds its member at the revision the
row records, or at one of the same body. -/
def Timely (bodies : ReplicaHandle → String → ReplicaHash)
    (remote : ReplicaHandle → Option String) (t : Transcript) : Prop :=
  ∀ item ∈ t.fetched, item.body.isSome → ∀ p ∈ t.loaded, p.handle = item.handle →
    p.status = .conflict → ∃ marked held, p.conflictRevision = some marked ∧
      remote p.handle = some held ∧ bodies p.handle held = bodies p.handle marked

/-- A rekey carries the conflict pair of the old row `p` to a new member: the member is listed at
the revision the row is marked at. -/
structure CarriesPair (s : CollectionRows) (links : HandleMap Resolved)
    (items : List ReplicaRemoteItem) (item : ReplicaRemoteItem) (p : ReplicaPlacement)
    (revision : String) : Prop where
  carried : ReplicaRekey.CarriedTo s links items item p
  conflict : p.status = .conflict
  body : p.conflictObject.isSome
  marked : p.conflictRevision = some revision
  observed : item.revision = some revision

/-- A turn taken over the storage. -/
inductive Turn
  | sync (collection : ReplicaCollectionId) (step : SyncStep)
  | upgrade (collection : ReplicaCollectionId) (step : UpgradeStep)
  | rekey (collection : ReplicaCollectionId) (loaded : ReplicaLoaded)
      (snapshot : ReplicaRemoteSnapshot) (transcript : Transcript)
  | mutate (collection : ReplicaCollectionId) (mutation : ReplicaMutation) (loaded : ReplicaLoaded)
      (transcript : Transcript)

namespace Turn

def transcript : Turn → Transcript
  | .sync _ step => step.transcript
  | .upgrade _ step => step.transcript
  | .rekey _ _ _ transcript => transcript
  | .mutate _ _ _ transcript => transcript

/-- A full upgrade fetches no body of a conflicted row once the remote has moved past it, and a rekey
carries a conflict pair only to a member whose revision of that name has the same body. -/
def Meets (s : Storage) (bodies next : Bodies) (remote : Remote) : Turn → Prop
  | .upgrade c u => u.tier = .full → Timely (bodies c) (remote c) u.transcript
  | .rekey c _ snapshot t => ∀ item p revision,
      CarriesPair (s.rows c) (resolveLinks t.fetched) snapshot.items item p revision →
        next c item.handle revision = bodies c p.handle revision
  | _ => True

end Turn

/-- Syncs, upgrades, rekeys and mutations of any collections in any order, each over the rows the
last one left. The server edits the remote as it likes from one turn to the next. A member's
revisions keep naming the bodies they named, but for the handles a rekey finds renumbered. -/
structure Run (n : ℕ) (storage : ℕ → Storage) (bodies : ℕ → Bodies) (remote : ℕ → Remote)
    (turns : ℕ → Turn) : Prop where
  syncs : ∀ i < n, ∀ c step, turns i = .sync c step →
    Syncs c step.opts step.loaded step.snapshot step.transcript ∧
      step.loaded.placements = ((storage i).rows c).placements
  upgrades : ∀ i < n, ∀ c u, turns i = .upgrade c u →
    Upgrades c u.handles u.tier u.loaded u.transcript ∧
      Serves ((storage i).rows c) u.transcript ∧ Served (bodies i c) (remote i c) u.transcript
  rekeys : ∀ i < n, ∀ c loaded snapshot t, turns i = .rekey c loaded snapshot t →
    Rekeys c loaded snapshot t ∧ loaded.placements = ((storage i).rows c).placements
  mutates : ∀ i < n, ∀ c mutation loaded t, turns i = .mutate c mutation loaded t →
    Mutates c mutation loaded t ∧ Serves ((storage i).rows c) t
  next : ∀ i < n, storage (i + 1) = (storage i).apply (turns i).transcript.writes
  kept : ∀ i < n, ∀ c, (∀ loaded snapshot t, turns i ≠ .rekey c loaded snapshot t) →
    bodies (i + 1) c = bodies i c

/-- Every conflict pair names one remote state: a stored row's, and the base an edit makes of it. -/
structure NamesOneState (n : ℕ) (storage : ℕ → Storage) (bodies : ℕ → Bodies)
    (turns : ℕ → Turn) : Prop where
  stored : ∀ i ≤ n, ∀ (c : ReplicaCollectionId) (h : ReplicaHandle) (p : ReplicaPlacement),
    ((storage i).rows c).rows[h]? = some p → Named (bodies i) p
  resolved : ∀ i < n, ∀ c h object body metadata sortKey loaded t,
    turns i = .mutate c (.edit h object body metadata sortKey) loaded t →
    ∀ p : ReplicaPlacement, ((storage i).rows c).rows[h]? = some p → p.status = .conflict →
    ∀ q, .upsertPlacement q ∈ t.writes → ∃ base, q.base = some base ∧
      base.revision = p.conflictRevision ∧ base.object = p.conflictObject ∧
      Paired (bodies i c h) base.revision base.object

variable {bodies : Bodies}

theorem inherits_sound (c : ReplicaCollectionId) : Inherits c (Sound bodies) where
  pulled _ := .unpaired rfl
  refreshed _ _ hp := hp.same rfl rfl rfl rfl id
  conflicted _ _ _ := .unpaired rfl
  reopened _ _ _ := .unpaired rfl
  forked _ _ _ _ _ _ _ := .unpaired rfl
  flagged _ _ hp := hp.same rfl rfl rfl rfl id
  rebased p _ hp := by
    refine hp.same rfl rfl rfl rfl (fun hs => ?_)
    rcases ReplicaSync.settledStatus_cases p with h | h <;> exact absurd (h.symm.trans hs) (by decide)
  resurrected _ _ _ := .unpaired rfl
  contentRebased p _ hp := by
    refine hp.same rfl rfl rfl rfl (fun hs => ?_)
    simp only [ReplicaSync.contentRebased] at hs
    split_ifs at hs
  rekeyed _ _ _ hp hs := .unpaired (hp.created hs)

section Upgrades

variable {collection : ReplicaCollectionId} {handles : List ReplicaHandle} {tier : ReplicaTier}
  {loaded : ReplicaLoaded} {t : Transcript} {s : CollectionRows}

/-- A row an upgrade writes over a stored one: linked from the store, or written from a fetched
item. -/
inductive Raised (tier : ReplicaTier) (t : Transcript) (p : ReplicaPlacement) :
    ReplicaPlacement → Prop
  | linked {hash : ReplicaHash} (known : knownBody t.known p = some hash) :
      Raised tier t p (linked p hash)
  | fetched {item : ReplicaFetchedItem} (hi : item ∈ t.fetched) (held : p ∈ t.loaded)
      (names : p.handle = item.handle) {q : ReplicaPlacement}
      (written : WrittenFrom tier p item q) : Raised tier t p q

theorem WrittenFrom.collection_eq {p q : ReplicaPlacement} {item : ReplicaFetchedItem}
    (h : WrittenFrom tier p item q) : q.collection = p.collection := by
  cases h with
  | conflicted => rfl
  | answered plain claimed =>
    simp only [answer]
    rw [identify_eq]
    split <;> rfl

theorem Raised.collection_eq {p q : ReplicaPlacement} (h : Raised tier t p q) :
    q.collection = p.collection := by
  cases h with
  | linked => rfl
  | fetched hi held names written => exact WrittenFrom.collection_eq written

/-- An upgrade writes objects, and rows raised from stored ones. -/
theorem upgrade_sources (h : Upgrades collection handles tier loaded t) (hs : Serves s t)
    {op : ReplicaWriteOp} (hop : op ∈ t.writes) :
    op.collection = none ∨ ∃ q p, op = .upsertPlacement q ∧ s.rows[q.handle]? = some p ∧
      Raised tier t p q := by
  rcases h.sources hs hop with ⟨p, hp, hash, hhit, rfl⟩ | ⟨item, hi, p, hp, hh, -, hrow⟩
  · exact Or.inr ⟨_, p, rfl, h.first_served hs p hp, .linked (of_hit hhit).2⟩
  · cases hrow with
    | object => exact Or.inl rfl
    | row q written =>
      exact Or.inr ⟨q, p, rfl, by rw [written.handle, hs p hp], .fetched hi hp hh written⟩

theorem upsert_sources (h : Upgrades collection handles tier loaded t) (hs : Serves s t)
    {q : ReplicaPlacement} (hq : .upsertPlacement q ∈ t.writes) :
    ∃ p, s.rows[q.handle]? = some p ∧ Raised tier t p q := by
  rcases upgrade_sources h hs hq with hnone | ⟨q, p, heq, hp, hraised⟩
  · cases hnone
  · cases heq
    exact ⟨p, hp, hraised⟩

/-- The row a batch leaves under a handle it writes is one it writes. -/
theorem apply_written (s : CollectionRows) {ops : List ReplicaWriteOp} {q r : ReplicaPlacement}
    (hq : .upsertPlacement q ∈ ops) (hr : (s.apply ops).rows[q.handle]? = some r) :
    .upsertPlacement r ∈ ops := by
  obtain ⟨a, b, rfl⟩ := List.append_of_mem hq
  rw [CollectionRows.get_apply, rowAfter_append, rowAfter_upsert, if_pos rfl] at hr
  rcases rowAfter_mem hr with hsame | hlater
  · cases hsame
    exact hq
  · exact List.mem_append_right _ (List.mem_cons_of_mem _ hlater)

/-- A body fetched of a conflicted row is left beside the revision the row records. -/
theorem fetched_beside (h : Upgrades collection handles .full loaded t) (hs : Serves s t)
    {item : ReplicaFetchedItem} (hi : item ∈ t.fetched) (hb : item.body.isSome)
    {p : ReplicaPlacement} (hp : p ∈ t.loaded) (hh : p.handle = item.handle)
    (hc : p.status = .conflict) :
    ∃ item' ∈ t.fetched, ∃ body, p.handle = item'.handle ∧ item'.body = some body ∧
      (s.apply t.writes).rows[p.handle]? =
        some { p with conflictObject := some (storedBody body).1.hash } := by
  have hstored := hs p hp
  have hconflict : isConflicted p = true := decide_eq_true hc
  obtain ⟨body, hbody⟩ := Option.isSome_iff_exists.mp hb
  obtain ⟨q, hqw, hfrom, -⟩ := h.answered hs hi hp hh (answers_of_body hbody)
  -- a second item may name the row too: the row left is written from one of them
  obtain ⟨r, hr, -⟩ := h.upgraded hs hstored
  have hrw : .upsertPlacement r ∈ t.writes := apply_written s hqw (by rw [hfrom.handle, hr])
  have hrh : r.handle = p.handle := (s.apply t.writes).keyed _ _ hr
  obtain ⟨p', hp', hsource⟩ := upsert_sources h hs hrw
  rw [hrh, hstored, Option.some.injEq] at hp'
  subst hp'
  cases hsource with
  | linked known =>
    rw [knownBody_conflicted _ hconflict] at known
    cases known
  | fetched hi' held hh' hwritten =>
    cases hwritten with
    | conflicted full conflict body hbody => exact ⟨_, hi', body, hh', hbody, hr⟩
    | answered plain => exact absurd ⟨rfl, hconflict⟩ plain

/-- An answer leaves the conflict pair as it is. -/
theorem answer_conflict (tier : ReplicaTier) (claimed : LinkMap ReplicaHandle)
    (p : ReplicaPlacement) (item : ReplicaFetchedItem) :
    (answer tier claimed p item).conflictRevision = p.conflictRevision ∧
      (answer tier claimed p item).conflictObject = p.conflictObject := by
  simp only [answer]
  rw [identify_eq]
  split <;> exact ⟨rfl, rfl⟩

end Upgrades

section Turns

/-- What an upgrade writes over sound rows is sound, as long as it is timely. -/
theorem upgrade_sound {c : ReplicaCollectionId} {u : UpgradeStep} {s : CollectionRows}
    {remote : ReplicaHandle → Option String}
    (h : Upgrades c u.handles u.tier u.loaded u.transcript) (hserves : Serves s u.transcript)
    (hserved : Served (bodies c) remote u.transcript)
    (htimely : u.tier = .full → Timely (bodies c) remote u.transcript)
    (hs : ∀ (g : ReplicaHandle) (p : ReplicaPlacement), s.rows[g]? = some p →
      p.collection = c ∧ Sound bodies p)
    {q : ReplicaPlacement} (hq : .upsertPlacement q ∈ u.transcript.writes) : Sound bodies q := by
  obtain ⟨p, hp, hsource⟩ := upsert_sources h hserves hq
  obtain ⟨hc, hold⟩ := hs _ p hp
  cases hsource with
  | linked => exact hold.same rfl rfl rfl rfl id
  | @fetched item hitem hload hh _ hwritten =>
    have hcollection := WrittenFrom.collection_eq hwritten
    cases hwritten with
    | conflicted full conflict body hb =>
      have hconflict : p.status = .conflict := of_decide_eq_true conflict
      obtain ⟨marked, held, hmarked, hheld, hsame⟩ :=
        htimely full item hitem (by rw [hb]; rfl) p hload hh hconflict
      obtain ⟨r, hr, -, hbody⟩ := hserved item hitem body hb p hload hh hconflict
      rw [hheld, Option.some.injEq] at hr
      subst hr
      refine ⟨?_, fun hcreated => absurd (hconflict.symm.trans hcreated) (by decide)⟩
      rintro o ⟨⟩
      exact ⟨marked, hmarked, by rw [hbody, hsame, hc]⟩
    | answered plain claimed =>
      obtain ⟨hrevision, hobject⟩ := answer_conflict u.tier claimed p item
      have hleaves := answer_leaves u.tier claimed p item
      exact hold.same hcollection hleaves.handle hrevision hobject (fun hs => hleaves.status ▸ hs)

/-- What a mutation stages of sound rows is sound. -/
theorem mutate_sound {c : ReplicaCollectionId} {mutation : ReplicaMutation} {loaded : ReplicaLoaded}
    {t : Transcript} {s : CollectionRows} (h : Mutates c mutation loaded t) (hserves : Serves s t)
    (hs : ∀ (g : ReplicaHandle) (p : ReplicaPlacement), s.rows[g]? = some p → Sound bodies p)
    {q : ReplicaPlacement} (hq : .upsertPlacement q ∈ t.writes) : Sound bodies q := by
  obtain ⟨hstages, hloaded⟩ := h.stages
  generalize t.writes = ops at hstages hq
  cases hstages with
  | add handle linkId flags object body metadata sortKey apart =>
    simp only [List.mem_cons, reduceCtorEq, false_or, List.not_mem_nil, or_false] at hq
    cases hq
    exact .unpaired rfl
  | @source _ g p hnames hfound =>
    have hold : Sound bodies p :=
      hs _ p (hserves p (hloaded ▸ List.mem_of_find?_eq_some hfound))
    cases mutation with
    | add => cases hnames
    | setFlags g' flags =>
      cases List.mem_singleton.mp hq
      refine hold.same rfl rfl rfl rfl (fun hcreated => ?_)
      simp only [ReplicaMutate.flagged] at hcreated
      split_ifs at hcreated
      exact hcreated
    | remove g' =>
      cases List.mem_singleton.mp hq
      exact hold.same rfl rfl rfl rfl (fun hcreated => by cases hcreated)
    | edit g' object body metadata sortKey =>
      simp only [ReplicaMutate.writes, ReplicaMutate.new, List.mem_cons, reduceCtorEq, false_or,
        List.not_mem_nil, or_false] at hq
      cases hq
      by_cases hconflict : p.status = .conflict
      · obtain ⟨-, -, -, -, hobject, -⟩ :=
          ReplicaMutate.edited_conflict hconflict object.hash metadata sortKey
        exact .unpaired hobject
      · let row := ReplicaMutate.edited p object.hash metadata sortKey
        have hkept : row.collection = p.collection ∧ row.handle = p.handle ∧
            row.conflictRevision = p.conflictRevision ∧ row.conflictObject = p.conflictObject ∧
            (row.status = .created → p.status = .created) := by
          simp only [row, ReplicaMutate.edited, hconflict, decide_false, Bool.false_eq_true, if_false]
          split
          · exact ⟨rfl, rfl, rfl, rfl, fun hs => by cases hs⟩
          · exact ⟨rfl, rfl, rfl, rfl, id⟩
        exact hold.same hkept.1 hkept.2.1 hkept.2.2.1 hkept.2.2.2.1 hkept.2.2.2.2
    | copy g' target placeholder =>
      cases List.mem_singleton.mp hq
      exact .unpaired rfl
    | move g' target placeholder =>
      simp only [ReplicaMutate.writes, ReplicaMutate.new, List.mem_append,
        List.mem_singleton] at hq
      rcases hq with hq | hq
      · split at hq
        · cases List.mem_singleton.mp hq
          exact .unpaired rfl
        · cases hq
      · cases hq
        exact hold.same rfl rfl rfl rfl (fun hcreated => by cases hcreated)

theorem carriedStatus_conflict {p : ReplicaPlacement} {flags itemFlags : ReplicaFlags}
    (h : ReplicaRekey.carriedStatus p flags itemFlags = .conflict) : p.status = .conflict := by
  cases hp : p.status with
  | conflict => rfl
  | tombstone => simp [ReplicaRekey.carriedStatus, hp] at h
  | clean | dirty | created =>
    simp only [ReplicaRekey.carriedStatus, hp] at h
    split_ifs at h

/-- What a rekey leaves of sound rows is sound, as long as the pairs it carries name the same bodies
where it carries them. -/
theorem rekey_sound {c : ReplicaCollectionId} {loaded : ReplicaLoaded}
    {snapshot : ReplicaRemoteSnapshot} {t : Transcript} {s : CollectionRows} {next : Bodies}
    (h : Rekeys c loaded snapshot t) (hl : loaded.placements = s.placements)
    (hs : ∀ (g : ReplicaHandle) (p : ReplicaPlacement), s.rows[g]? = some p →
      p.collection = c ∧ Sound bodies p)
    (hmeets : ∀ item p revision,
      CarriesPair s (resolveLinks t.fetched) snapshot.items item p revision →
        next c item.handle revision = bodies c p.handle revision)
    {g : ReplicaHandle} {q : ReplicaPlacement} (hq : (s.apply t.writes).rows[g]? = some q) :
    Sound next q := by
  cases h.left hl hq with
  | resurrected => exact .unpaired rfl
  | fresh => exact .unpaired rfl
  | created stood pending => exact .unpaired ((hs _ q stood).2.created pending)
  | @carried item p hcarried =>
    obtain ⟨hc, hold⟩ := hs _ p ((s.mem_spine p).mp hcarried.matched.2.1).1
    let row := (ReplicaRekey.enumerated c loaded snapshot).carry p item
      (resolveLinks t.fetched)[item.handle]?
    have hobject : row.conflictObject =
        if row.conflictRevision = p.conflictRevision then p.conflictObject else none := rfl
    change Sound next row
    by_cases hsame : row.conflictRevision = p.conflictRevision
    · rw [if_pos hsame] at hobject
      refine ⟨?_, fun hs => absurd hs (ReplicaRekey.Spine.carriedStatus_ne_created _ _ _)⟩
      intro o ho
      rw [hobject] at ho
      obtain ⟨r, hr, hbody⟩ := hold.named o ho
      rw [hc] at hbody
      have hrow : (if row.status = .conflict then item.revision else none) = some r :=
        hsame.trans hr
      split at hrow
      · rename_i hconflict
        exact ⟨r, hsame.trans hr, (hmeets item p r ⟨hcarried, carriedStatus_conflict hconflict,
          by rw [ho]; rfl, hr, hrow⟩).trans hbody⟩
      · cases hrow
    · rw [if_neg hsame] at hobject
      exact .unpaired hobject

variable {n : ℕ} {storage : ℕ → Storage} {bodiesAt : ℕ → Bodies} {remote : ℕ → Remote}
  {turns : ℕ → Turn} {i : ℕ}

/-- A turn that is no rekey leaves every revision the body it names. -/
theorem Run.bodies_eq (hrun : Run n storage bodiesAt remote turns) (hi : i < n)
    (hturn : ∀ c loaded snapshot t, turns i ≠ .rekey c loaded snapshot t) :
    bodiesAt (i + 1) = bodiesAt i :=
  funext fun c => hrun.kept i hi c (hturn c)

/-- Over sound rows a turn that meets the remote leaves sound ones. -/
theorem turn_sound (hrun : Run n storage bodiesAt remote turns) (hi : i < n)
    (hs : ∀ (c : ReplicaCollectionId) (h : ReplicaHandle) (p : ReplicaPlacement),
      ((storage i).rows c).rows[h]? = some p → Sound (bodiesAt i) p)
    (hmeets : (turns i).Meets (storage i) (bodiesAt i) (bodiesAt (i + 1)) (remote i))
    {c : ReplicaCollectionId} {g : ReplicaHandle} {q : ReplicaPlacement}
    (hq : ((storage (i + 1)).rows c).rows[g]? = some q) : Sound (bodiesAt (i + 1)) q := by
  rw [hrun.next i hi] at hq
  have hplaced : ∀ d (h : ReplicaHandle) (p : ReplicaPlacement),
      ((storage i).rows d).rows[h]? = some p → p.collection = d ∧ Sound (bodiesAt i) p :=
    fun d h p hp => ⟨(storage i).placed d h p hp, hs d h p hp⟩
  cases hturn : turns i with
  | rekey d loaded snapshot t =>
    obtain ⟨hrekeys, hl⟩ := hrun.rekeys i hi d loaded snapshot t hturn
    rw [hturn] at hq hmeets
    dsimp only [Turn.transcript] at hq
    rw [(storage i).apply_rows (hrekeys.within hl ((storage i).placed d))] at hq
    by_cases hd : c = d
    · subst hd
      rw [Function.update_self] at hq
      exact rekey_sound hrekeys hl (hplaced c) hmeets hq
    · rw [Function.update_of_ne hd] at hq
      obtain ⟨hc, hold⟩ := hplaced c g q hq
      have hsame : bodiesAt (i + 1) c = bodiesAt i c :=
        hrun.kept i hi c (fun loaded' snapshot' t' heq => hd (by rw [hturn] at heq; cases heq; rfl))
      refine ⟨?_, hold.created⟩
      rw [Named, hc, hsame, ← hc]
      exact hold.named
  | sync d step =>
    rw [hrun.bodies_eq hi (by rw [hturn]; exact nofun)]
    rcases (storage i).apply_mem hq with hold | hnew
    · exact hs c g q hold
    · rw [hturn] at hnew
      obtain ⟨hsync, hl⟩ := hrun.syncs i hi d step hturn
      refine hsync.obeys hl (inherits_sound d) ⟨hs d, fun h p hp ht => ?_⟩ _ hnew
      exact (hs d h p hp).same rfl rfl rfl rfl (fun hcreated => by cases hcreated)
  | upgrade d u =>
    rw [hrun.bodies_eq hi (by rw [hturn]; exact nofun)]
    rcases (storage i).apply_mem hq with hold | hnew
    · exact hs c g q hold
    · rw [hturn] at hnew hmeets
      obtain ⟨hupgrades, hserves, hserved⟩ := hrun.upgrades i hi d u hturn
      exact upgrade_sound hupgrades hserves hserved hmeets (hplaced d) hnew
  | mutate d mutation loaded t =>
    rw [hrun.bodies_eq hi (by rw [hturn]; exact nofun)]
    rcases (storage i).apply_mem hq with hold | hnew
    · exact hs c g q hold
    · rw [hturn] at hnew
      obtain ⟨hmutates, hserves⟩ := hrun.mutates i hi d mutation loaded t hturn
      exact mutate_sound hmutates hserves (hs d) hnew

/-- Where the pairs stored before and after it name one state, an upgrade was timely. -/
theorem timely_of_named (hrun : Run n storage bodiesAt remote turns) (hi : i < n)
    (hnames : NamesOneState n storage bodiesAt turns) {c : ReplicaCollectionId} {u : UpgradeStep}
    (hturn : turns i = .upgrade c u) (htier : u.tier = .full) :
    Timely (bodiesAt i c) (remote i c) u.transcript := by
  obtain ⟨hupgrades, hserves, hserved⟩ := hrun.upgrades i hi c u hturn
  intro item hitem hb p hp hh hc
  rw [htier] at hupgrades
  obtain ⟨item', hitem', body, hh', hbody, hrow⟩ :=
    fetched_beside hupgrades hserves hitem hb hp hh hc
  have hleft : ((storage (i + 1)).rows c).rows[p.handle]? =
      some { p with conflictObject := some (storedBody body).1.hash } := by
    rw [hrun.next i hi, hturn, Storage.apply_own]
    · exact hrow
    · intro op hop d hd
      rcases upgrade_sources hupgrades hserves hop with hnone | ⟨q, p, rfl, hp, hraised⟩
      · rw [hd] at hnone
        cases hnone
      · cases hd
        exact hraised.collection_eq.trans ((storage i).placed c _ p hp)
  obtain ⟨marked, hmarked, hsame⟩ := hnames.stored (i + 1) hi c _ _ hleft _ rfl
  obtain ⟨held, hheld, -, hhash⟩ := hserved item' hitem' body hbody p hp hh' hc
  have hplaced : p.collection = c := (storage i).placed c _ p (hserves p hp)
  rw [hrun.bodies_eq hi (by rw [hturn]; exact nofun)] at hsame
  dsimp only at hsame
  rw [hplaced] at hsame
  exact ⟨marked, held, hmarked, hheld, by rw [hsame, hhash]⟩

/-- Where the pairs stored before and after it name one state, a rekey carried each to a member whose
revision names the same body. -/
theorem carried_of_named (hrun : Run n storage bodiesAt remote turns) (hi : i < n)
    (hnames : NamesOneState n storage bodiesAt turns) {c : ReplicaCollectionId}
    {loaded : ReplicaLoaded} {snapshot : ReplicaRemoteSnapshot} {t : Transcript}
    (hturn : turns i = .rekey c loaded snapshot t) {item : ReplicaRemoteItem}
    {p : ReplicaPlacement} {revision : String}
    (hpair : CarriesPair ((storage i).rows c) (resolveLinks t.fetched) snapshot.items item p
      revision) : bodiesAt (i + 1) c item.handle revision = bodiesAt i c p.handle revision := by
  obtain ⟨hrekeys, hl⟩ := hrun.rekeys i hi c loaded snapshot t hturn
  obtain ⟨o, ho⟩ := Option.isSome_iff_exists.mp hpair.body
  have hstored := ((((storage i).rows c).mem_spine p).mp hpair.carried.matched.2.1).1
  have hleft : ((storage (i + 1)).rows c).rows[item.handle]? = some
      ((ReplicaRekey.enumerated c loaded snapshot).carry p item
        (resolveLinks t.fetched)[item.handle]?) := by
    rw [hrun.next i hi, hturn]
    dsimp only [Turn.transcript]
    rw [(storage i).apply_rows (hrekeys.within hl ((storage i).placed c)), Function.update_self]
    exact hpair.carried.row hrekeys hl
  let row := (ReplicaRekey.enumerated c loaded snapshot).carry p item
    (resolveLinks t.fetched)[item.handle]?
  have hrevision : row.conflictRevision = some revision := by
    simp [row, ReplicaRekey.carry, ReplicaRekey.carriedStatus, hpair.conflict, hpair.observed]
  have hobject : row.conflictObject = some o := by
    have hif : row.conflictObject =
        if row.conflictRevision = p.conflictRevision then p.conflictObject else none := rfl
    rw [hif, hrevision, hpair.marked, if_pos rfl, ho]
  obtain ⟨r, hr, hnew⟩ := hnames.stored (i + 1) hi c _ row hleft o hobject
  obtain ⟨r', hr', hold⟩ := hnames.stored i hi.le c _ p hstored o ho
  cases hr.symm.trans hrevision
  cases hr'.symm.trans hpair.marked
  rw [(storage i).placed c _ p hstored] at hold
  exact hnew.trans hold.symm

/-- In every run from sound rows, the conflict pairs name one state exactly when every body fetched
of a conflicted row is fetched while the remote is where the row was marked, and every pair a rekey
carries names the same body where it carries it. -/
theorem names_one_state_iff (hrun : Run n storage bodiesAt remote turns)
    (hstart : ∀ (c : ReplicaCollectionId) (h : ReplicaHandle) (p : ReplicaPlacement),
      ((storage 0).rows c).rows[h]? = some p → Sound (bodiesAt 0) p) :
    NamesOneState n storage bodiesAt turns ↔
      ∀ i < n, (turns i).Meets (storage i) (bodiesAt i) (bodiesAt (i + 1)) (remote i) := by
  constructor
  · intro hnames i hi
    cases hturn : turns i with
    | upgrade c u => exact timely_of_named hrun hi hnames hturn
    | rekey c loaded snapshot t =>
      exact fun item p revision hpair => carried_of_named hrun hi hnames hturn hpair
    | sync => trivial
    | mutate => trivial
  · intro hmeets
    have hsound : ∀ i ≤ n, ∀ (c : ReplicaCollectionId) (h : ReplicaHandle) (p : ReplicaPlacement),
        ((storage i).rows c).rows[h]? = some p → Sound (bodiesAt i) p := by
      intro i
      induction i with
      | zero => exact fun _ => hstart
      | succ i ih =>
        intro hi c h p hp
        exact turn_sound hrun hi (ih (Nat.le_of_succ_le hi)) (hmeets i hi) hp
    refine ⟨fun i hi c h p hp => (hsound i hi c h p hp).named, ?_⟩
    intro i hi c h object body metadata sortKey loaded t hturn p hp hs q hq
    obtain ⟨hmutates, hserves⟩ := hrun.mutates i hi c _ loaded t hturn
    obtain ⟨hstages, hloaded⟩ := hmutates.stages
    generalize t.writes = ops at hstages hq
    cases hstages with
    | @source _ g p' hnames hfound =>
      cases hnames
      have hp' : p'.handle = h := by simpa using List.find?_some hfound
      have hmem := hserves p' (hloaded ▸ List.mem_of_find?_eq_some hfound)
      rw [hp', hp, Option.some.injEq] at hmem
      subst hmem
      simp only [ReplicaMutate.writes, ReplicaMutate.new, List.mem_cons, reduceCtorEq, false_or,
        List.not_mem_nil, or_false] at hq
      cases hq
      obtain ⟨-, -, -, -, -, hbase⟩ := ReplicaMutate.edited_conflict hs object.hash metadata sortKey
      have hnamed := (hsound i hi.le c h p hp).named
      rw [Named, (storage i).placed c h p hp, hp'] at hnamed
      exact ⟨_, hbase, rfl, rfl, hnamed⟩

end Turns

section Runs

/-- The storages turns lead to, each over the rows the last one left. -/
def states (s : Storage) (turns : ℕ → Turn) : ℕ → Storage
  | 0 => s
  | i + 1 => (states s turns i).apply (turns i).transcript.writes

/-- Whose card stands under a handle, before a renumbering and after it. -/
def owner (h : ReplicaHandle) : String := if h = ⟨"a"⟩ ∨ h = ⟨"11"⟩ then "ada" else "bob"

/-- Each card counts its revisions from one, and a revision names another body of each. -/
def cardBodies : Bodies := fun _ h revision => ⟨owner h ++ revision⟩

/-- A card edited since revision "1". -/
def editedCard (h : ReplicaHandle) : ReplicaPlacement :=
  { StagedEdit.card with
    handle := h
    linkId := some ⟨owner h⟩
    base := some ⟨.empty, some "1", some (cardBodies ⟨"contacts"⟩ h "1")⟩ }

def edits : Storage :=
  Storage.empty.apply [.upsertPlacement (editedCard ⟨"a"⟩), .upsertPlacement (editedCard ⟨"b"⟩)]

/-- Both cards as a listing at revision "2" names them. -/
def listing : ReplicaRemoteSnapshot :=
  ⟨[⟨⟨"a"⟩, .empty, some "2"⟩, ⟨⟨"b"⟩, .empty, some "2"⟩], [], true, ⟨[]⟩⟩

/-- A card as the remote serves it at a revision. -/
def servedAt (revision : String) (h : ReplicaHandle) : ReplicaFetchedItem :=
  ⟨h, ⟨owner h⟩, ⟨owner h⟩, .unknown, some (.persisted (cardBodies ⟨"contacts"⟩ h revision) 3),
    some revision⟩

def servedBoth (revision : String) : List ReplicaFetchedItem :=
  [servedAt revision ⟨"a"⟩, servedAt revision ⟨"b"⟩]

def syncSeam : Seam := ⟨edits.rows ⟨"contacts"⟩, none, listing, []⟩

/-- A sync that marks both conflicts, then an upgrade that fetches the cards at a revision. -/
def chase (revision : String) : Option (Transcript × Transcript) :=
  (syncSeam.sync 9 ⟨"contacts"⟩ .default).bind (fun o =>
    (exactRun 9 ∅ (fun _ _ => servedBoth revision) ⟨"contacts"⟩ [⟨"a"⟩, ⟨"b"⟩] .full
      ((edits.apply o.2.writes).rows ⟨"contacts"⟩)).map (fun o' => (o.2, o'.2)))

/-- The contacts once both turns are over. -/
def chasedRows (t u : Transcript) : CollectionRows :=
  ((edits.apply t.writes).apply u.writes).rows ⟨"contacts"⟩

/-- The cards renumbered, still at revision "2". -/
def renumbered : ReplicaRemoteSnapshot :=
  ⟨[⟨⟨"11"⟩, .empty, some "2"⟩, ⟨⟨"12"⟩, .empty, some "2"⟩], [], true, ⟨[]⟩⟩

def renumberedLinks : List ReplicaFetchedItem :=
  [⟨⟨"11"⟩, ⟨"ada"⟩, ⟨"ada"⟩, .unknown, none, none⟩, ⟨⟨"12"⟩, ⟨"bob"⟩, ⟨"bob"⟩, .unknown, none, none⟩]

/-- The rows a rekey of the contacts leaves. -/
def renumberedRows (s : CollectionRows) : CollectionRows :=
  s.apply ((ReplicaRekey.enumerated ⟨"contacts"⟩ ⟨s.placements, none⟩ renumbered).rebuild
    (resolveLinks renumberedLinks)).2

/-- The cards synced while the remote is at "2", and fetched once it is at `revision`. -/
def chased (revision : String) (i : ℕ) : Remote := fun _ _ =>
  some (if i = 0 then "2" else revision)

def chaseTurns (t u v : Transcript) (i : ℕ) : Turn :=
  match i with
  | 0 => .sync ⟨"contacts"⟩ ⟨.default, ⟨syncSeam.rows.placements, none⟩, listing, t⟩
  | 1 => .upgrade ⟨"contacts"⟩ ⟨[⟨"a"⟩, ⟨"b"⟩], .full,
      firstLoad ((edits.apply t.writes).rows ⟨"contacts"⟩) [⟨"a"⟩, ⟨"b"⟩], u⟩
  | _ => .rekey ⟨"contacts"⟩ ⟨(chasedRows t u).placements, none⟩ renumbered v

theorem edits_sound (c : ReplicaCollectionId) (h : ReplicaHandle) (p : ReplicaPlacement)
    (hp : (edits.rows c).rows[h]? = some p) : Sound cardBodies p := by
  rcases Storage.empty.apply_mem hp with hold | hnew
  · simp [Storage.empty, CollectionRows.empty] at hold
  · simp only [List.mem_cons, ReplicaWriteOp.upsertPlacement.injEq, List.not_mem_nil,
      or_false] at hnew
    rcases hnew with rfl | rfl <;> exact .unpaired rfl

/-- A driven chase, and a renumbering after it, are a run against the remote. -/
theorem chase_run {revision : String} {t u : Transcript} (h : chase revision = some (t, u))
    (hfetched : u.fetched = servedBoth revision)
    (hlinked : (chasedRows t u).placements.any (fun p => p.linkId.isSome) = true) :
    ∃ v, Run 3 (states edits (chaseTurns t u v)) (fun _ => cardBodies) (chased revision)
      (chaseTurns t u v) ∧ v.fetched = renumberedLinks := by
  obtain ⟨⟨seam, t'⟩, hsync, hrest⟩ := Option.bind_eq_some_iff.mp h
  obtain ⟨⟨s', u'⟩, hupgrade, heq⟩ := Option.map_eq_some_iff.mp hrest
  cases heq
  obtain ⟨hsyncs, -⟩ := Seam.sync_syncs hsync
  obtain ⟨hupgrades, -, hserves, -⟩ := exactRun_upgrades hupgrade
  obtain ⟨v, hrekeys, hv⟩ := rekeys_total ⟨"contacts"⟩ ⟨(chasedRows t' u').placements, none⟩ renumbered
    renumberedLinks
  rw [if_pos hlinked] at hv
  refine ⟨v, ⟨?_, ?_, ?_, ?_, fun _ _ => rfl, fun _ _ _ _ => rfl⟩, hv⟩
  · intro i hi c step hturn
    interval_cases i <;> cases hturn
    exact ⟨hsyncs, rfl⟩
  · intro i hi c step hturn
    interval_cases i <;> cases hturn
    refine ⟨hupgrades, hserves, ?_⟩
    intro item hitem body hb p _ hh _
    rw [hfetched] at hitem
    simp only [servedBoth, List.mem_cons, List.not_mem_nil, or_false] at hitem
    rcases hitem with rfl | rfl <;>
      · cases hb
        exact ⟨revision, rfl, rfl, by rw [hh]; rfl⟩
  · intro i hi c loaded snapshot w hturn
    interval_cases i <;> cases hturn
    exact ⟨hrekeys, rfl⟩
  · intro i hi c mutation loaded w hturn
    interval_cases i <;> cases hturn

/-- The conflict pair of a stored row. -/
def pairAt (s : CollectionRows) (h : ReplicaHandle) : Option (Option String × Option ReplicaHash) :=
  s.rows[h]?.map (fun p => (p.conflictRevision, p.conflictObject))

/-- Fetched once the remote has moved on, the later body stands beside the revision marked. -/
theorem conflict_pair_torn : ∃ storage bodiesAt remote turns, Run 3 storage bodiesAt remote turns ∧
    (∀ (c : ReplicaCollectionId) (h : ReplicaHandle) (p : ReplicaPlacement),
      ((storage 0).rows c).rows[h]? = some p → Sound (bodiesAt 0) p) ∧
    (∀ i < 3, ∀ c step, turns i = .sync c step → Listed (remote i c) step.snapshot) ∧
    ¬ NamesOneState 3 storage bodiesAt turns := by
  have hrun : (chase "3").any (fun o => decide (o.2.fetched = servedBoth "3") &&
      (chasedRows o.1 o.2).placements.any (fun p => p.linkId.isSome) &&
      decide (pairAt (chasedRows o.1 o.2) ⟨"a"⟩ = some (some "2", some ⟨"ada3"⟩))) = true := by
    decide +kernel
  obtain ⟨⟨t, u⟩, hd, hall⟩ := (Option.any_eq_true _ _).mp hrun
  simp only [Bool.and_eq_true, decide_eq_true_eq] at hall
  obtain ⟨⟨hfetched, hlinked⟩, hpair⟩ := hall
  obtain ⟨v, hchase, -⟩ := chase_run hd hfetched hlinked
  obtain ⟨p, hp, hpair⟩ := Option.map_eq_some_iff.mp hpair
  obtain ⟨hrevision, hobject⟩ := Prod.mk.inj hpair
  refine ⟨_, _, _, _, hchase, edits_sound, ?_, ?_⟩
  · intro i hi c step hturn
    interval_cases i <;> cases hturn
    intro item hitem
    simp only [listing, List.mem_cons, List.not_mem_nil, or_false] at hitem
    rcases hitem with rfl | rfl <;> rfl
  · intro hnames
    have hnamed := hnames.stored 2 (by decide) ⟨"contacts"⟩ ⟨"a"⟩ p hp
    have hh : p.handle = ⟨"a"⟩ := (chasedRows t u).keyed _ _ hp
    obtain ⟨r, hr, hbody⟩ := hnamed _ hobject
    rw [hrevision, Option.some.injEq] at hr
    subst hr
    rw [hh] at hbody
    change (⟨owner ⟨"a"⟩ ++ "2"⟩ : ReplicaHash) = ⟨"ada3"⟩ at hbody
    exact absurd hbody (by decide)

/-- Fetched while the remote is still where the rows were marked, each pair names one state of its
own card, under the same revision and through a renumbering. -/
theorem conflict_pairs_fetched : ∃ storage bodiesAt remote turns,
    Run 3 storage bodiesAt remote turns ∧
    pairAt ((storage 2).rows ⟨"contacts"⟩) ⟨"a"⟩ = some (some "2", some ⟨"ada2"⟩) ∧
    pairAt ((storage 2).rows ⟨"contacts"⟩) ⟨"b"⟩ = some (some "2", some ⟨"bob2"⟩) ∧
    pairAt ((storage 3).rows ⟨"contacts"⟩) ⟨"11"⟩ = some (some "2", some ⟨"ada2"⟩) ∧
    pairAt ((storage 3).rows ⟨"contacts"⟩) ⟨"12"⟩ = some (some "2", some ⟨"bob2"⟩) ∧
    NamesOneState 3 storage bodiesAt turns := by
  have hrun : (chase "2").any (fun o => decide (o.2.fetched = servedBoth "2") &&
      (chasedRows o.1 o.2).placements.any (fun p => p.linkId.isSome) &&
      decide (∀ p ∈ o.2.loaded, p.conflictRevision = some "2") &&
      (chasedRows o.1 o.2).spine.all (fun p => renumbered.items.all (fun item =>
        decide (p.linkId = ReplicaRekey.linkOf (resolveLinks renumberedLinks) item →
          owner item.handle = owner p.handle))) &&
      decide (pairAt (chasedRows o.1 o.2) ⟨"a"⟩ = some (some "2", some ⟨"ada2"⟩)) &&
      decide (pairAt (chasedRows o.1 o.2) ⟨"b"⟩ = some (some "2", some ⟨"bob2"⟩)) &&
      decide (pairAt (renumberedRows (chasedRows o.1 o.2)) ⟨"11"⟩ =
        some (some "2", some ⟨"ada2"⟩)) &&
      decide (pairAt (renumberedRows (chasedRows o.1 o.2)) ⟨"12"⟩ =
        some (some "2", some ⟨"bob2"⟩))) = true := by decide +kernel
  obtain ⟨⟨t, u⟩, hd, hall⟩ := (Option.any_eq_true _ _).mp hrun
  simp only [Bool.and_eq_true, decide_eq_true_eq, List.all_eq_true] at hall
  obtain ⟨⟨⟨⟨⟨⟨⟨hfetched, hlinked⟩, hmarked⟩, howners⟩, hada⟩, hbob⟩, hada'⟩, hbob'⟩ := hall
  obtain ⟨v, hchase, hv⟩ := chase_run hd hfetched hlinked
  obtain ⟨hrekeys, hl⟩ := hchase.rekeys 2 (by decide) _ _ _ _ rfl
  have hleft : (states edits (chaseTurns t u v) 3).rows ⟨"contacts"⟩ =
      renumberedRows (chasedRows t u) := by
    have happly := (states edits (chaseTurns t u v) 2).apply_rows
      (hrekeys.within hl ((states edits (chaseTurns t u v) 2).placed _))
    have hwrites := hrekeys.writes
    rw [hv] at hwrites
    rw [states, show (chaseTurns t u v 2).transcript.writes = v.writes from rfl, happly,
      Function.update_self, hwrites]
    rfl
  refine ⟨_, _, _, _, hchase, hada, hbob, hleft ▸ hada', hleft ▸ hbob',
    (names_one_state_iff hchase edits_sound).mpr ?_⟩
  intro i hi
  interval_cases i
  · trivial
  · intro _ item _ _ q hq _ _
    exact ⟨"2", "2", hmarked q hq, rfl, rfl⟩
  · intro item p revision hpair
    obtain ⟨hitem, hp, hlink⟩ := hpair.carried.matched
    rw [hv] at hlink
    exact congrArg (fun name => (⟨name ++ revision⟩ : ReplicaHash)) (howners p hp item hitem hlink)

end Runs

end Diverging
end IoReplica

import IoReplica.Upgrade.Row
import Mathlib.Tactic.IntervalCases

/-! Sequences of upgrades over one collection: the levels they raise and the staged edits they keep. -/
namespace IoReplica

/-- One upgrade of a sequence: the handles and the tier asked for, the load and every exchange. -/
structure UpgradeStep where
  handles : List ReplicaHandle
  tier : ReplicaTier
  loaded : ReplicaLoaded
  transcript : Transcript

namespace UpgradeStep

/-- The body the step hands a row: the last fetched item's, else the store's. -/
def given (u : UpgradeStep) (p : ReplicaPlacement) : Option ReplicaHash :=
  (ReplicaUpgrade.reply u.tier u.transcript p).elim
    (ReplicaUpgrade.hit u.handles u.tier u.loaded u.transcript p)
    (fun item => if u.tier = .full then item.body.map (fun body => (storedBody body).1.hash)
      else none)

/-- The last fetched item answers the row with no body. -/
def summarises (u : UpgradeStep) (p : ReplicaPlacement) : Prop :=
  ∃ item, ReplicaUpgrade.reply u.tier u.transcript p = some item ∧
    (u.tier = .metadata ∨ item.body = none)

end UpgradeStep

/-- Upgrades of one collection, each over the rows the last one left. -/
structure UpgradeSequence (collection : ReplicaCollectionId) (n : ℕ) (rows : ℕ → CollectionRows)
    (steps : ℕ → UpgradeStep) : Prop where
  upgrades : ∀ i < n, Upgrades collection (steps i).handles (steps i).tier (steps i).loaded
    (steps i).transcript
  serves : ∀ i < n, Serves (rows i) (steps i).transcript
  next : ∀ i < n, rows (i + 1) = (rows i).apply (steps i).transcript.writes

namespace UpgradeSequence

/-- No level falls, and a staged edit keeps its body and its status from then on. -/
structure Kept (n : ℕ) (rows : ℕ → CollectionRows) : Prop where
  levels : ∀ i < n, ∀ (h : ReplicaHandle) (p : ReplicaPlacement), (rows i).rows[h]? = some p →
    ∃ p', (rows (i + 1)).rows[h]? = some p' ∧ p.level ≤ p'.level
  edits : ∀ i j, i ≤ j → j ≤ n → ∀ (h : ReplicaHandle) (p : ReplicaPlacement),
    (rows i).rows[h]? = some p → p.stagedEdit.isSome →
    ∃ p', (rows j).rows[h]? = some p' ∧ p'.object = p.object ∧ p'.status = p.status

/-- The row under a handle holds a staged edit, or has held one since the sequence began. -/
def Staged (rows : ℕ → CollectionRows) (i : ℕ) (h : ReplicaHandle) : Prop :=
  ∃ k ≤ i, ∃ q, (rows k).rows[h]? = some q ∧ q.stagedEdit.isSome

/-- No step answers a full row without a body, or hands a staged edit a body not its own. -/
structure Spares (n : ℕ) (rows : ℕ → CollectionRows) (steps : ℕ → UpgradeStep) : Prop where
  summaries : ∀ i < n, ∀ (h : ReplicaHandle) (p : ReplicaPlacement), (rows i).rows[h]? = some p →
    (steps i).summarises p → p.level ≠ .full
  bodies : ∀ i < n, ∀ (h : ReplicaHandle) (p : ReplicaPlacement), (rows i).rows[h]? = some p →
    Staged rows i h → ∀ hash, (steps i).given p = some hash → p.object = some hash

variable {collection : ReplicaCollectionId} {n : ℕ} {rows : ℕ → CollectionRows}
  {steps : ℕ → UpgradeStep}

/-- What one step leaves of a row: its status, the body given to it if any, and a level that falls
only to a summary. -/
theorem step_row (h : UpgradeSequence collection n rows steps) {i : ℕ} (hi : i < n)
    {g : ReplicaHandle} {p : ReplicaPlacement} (hp : (rows i).rows[g]? = some p) :
    ∃ p', (rows (i + 1)).rows[g]? = some p' ∧ p'.status = p.status ∧
      p'.object = ((steps i).given p).or p.object ∧
      ((steps i).summarises p → p'.level = .metadata) ∧
      (¬ (steps i).summarises p → p.level ≤ p'.level) := by
  have hg : p.handle = g := (rows i).keyed g p hp
  subst hg
  obtain ⟨p', hp', hleaves⟩ := (h.upgrades i hi).row (h.serves i hi) hp
  rw [← h.next i hi] at hp'
  refine ⟨p', hp', hleaves.status, ?_⟩
  rw [hleaves.object, hleaves.level]
  simp only [ReplicaUpgrade.outcome, UpgradeStep.given, UpgradeStep.summarises]
  cases hr : ReplicaUpgrade.reply (steps i).tier (steps i).transcript p with
  | none =>
    cases ReplicaUpgrade.hit (steps i).handles (steps i).tier (steps i).loaded (steps i).transcript p
      <;> simp
  | some item =>
    cases ht : (steps i).tier with
    | metadata => simp [ReplicaUpgrade.answered]
    | full => cases hb : item.body <;> simp [ReplicaUpgrade.answered, hb]

/-- A staged edit no step overwrites stands as it was. -/
theorem edit_stands (h : UpgradeSequence collection n rows steps) (hs : Spares n rows steps)
    {i j : ℕ} (hij : i ≤ j) (hj : j ≤ n) {g : ReplicaHandle} {p : ReplicaPlacement}
    (hp : (rows i).rows[g]? = some p) (hstaged : p.stagedEdit.isSome) :
    ∃ p', (rows j).rows[g]? = some p' ∧ p'.object = p.object ∧ p'.status = p.status := by
  induction j, hij using Nat.le_induction with
  | base => exact ⟨p, hp, rfl, rfl⟩
  | succ j hij ih =>
    have hjn : j < n := hj
    obtain ⟨q, hq, hobject, hstatus⟩ := ih hjn.le
    obtain ⟨q', hq', hstatus', hobject', -⟩ := h.step_row hjn hq
    refine ⟨q', hq', ?_, hstatus'.trans hstatus⟩
    rw [hobject', ← hobject]
    cases hgiven : (steps j).given q with
    | none => rfl
    | some hash => exact (hs.bodies j hjn g q hq ⟨i, hij, p, hp, hstaged⟩ hash hgiven).symm

/-- A sequence of upgrades keeps levels and staged edits exactly when no step summarises a full row
or hands a staged edit another body. -/
theorem upgrades_keep_iff (h : UpgradeSequence collection n rows steps) :
    Kept n rows ↔ Spares n rows steps := by
  constructor
  · intro hk
    refine ⟨?_, ?_⟩
    · intro i hi g p hp hsum hfull
      obtain ⟨p', hp', -, -, hlevel, -⟩ := h.step_row hi hp
      obtain ⟨p'', hp'', hle⟩ := hk.levels i hi g p hp
      rw [hp'] at hp''
      rw [← Option.some.inj hp'', hlevel hsum, hfull] at hle
      exact absurd hle (by decide)
    · rintro i hi g p hp ⟨k, hki, q, hq, hstaged⟩ hash hgiven
      obtain ⟨p₁, hp₁, hobject, -⟩ := hk.edits k i hki hi.le g q hq hstaged
      obtain ⟨p₂, hp₂, hobject', -⟩ := hk.edits k (i + 1) (hki.trans (Nat.le_succ i)) hi g q hq
        hstaged
      obtain ⟨p', hp', -, hbody, -⟩ := h.step_row hi hp
      rw [hp] at hp₁
      rw [hp'] at hp₂
      rw [Option.some.inj hp₁, hobject, ← hobject', ← Option.some.inj hp₂, hbody, hgiven]
      rfl
  · intro hs
    refine ⟨?_, ?_⟩
    · intro i hi g p hp
      obtain ⟨p', hp', -, -, hsum, hlevel⟩ := h.step_row hi hp
      refine ⟨p', hp', ?_⟩
      by_cases hsummarised : (steps i).summarises p
      · rw [hsum hsummarised, ReplicaLevel.le_metadata_iff]
        exact hs.summaries i hi g p hp hsummarised
      · exact hlevel hsummarised
    · intro i j hij hj g p hp hstaged
      exact h.edit_stands hs hij hj hp hstaged

section Runs

/-- Services an upgrade: loads from the stored rows, bodies from `known`, fetches from `fetched`. -/
def service (known : LinkMap ReplicaHash) (fetched : List ReplicaFetchedItem) (s : CollectionRows) :
    ReplicaYield → CollectionRows × ReplicaArg
  | .wantsLoad .. => (s, .load ⟨s.placements, none⟩)
  | .wantsFetch .. => (s, .fetch fetched)
  | .wantsLookupObject _ => (s, .lookupObject known)
  | .wantsWrite ops => (s.apply ops, .write)
  | .wantsEnumerate .. => (s, .enumerate ⟨[], [], true, ⟨[]⟩⟩)
  | .wantsPush .. => (s, .push [])

theorem follows_apply {known : LinkMap ReplicaHash} {fetched : List ReplicaFetchedItem}
    {s s' : CollectionRows} {t : Transcript}
    (h : Coroutine.Follows (service known fetched) s t s') : s' = s.apply t.writes := by
  induction h with
  | nil s => rfl
  | @cons s s' y t rest ih =>
    rw [ih]
    cases y with
    | wantsWrite ops => simp [service, CollectionRows.apply, Transcript.writes]
    | wantsLoad | wantsEnumerate | wantsPush | wantsFetch | wantsLookupObject => rfl

/-- Drives one upgrade of the collection, within `fuel` resumes. -/
def upgrade (fuel : ℕ) (collection : ReplicaCollectionId) (handles : List ReplicaHandle)
    (tier : ReplicaTier) (fetched : List ReplicaFetchedItem) (s : CollectionRows) :
    Option (CollectionRows × Transcript) :=
  match Coroutine.drive ReplicaUpgrade.resume (service ∅ fetched) fuel
    (ReplicaUpgrade.new collection handles tier) none s with
  | some (s', t, .ok _) => some (s', t)
  | _ => none

theorem upgrade_upgrades {fuel : ℕ} {collection : ReplicaCollectionId}
    {handles : List ReplicaHandle} {tier : ReplicaTier} {fetched : List ReplicaFetchedItem}
    {s s' : CollectionRows} {t : Transcript}
    (h : upgrade fuel collection handles tier fetched s = some (s', t)) :
    Upgrades collection handles tier ⟨s.placements, none⟩ t ∧ s' = s.apply t.writes := by
  simp only [upgrade] at h
  split at h
  · rename_i hd
    cases h
    obtain ⟨hruns, hfollows⟩ := Coroutine.drive_runs hd
    refine ⟨?_, follows_apply hfollows⟩
    obtain ⟨b, u, rfl, -⟩ := hruns.ends
    cases hfollows
    exact ⟨u, _, rfl, hruns⟩
  · cases h

/-- A card edited offline before it was ever summarised. -/
def editedCard : ReplicaPlacement where
  collection := ⟨"contacts"⟩
  handle := ⟨"1"⟩
  linkId := some ⟨"ada"⟩
  object := some ⟨"new"⟩
  level := .full
  metadata := none
  sortKey := .unknown
  flags := .empty
  status := .dirty
  conflictRevision := none
  conflictObject := none
  base := some ⟨.empty, some "1", some ⟨"old"⟩⟩
  origin := none

def editedRows : CollectionRows := CollectionRows.empty.write (.upsertPlacement editedCard)

/-- What the remote answers for the card, at either tier. -/
def remoteCard (body : Option ReplicaFetchedBody) : List ReplicaFetchedItem :=
  [⟨⟨"1"⟩, ⟨"ada"⟩, ⟨"Ada"⟩, .unknown, body, some "1"⟩]

/-- A whole sequence of one driven upgrade after another. -/
theorem sequence_two (u₀ u₁ : UpgradeStep) {s₀ s₁ s₂ : CollectionRows}
    (h₀ : Upgrades collection u₀.handles u₀.tier u₀.loaded u₀.transcript)
    (h₁ : Upgrades collection u₁.handles u₁.tier u₁.loaded u₁.transcript)
    (hs₀ : Serves s₀ u₀.transcript) (hs₁ : Serves s₁ u₁.transcript)
    (hn₀ : s₁ = s₀.apply u₀.transcript.writes) (hn₁ : s₂ = s₁.apply u₁.transcript.writes) :
    UpgradeSequence collection 2 (fun i => if i = 0 then s₀ else if i = 1 then s₁ else s₂)
      (fun i => if i = 0 then u₀ else u₁) := by
  refine ⟨?_, ?_, ?_⟩
  · intro i hi
    interval_cases i
    · exact h₀
    · exact h₁
  · intro i hi
    interval_cases i
    · exact hs₀
    · exact hs₁
  · intro i hi
    interval_cases i
    · exact hn₀
    · exact hn₁

/-- Summarised, then hydrated: the level falls first, and the remote body replaces the edit. -/
theorem summary_then_body_loses_edit : ∃ rows steps,
    UpgradeSequence ⟨"contacts"⟩ 2 rows steps ∧ ¬ Kept 2 rows := by
  have hrun : ((upgrade 9 ⟨"contacts"⟩ [⟨"1"⟩] .metadata (remoteCard none) editedRows).bind
      (fun o => (upgrade 9 ⟨"contacts"⟩ [⟨"1"⟩] .full
        (remoteCard (some (.persisted ⟨"old"⟩ 3))) o.1).map (fun o' => (o, o')))).any (fun r =>
          decide (∀ p ∈ r.1.2.loaded, editedRows.rows[p.handle]? = some p) &&
          decide (∀ p ∈ r.2.2.loaded, r.1.1.rows[p.handle]? = some p) &&
          decide (r.2.1.rows[editedCard.handle]?.map (·.object) = some (some ⟨"old"⟩))) = true := by
    decide
  obtain ⟨⟨⟨s₁, t₀⟩, ⟨s₂, t₁⟩⟩, hboth, hall⟩ := (Option.any_eq_true _ _).mp hrun
  obtain ⟨⟨s₁', t₀'⟩, hd₀, hd₁⟩ := Option.bind_eq_some_iff.mp hboth
  obtain ⟨⟨s₂', t₁'⟩, hd₁, heq⟩ := Option.map_eq_some_iff.mp hd₁
  cases heq
  obtain ⟨hu₀, hn₀⟩ := upgrade_upgrades hd₀
  obtain ⟨hu₁, hn₁⟩ := upgrade_upgrades hd₁
  simp only [Bool.and_eq_true, decide_eq_true_eq] at hall
  obtain ⟨⟨hs₀, hs₁⟩, hlost⟩ := hall
  refine ⟨_, _, sequence_two ⟨_, _, _, _⟩ ⟨_, _, _, _⟩ hu₀ hu₁ hs₀ hs₁ hn₀ hn₁, ?_⟩
  intro hk
  have hrow : editedRows.rows[editedCard.handle]? = some editedCard := by decide
  obtain ⟨p', hp', hobject, -⟩ := hk.edits 0 2 (by decide) le_rfl editedCard.handle editedCard hrow
    (by decide)
  have hs₂ : s₂.rows[editedCard.handle]? = some p' := hp'
  rw [hs₂, Option.map_some, hobject] at hlost
  exact absurd hlost (by decide)

/-- The same card, and one only probed beside it. -/
def mixedRows : CollectionRows :=
  editedRows.write (.upsertPlacement
    { editedCard with
      handle := ⟨"2"⟩
      linkId := none
      object := none
      level := .probed
      status := .clean
      base := some ⟨.empty, some "1", none⟩ })

/-- Hydrating the probed card raises it and leaves the edited one. -/
theorem hydration_keeps : ∃ rows steps, UpgradeSequence ⟨"contacts"⟩ 1 rows steps ∧ Kept 1 rows := by
  have hrun : (upgrade 9 ⟨"contacts"⟩ [⟨"1"⟩, ⟨"2"⟩] .full
      [⟨⟨"2"⟩, ⟨"bob"⟩, ⟨"Bob"⟩, .unknown, some (.persisted ⟨"bob"⟩ 3), some "1"⟩] mixedRows).any
        (fun o =>
          let step : UpgradeStep := ⟨[⟨"1"⟩, ⟨"2"⟩], .full, ⟨mixedRows.placements, none⟩, o.2⟩
          decide (∀ p ∈ o.2.loaded, mixedRows.rows[p.handle]? = some p) &&
          decide (∀ p ∈ mixedRows.placements, p.level = .full →
            ReplicaUpgrade.reply .full o.2 p = none) &&
          decide (∀ p ∈ mixedRows.placements, p.stagedEdit.isSome → step.given p = none)) = true := by
    decide
  obtain ⟨⟨s', t⟩, hd, hall⟩ := (Option.any_eq_true _ _).mp hrun
  obtain ⟨hu, hn⟩ := upgrade_upgrades hd
  simp only [Bool.and_eq_true, decide_eq_true_eq] at hall
  obtain ⟨⟨hs, hsum⟩, hgiven⟩ := hall
  have hseq : UpgradeSequence ⟨"contacts"⟩ 1 (fun i => if i = 0 then mixedRows else s')
      (fun _ => ⟨[⟨"1"⟩, ⟨"2"⟩], .full, ⟨mixedRows.placements, none⟩, t⟩) := by
    refine ⟨?_, ?_, ?_⟩ <;> (intro i hi; interval_cases i)
    · exact hu
    · exact hs
    · exact hn
  refine ⟨_, _, hseq, (upgrades_keep_iff hseq).mpr ⟨?_, ?_⟩⟩
  · intro i hi g p hp
    interval_cases i
    have hg : p.handle = g := mixedRows.keyed g p hp
    rintro ⟨item, hreply, -⟩ hfull
    have hnone := hsum p ((mixedRows.mem_placements p).mpr (hg.symm ▸ hp)) hfull
    rw [hnone] at hreply
    cases hreply
  · intro i hi g p hp
    interval_cases i
    rintro ⟨k, hk, q, hq, hstaged⟩ hash hsome
    rw [Nat.le_zero.mp hk] at hq
    have heq : q = p := Option.some.inj (hq.symm.trans hp)
    have hg : p.handle = g := mixedRows.keyed g p hp
    have hnone := hgiven p ((mixedRows.mem_placements p).mpr (hg.symm ▸ hp)) (heq ▸ hstaged)
    rw [hnone] at hsome
    cases hsome

end Runs

end UpgradeSequence
end IoReplica

import IoReplica.Sync.Balance
import Mathlib.Algebra.GroupWithZero.Nat

/-! The accounts of a run: every change it has yet to hear about is awaited in the map of its kind,
and nothing else is. -/
namespace IoReplica

/-- The changes a transcript asks to push, in order, answered or not. -/
def Transcript.requested (t : Transcript) : List ReplicaChange :=
  t.flatMap (fun e => match e.1 with | .wantsPush _ changes => changes | _ => [])

theorem Transcript.requested_append (t u : Transcript) :
    Transcript.requested (t ++ u) = t.requested ++ u.requested := List.flatMap_append

/-- How many of the changes a transcript pushed were accepted by the reply to their own chunk. -/
def Transcript.confirmed (t : Transcript) : ℕ :=
  (t.pushes.map (fun e => e.1.countP (fun k => e.2.any (fun r => r.confirms k.handle)))).sum

theorem Transcript.confirmed_append (t u : Transcript) :
    Transcript.confirmed (t ++ u) = t.confirmed + u.confirmed := by
  simp only [Transcript.confirmed, Transcript.pushes, List.filterMap_append, List.map_append,
    List.sum_append]

theorem Transcript.confirmed_quiet (t : Transcript) {y : ReplicaYield} {answer : ReplicaArg}
    (hy : Transcript.pushes [(y, answer)] = []) :
    Transcript.confirmed (t ++ [(y, answer)]) = t.confirmed := by
  rw [Transcript.confirmed_append]
  simp [Transcript.confirmed, hy]

namespace ReplicaSync

/-- A run's accounts: the last changes asked for are in flight, the next are queued, no handle has
two, and the pending maps hold exactly those of the ones in flight and queued. -/
structure Accounts (t : Transcript) (flying : List ReplicaChange) (a : ReplicaSync) : Prop where
  asked : flying <:+ t.requested
  inFlight : a.inFlight = flying.map (fun k => k.handle)
  once : ((t.requested ++ a.pushes).map (fun k => k.handle)).Nodup
  balances : Balances a (flying ++ a.pushes)
  placed : ∀ g, (a.pendingAt g).Placed g

/-- The candidates still to merge, on handles nothing was derived for. -/
structure Fresh (a : ReplicaSync) (cs : List Candidate) : Prop where
  paired : ∀ c ∈ cs, c.Paired
  ascending : cs.Pairwise (fun c d => c.handle < d.handle)
  idle : ∀ c ∈ cs, c.handle ∉ a.pushes.map (fun k => k.handle)

/-- A run in each of its phases, after these exchanges, with the pushes confirmed so far counted. -/
inductive Ledger (t : Transcript) (a : ReplicaSync) : Prop
  | opening (state : a.state = .start ∨ a.state = .pendingLoad ∨ a.state = .pendingEnumerate)
      (keyed : ∃ s : CollectionRows, a.loc = s.rows) (silent : t.requested = [])
      (queued : a.pushes = []) (counted : a.report.pushed = t.confirmed)
      (accounts : Accounts t [] a)
  | merging (state : a.state = .merging) (silent : t.requested = [])
      (fresh : ∀ m, a.merging = some m → Fresh a m.candidates)
      (counted : a.report.pushed = t.confirmed) (accounts : Accounts t [] a)
  | pushing (flying : List ReplicaChange) (state : a.state = .pendingPush)
      (asks : ∃ (u : Transcript) (collection : ReplicaCollectionId) (answer : ReplicaArg),
        t = u ++ [(.wantsPush collection flying, answer)] ∧ a.report.pushed = u.confirmed)
      (accounts : Accounts t flying a)
  | recording (state : a.state = .pendingWrite) (counted : a.report.pushed = t.confirmed)
      (accounts : Accounts t [] a)

section Steps
variable {t : Transcript} {a b : ReplicaSync} {flying : List ReplicaChange}

theorem Accounts.congr (h : Accounts t flying a) (hp : b.pushes = a.pushes)
    (hf : b.inFlight = a.inFlight) (hpend : b.pendingAt = a.pendingAt) : Accounts t flying b := by
  refine ⟨h.asked, hf.trans h.inFlight, ?_, ?_, ?_⟩
  · rw [hp]
    exact h.once
  · rw [hp]
    exact h.balances.congr hpend
  · rw [hpend]
    exact h.placed

/-- An exchange that asks for no push leaves the accounts as they are. -/
theorem Accounts.quiet (h : Accounts t [] a) {y : ReplicaYield} {answer : ReplicaArg}
    (hy : Transcript.requested [(y, answer)] = []) : Accounts (t ++ [(y, answer)]) [] a := by
  refine ⟨List.nil_suffix, h.inFlight, ?_, h.balances, h.placed⟩
  rw [Transcript.requested_append, hy, List.append_nil]
  exact h.once

theorem Ledger.accounts (h : Ledger t a) : ∃ flying, Accounts t flying a := by
  cases h with
  | opening _ _ _ _ _ accounts => exact ⟨[], accounts⟩
  | merging _ _ _ _ accounts => exact ⟨[], accounts⟩
  | pushing flying _ _ accounts => exact ⟨flying, accounts⟩
  | recording _ _ accounts => exact ⟨[], accounts⟩

theorem Ledger.new (collection : ReplicaCollectionId) (opts : ReplicaSyncOptions) :
    Ledger [] (new collection opts) :=
  .opening (Or.inl rfl) ⟨CollectionRows.empty, rfl⟩ rfl rfl rfl
    ⟨List.nil_suffix, rfl, List.nodup_nil, .nil (new_pendingAt collection opts),
      fun g => by rw [new_pendingAt]; exact .none g⟩

/-- Taking a batch leaves what is in flight, awaited and counted. -/
theorem batch_awaits (a : ReplicaSync) :
    a.batch.1.inFlight = a.inFlight ∧ a.batch.1.pendingAt = a.pendingAt ∧
      a.batch.1.report = a.report := by
  by_cases hp : a.pushes = []
  · rw [batch_last a hp]
    exact ⟨rfl, rfl, rfl⟩
  · rw [batch_pending a hp]
    exact ⟨rfl, rfl, rfl⟩

/-- The next chunk goes out of the queue, or the last write with nothing left in it. -/
theorem Accounts.step (h : Accounts t [] a) (hcounted : a.report.pushed = t.confirmed)
    {y : ReplicaYield} (hs : a.step = (b, .yielded y)) (answer : ReplicaArg) :
    Ledger (t ++ [(y, answer)]) b := by
  by_cases hp : a.pushes = []
  · rw [step_last a hp, Prod.mk.injEq, Coroutine.Step.yielded.injEq] at hs
    obtain ⟨rfl, rfl⟩ := hs
    have hkept : Accounts t [] { a with
        state := .pendingWrite
        writes := []
        nextCheckpoint := none } := h.congr rfl rfl rfl
    exact .recording rfl (hcounted.trans (t.confirmed_quiet rfl).symm) (hkept.quiet rfl)
  · rw [step_chunk hp, Prod.mk.injEq, Coroutine.Step.yielded.injEq] at hs
    obtain ⟨rfl, rfl⟩ := hs
    let chunk := a.pushes.take PUSH_CHUNK
    have hsplit : chunk ++ a.sent.pushes = a.pushes := List.take_append_drop _ _
    have hrequested : Transcript.requested
        (t ++ [(.wantsPush a.collection chunk, answer)]) = t.requested ++ chunk := by
      rw [Transcript.requested_append]
      simp [Transcript.requested]
    refine .pushing chunk rfl ⟨t, a.collection, answer, rfl, hcounted⟩ ⟨?_, rfl, ?_, ?_, h.placed⟩
    · rw [hrequested]
      exact List.suffix_append _ _
    · rw [hrequested, List.append_assoc, hsplit]
      exact h.once
    · rw [hsplit]
      exact h.balances.congr rfl

theorem mergeAll_pushed (self : ReplicaSync) (cs : List Candidate) :
    (self.mergeAll cs).report.pushed = self.report.pushed := by
  induction cs generalizing self with
  | nil => rfl
  | cons c cs ih => exact (ih (self.mergeCandidate c)).trans (self.mergeCandidate_pushed c)

theorem inFlight_mergeAll (self : ReplicaSync) (cs : List Candidate) :
    (self.mergeAll cs).inFlight = self.inFlight := by
  have h := extend_mergeAll self (ReplicaSync.new self.collection self.opts) cs
  rw [extend_new] at h
  rw [h]
  rfl

/-- Merging a group of candidates keeps the accounts, and the rest fresh. -/
theorem Accounts.mergeAll (h : Accounts t [] a) (hsilent : t.requested = [])
    {group rest : List Candidate} (hf : Fresh a (group ++ rest)) :
    Accounts t [] (a.mergeAll group) ∧ Fresh (a.mergeAll group) rest := by
  induction group generalizing a with
  | nil => exact ⟨h, hf⟩
  | cons c group ih =>
    have hpaired := hf.paired
    have hidle := hf.idle
    obtain ⟨hfirst, hrest⟩ := List.pairwise_cons.mp hf.ascending
    obtain ⟨hbalances, ks, hpushes, hnodup, hnames⟩ := Balances.merge h.balances
      (hpaired c List.mem_cons_self) (hidle c List.mem_cons_self)
    have honce := h.once
    rw [hsilent, List.nil_append] at honce
    have hfresh : ∀ k ∈ ks, k.handle ∉ a.pushes.map (fun k => k.handle) := by
      intro k hk
      rw [hnames k hk]
      exact hidle c List.mem_cons_self
    have hplaced := a.mergeCandidate_placed (hpaired c List.mem_cons_self) h.placed
    refine ih ⟨h.asked, ?_, ?_, hbalances, hplaced⟩ ⟨fun d hd => hpaired d (List.mem_cons_of_mem _ hd),
      hrest, fun d hd => ?_⟩
    · exact (inFlight_mergeAll a [c]).trans h.inFlight
    · rw [hsilent, List.nil_append, hpushes, List.map_append, List.nodup_append]
      refine ⟨honce, hnodup, ?_⟩
      rintro x hx y hy rfl
      obtain ⟨k, hk, rfl⟩ := List.mem_map.mp hy
      exact hfresh k hk hx
    · rw [hpushes, List.map_append, List.mem_append]
      rintro (hin | hin)
      · exact hidle d (List.mem_cons_of_mem _ hd) hin
      · obtain ⟨k, hk, he⟩ := List.mem_map.mp hin
        exact absurd ((hnames k hk).symm.trans he) (hfirst d hd).ne

/-- A merge goes on with the candidates left, or turns to its pushes. -/
theorem Accounts.mergeStep (h : Accounts t [] a) (hsilent : t.requested = [])
    (hcounted : a.report.pushed = t.confirmed) {m : Merge} (hf : Fresh a m.candidates)
    {y : ReplicaYield}
    (hs : (a.mergingAt m).mergeStep = (b, .yielded y)) (answer : ReplicaArg) :
    Ledger (t ++ [(y, answer)]) b := by
  have hwalk := a.mergeStep_walk m
  have hcut := walk_cut m.candidates a
  cases hout : walk m.candidates a with
  | mk out rest =>
    rw [hout] at hwalk hcut
    cases rest with
    | none =>
      dsimp only at hwalk hcut
      rw [hwalk] at hs
      obtain ⟨hmerged, -⟩ := h.mergeAll hsilent
        (by rwa [List.append_nil])
      have hcount := (mergeAll_pushed a m.candidates).trans hcounted
      rw [← hcut] at hmerged hcount
      have hclosed : Accounts t [] (out.closed m.checkpoint) := hmerged.congr rfl rfl rfl
      exact hclosed.step hcount hs answer
    | some rest =>
      obtain ⟨m', -, rfl, hstep⟩ := hwalk
      obtain ⟨group, hcs, -, rfl, -⟩ := hcut
      rw [hcs] at hf
      obtain ⟨hmerged, hfresh⟩ := h.mergeAll hsilent hf
      let full : ReplicaSync := { (a.mergeAll group).mergingAt m' with state := .merging }
      obtain ⟨hstate, hmerging, hpushes⟩ := full.batch_kept
      obtain ⟨hflight, hpend, hreport⟩ := full.batch_awaits
      have hflush : (full.batch.1, Coroutine.Step.yielded (.wantsWrite full.batch.2)) =
          (b, .yielded y) := hstep.symm.trans hs
      rw [Prod.mk.injEq, Coroutine.Step.yielded.injEq] at hflush
      obtain ⟨rfl, rfl⟩ := hflush
      have hkept : Accounts t [] full.batch.1 := hmerged.congr hpushes hflight hpend
      refine .merging hstate ?_ ?_ ?_ (hkept.quiet rfl)
      · rw [Transcript.requested_append, hsilent]
        rfl
      · intro m'' hm
        have hsame : m'' = m' := by
          rw [hmerging] at hm
          exact (Option.some.inj hm).symm
        rw [hsame]
        refine ⟨hfresh.paired, hfresh.ascending, ?_⟩
        rw [hpushes]
        exact hfresh.idle
      · rw [hreport, Transcript.confirmed_append]
        exact (mergeAll_pushed a group).trans hcounted

/-- What is in flight and what is queued is for different handles. -/
theorem Accounts.once_left (h : Accounts t flying a) :
    ((flying ++ a.pushes).map (fun k => k.handle)).Nodup := by
  obtain ⟨answered, hasked⟩ := h.asked
  have hall := h.once
  rw [← hasked, List.append_assoc, List.map_append] at hall
  exact (List.nodup_append.mp hall).2.1

theorem settleChunk_report (a : ReplicaSync) (results : List ReplicaPushResult) :
    (a.settleChunk results).report = (results.foldl settle a).report := by
  have hforget : ∀ (hs : List ReplicaHandle) (b : ReplicaSync),
      (hs.foldl forget b).report = b.report := by
    intro hs
    induction hs with
    | nil => exact fun b => rfl
    | cons h hs ih => exact fun b => ih (b.forget h)
  exact hforget _ _

/-- A serviced push whose results accept no queued change takes its chunk off the accounts, and
counts those of it that were accepted. -/
theorem Accounts.serviced (h : Accounts t flying a) {results : List ReplicaPushResult}
    (hspare : ∀ r ∈ results, r.outcome = .accepted → r.handle ∉ a.pushes.map (fun k => k.handle)) :
    Accounts t [] { a.settleChunk results with state := .pendingWrite } ∧
      (a.settleChunk results).report.pushed = a.report.pushed +
        flying.countP (fun k => results.any (fun r => r.confirms k.handle)) := by
  obtain ⟨-, hpushes, -, -, hpend⟩ := a.settleChunk_spec results
  rw [h.inFlight] at hpend
  have honce := h.once_left
  refine ⟨⟨List.nil_suffix, rfl, ?_, ?_, fun g => ?_⟩, ?_⟩
  · dsimp only
    rw [hpushes]
    exact h.once
  · dsimp only
    rw [hpushes]
    exact h.balances.serviced honce hspare hpend
  · have hg : (pendingAt { a.settleChunk results with state := .pendingWrite } g) =
        Outbox.forget (Outbox.settleAll a.collection a.pendingAt results).1
          (flying.map (fun k => k.handle)) g := congrFun hpend g
    rw [hg, Outbox.forget]
    split
    · exact .none g
    · rcases (Outbox.settleAll_mem a.collection a.pendingAt results).1 g with hl | hl
      · rw [hl]
        exact h.placed g
      · rw [hl]
        exact .none g
  · have hqueued : a.pushes.countP (fun k => results.any (fun r => r.confirms k.handle)) = 0 := by
      rw [List.countP_eq_zero]
      intro k hk hany
      obtain ⟨r, hr, hc⟩ := List.any_eq_true.mp hany
      obtain ⟨ho, hh⟩ := of_decide_eq_true hc
      exact hspare r hr ho (hh ▸ List.mem_map_of_mem hk)
    rw [settleChunk_report, settleAll_pushed results a h.balances honce, List.countP_append, hqueued,
      Nat.add_zero]

/-- One resume keeps the ledger, where the results it is answered with accept no queued change. -/
theorem Ledger.resume {x : Option ReplicaArg} (h : Ledger t a)
    (hlast : ∀ pre e, t = pre ++ [e] → x = some e.2)
    (hspare : ∀ results, a.state = .pendingPush → x = some (.push results) →
      ∀ r ∈ results, r.outcome = .accepted → r.handle ∉ a.pushes.map (fun k => k.handle))
    {y : ReplicaYield} (hr : a.resume x = (b, .yielded y)) (answer : ReplicaArg) :
    Ledger (t ++ [(y, answer)]) b := by
  cases h with
  | opening state keyed silent queued counted accounts =>
    rcases state with hs | hs | hs
    · rcases x with _ | x
      · simp only [ReplicaSync.resume, hs, Prod.mk.injEq, Coroutine.Step.yielded.injEq] at hr
        obtain ⟨rfl, rfl⟩ := hr
        have hkept : Accounts t [] { a with state := .pendingLoad } := accounts.congr rfl rfl rfl
        refine .opening (Or.inr (Or.inl rfl)) keyed ?_ queued
          (counted.trans (t.confirmed_quiet rfl).symm) (hkept.quiet rfl)
        rw [Transcript.requested_append, silent]
        rfl
      · simp [ReplicaSync.resume, hs] at hr
    · rcases x with _ | x
      · simp [ReplicaSync.resume, hs] at hr
      · cases x with
        | load loaded =>
          simp only [ReplicaSync.resume, hs, Prod.mk.injEq, Coroutine.Step.yielded.injEq] at hr
          obtain ⟨rfl, rfl⟩ := hr
          have hkept : Accounts t [] { a with
              loc := collectPlacements loaded.placements
              checkpoint := if a.opts.full then none else loaded.checkpoint
              state := .pendingEnumerate } := accounts.congr rfl rfl rfl
          refine .opening (Or.inr (Or.inr rfl)) ⟨CollectionRows.ofLoad loaded.placements, rfl⟩ ?_
            queued (counted.trans (t.confirmed_quiet rfl).symm) (hkept.quiet rfl)
          rw [Transcript.requested_append, silent]
          rfl
        | enumerate | fetch | push | write | lookupObject => simp [ReplicaSync.resume, hs] at hr
    · rcases x with _ | x
      · simp [ReplicaSync.resume, hs] at hr
      · cases x with
        | enumerate snapshot =>
          simp only [ReplicaSync.resume, hs] at hr
          obtain ⟨s, hkeyed⟩ := keyed
          have hopen : a.openMerge snapshot =
              ({ a with loc := ∅ } : ReplicaSync).mergingAt (Merge.between s.rows snapshot) := by
            rw [← hkeyed]
            rfl
          rw [hopen] at hr
          obtain ⟨hasc, hpaired, -⟩ := Merge.candidates_spec s snapshot
          have hkept : Accounts t [] { a with loc := ∅ } := accounts.congr rfl rfl rfl
          refine hkept.mergeStep silent counted ⟨hpaired, hasc, ?_⟩ hr answer
          dsimp only
          rw [queued]
          simp
        | load | fetch | push | write | lookupObject => simp [ReplicaSync.resume, hs] at hr
  | merging state silent fresh counted accounts =>
    rcases x with _ | x
    · simp [ReplicaSync.resume, state] at hr
    · cases x with
      | write =>
        simp only [ReplicaSync.resume, state] at hr
        cases hm : a.merging with
        | none =>
          simp only [ReplicaSync.mergeStep, hm, Option.elim_none, mergeLoop, closeMerge] at hr
          have hkept : Accounts t [] a.panic := accounts.congr rfl rfl rfl
          exact hkept.step counted hr answer
        | some m =>
          have hat : a.mergingAt m = a := by rw [mergingAt, ← hm]
          rw [← hat] at hr
          exact accounts.mergeStep silent counted (fresh m hm) hr answer
      | load | enumerate | fetch | push | lookupObject => simp [ReplicaSync.resume, state] at hr
  | pushing flying state asks accounts =>
    rcases x with _ | x
    · simp [ReplicaSync.resume, state] at hr
    · cases x with
      | push results =>
        simp only [ReplicaSync.resume, state, Prod.mk.injEq, Coroutine.Step.yielded.injEq] at hr
        obtain ⟨rfl, rfl⟩ := hr
        let recorded : ReplicaSync := { a.settleChunk results with state := .pendingWrite }
        obtain ⟨hkept, hpushed⟩ := accounts.serviced (hspare results state rfl)
        obtain ⟨hstate, -, hpushes⟩ := recorded.batch_kept
        obtain ⟨hflight, hpend, hreport⟩ := recorded.batch_awaits
        obtain ⟨pre, coll, given, rfl, hcounted⟩ := asks
        have hgiven := hlast pre _ rfl
        rw [Option.some.injEq] at hgiven
        subst hgiven
        refine .recording hstate ?_ ((hkept.congr hpushes hflight hpend).quiet rfl)
        rw [hreport, Transcript.confirmed_append, Transcript.confirmed_append, ← hcounted]
        exact hpushed
      | load | enumerate | fetch | write | lookupObject => simp [ReplicaSync.resume, state] at hr
  | recording state counted accounts =>
    rcases x with _ | x
    · simp [ReplicaSync.resume, state] at hr
    · cases x with
      | write =>
        cases hp : a.pushes.isEmpty with
        | true => simp [ReplicaSync.resume, state, hp] at hr
        | false =>
          simp only [ReplicaSync.resume, state, hp, Bool.false_eq_true, if_false] at hr
          exact accounts.step counted hr answer
      | load | enumerate | fetch | push | lookupObject => simp [ReplicaSync.resume, state] at hr

/-- A run whose push results name only handles in flight keeps its ledger. -/
theorem Ledger.of_reaches {collection : ReplicaCollectionId} {opts : ReplicaSyncOptions}
    {x : Option ReplicaArg} (h : Coroutine.Reaches ReplicaSync.resume (ReplicaSync.new collection opts) none t a x)
    (hflight : t.InFlight) : Ledger t a := by
  have hinvariant := h.invariant (t := [])
    (I := fun u c y => (∀ pre e, u = pre ++ [e] → y = some e.2) ∧ (Transcript.InFlight u → Ledger u c))
    ?_ ⟨fun pre e he => absurd he (by simp), fun _ => .new collection opts⟩
  · exact hinvariant.2 hflight
  · rintro u c c' y req answer ⟨hlast, hledger⟩ hr
    refine ⟨fun pre e he => ?_, fun hnamed => ?_⟩
    · obtain ⟨-, hb⟩ := List.append_inj' he rfl
      rw [← (List.cons.inj hb).1]
    · have hbefore : Transcript.InFlight u := by
        intro e he
        refine hnamed e ?_
        rw [Transcript.pushes, List.filterMap_append]
        exact List.mem_append_left _ he
      refine (hledger hbefore).resume hlast ?_ hr answer
      rintro results hstate rfl r hrr -
      cases hledger hbefore with
      | opening state => simp [hstate] at state
      | merging state => simp [hstate] at state
      | recording state => simp [hstate] at state
      | pushing flying _ asks accounts =>
        obtain ⟨pre, coll, given, rfl, -⟩ := asks
        have hgiven := hlast pre _ rfl
        rw [Option.some.injEq] at hgiven
        subst hgiven
        have hin : r.handle ∈ flying.map (fun k => k.handle) := by
          refine hbefore (flying, results) ?_ r hrr
          rw [Transcript.pushes, List.filterMap_append]
          exact List.mem_append_right _ (List.mem_singleton_self _)
        have hleft := accounts.once_left
        rw [List.map_append, List.nodup_append] at hleft
        exact fun hq => hleft.2.2 _ hin _ hq rfl

end Steps

/-- The four pending maps are keyed apart, by the handles of these changes and no other, each in the
map of its change's kind. -/
structure Tallies (a : ReplicaSync) (ks : List ReplicaChange) : Prop where
  kept : ∀ k ∈ ks, a.Holds k.kind.awaitedIn k.handle
  apart : ∀ m n h, a.Holds m h → a.Holds n h → m = n
  owed : ∀ h, (∃ m, a.Holds m h) ↔ h ∈ ks.map (fun k => k.handle)

theorem Balances.tallies {a : ReplicaSync} {ks : List ReplicaChange} (h : Balances a ks)
    (hnodup : (ks.map (fun k => k.handle)).Nodup) : Tallies a ks := by
  have hkeys : ∀ m g, a.Holds m g ↔ ∃ k ∈ ks, k.handle = g ∧ k.kind.awaitedIn = m :=
    fun m g => (a.holds_iff m g).trans (h m g)
  refine ⟨fun k hk => (hkeys _ _).mpr ⟨k, hk, rfl, rfl⟩, ?_, fun g => ?_⟩
  · intro m n g hm hn
    obtain ⟨k, hk, rfl, rfl⟩ := (hkeys m g).mp hm
    obtain ⟨l, hl, he, rfl⟩ := (hkeys n k.handle).mp hn
    rw [List.inj_on_of_nodup_map hnodup hl hk he]
  · constructor
    · rintro ⟨m, hm⟩
      obtain ⟨k, hk, rfl, -⟩ := (hkeys m g).mp hm
      exact List.mem_map_of_mem hk
    · intro hg
      obtain ⟨k, hk, rfl⟩ := List.mem_map.mp hg
      exact ⟨_, (hkeys _ _).mpr ⟨k, hk, rfl, rfl⟩⟩

theorem Waits.asks {out b : ReplicaSync} {step : Step} {bound : ℕ ×ₗ ℕ}
    {r : Except ReplicaArgError ReplicaSyncReport} (h : Waits (out, step) bound)
    (hs : (out, step) = (b, .complete r)) : False := by
  rw [hs] at h
  exact h

/-- A run only completes on the write after its last chunk. -/
theorem resume_ok {a b : ReplicaSync} {x : Option ReplicaArg} {report : ReplicaSyncReport}
    (hr : a.resume x = (b, .complete (.ok report))) :
    a.state = .pendingWrite ∧ x = some .write ∧ a.pushes = [] ∧ report = a.report ∧
      b = { a with state := .done, report := .default } := by
  have hmerge : ∀ c : ReplicaSync, c.mergeStep ≠ (b, .complete (.ok report)) :=
    fun c hc => (mergeLoop_waits (c.merging.elim 0 (·.join.size)) c _ le_rfl).asks hc
  rcases x with - | x
  · cases hs : a.state <;> simp [ReplicaSync.resume, hs] at hr
  · cases hs : a.state with
    | start | pendingLoad | pendingPush | done =>
      cases x <;> simp [ReplicaSync.resume, hs] at hr
    | pendingEnumerate =>
      cases x with
      | enumerate snapshot =>
        simp only [ReplicaSync.resume, hs] at hr
        exact absurd hr (hmerge _)
      | load | fetch | push | write | lookupObject => simp [ReplicaSync.resume, hs] at hr
    | merging =>
      cases x with
      | write =>
        simp only [ReplicaSync.resume, hs] at hr
        exact absurd hr (hmerge _)
      | load | enumerate | fetch | push | lookupObject => simp [ReplicaSync.resume, hs] at hr
    | pendingWrite =>
      cases x with
      | write =>
        cases hp : a.pushes with
        | nil =>
          simp only [ReplicaSync.resume, hs, hp, List.isEmpty_nil, if_true, Prod.mk.injEq,
            Coroutine.Step.complete.injEq, Except.ok.injEq] at hr
          exact ⟨rfl, rfl, rfl, hr.2.symm, hr.1.symm⟩
        | cons k ks =>
          simp only [ReplicaSync.resume, hs, hp, List.isEmpty_cons, Bool.false_eq_true,
            if_false] at hr
          exact ((a.step_waits 0).asks hr).elim
      | load | enumerate | fetch | push | lookupObject => simp [ReplicaSync.resume, hs] at hr

/-- A run that completes is left with nothing queued, in flight or awaited. -/
theorem Ledger.completed {t : Transcript} {a b : ReplicaSync} (h : Ledger t a)
    {x : Option ReplicaArg} {report : ReplicaSyncReport}
    (hr : a.resume x = (b, .complete (.ok report))) :
    b.pushes = [] ∧ b.inFlight = [] ∧ ∀ g, b.pendingAt g = .none := by
  obtain ⟨hs, -, hp, -, rfl⟩ := resume_ok hr
  cases h with
  | recording _ _ accounts =>
    have hbalances := accounts.balances
    rw [hp] at hbalances
    exact ⟨hp, accounts.inFlight, fun g => hbalances.idle (by simp)⟩
  | opening state => simp [hs] at state
  | merging state => simp [hs] at state
  | pushing _ state => simp [hs] at state

/-- Wherever a run stands, no handle has two changes, and the pending maps tally with the changes in
flight and the ones queued; a run that completes is left with none. -/
theorem pending_tallies {collection : ReplicaCollectionId} {opts : ReplicaSyncOptions}
    {t : Transcript} {a : ReplicaSync} {x : Option ReplicaArg}
    (h : Coroutine.Reaches resume (new collection opts) none t a x) (hflight : t.InFlight) :
    ((t.requested ++ a.pushes).map (fun k => k.handle)).Nodup ∧
    (∃ flying, a.inFlight = flying.map (fun k => k.handle) ∧
      (if a.state = .pendingPush then
        ∃ u c answer, t = u ++ [(.wantsPush c flying, answer)] else flying = []) ∧
      Tallies a (flying ++ a.pushes)) ∧
    ∀ b report, a.resume x = (b, .complete (.ok report)) →
      b.pushes = [] ∧ b.inFlight = [] ∧ Tallies b [] := by
  have hledger := Ledger.of_reaches h hflight
  refine ⟨?_, ?_, ?_⟩
  · obtain ⟨flying, haccounts⟩ := hledger.accounts
    exact haccounts.once
  · cases hledger with
    | opening state _ _ _ _ accounts =>
      refine ⟨[], accounts.inFlight, ?_, accounts.balances.tallies accounts.once_left⟩
      rcases state with hs | hs | hs <;> simp [hs]
    | merging state _ _ _ accounts =>
      exact ⟨[], accounts.inFlight, by simp [state], accounts.balances.tallies accounts.once_left⟩
    | pushing flying state asks accounts =>
      refine ⟨flying, accounts.inFlight, ?_, accounts.balances.tallies accounts.once_left⟩
      rw [if_pos state]
      obtain ⟨u, c, answer, ht, -⟩ := asks
      exact ⟨u, c, answer, ht⟩
    | recording state _ accounts =>
      exact ⟨[], accounts.inFlight, by simp [state], accounts.balances.tallies accounts.once_left⟩
  · intro b report hr
    obtain ⟨hpushes, hflights, hidle⟩ := hledger.completed hr
    exact ⟨hpushes, hflights, (Balances.nil hidle).tallies List.nodup_nil⟩

section Runs

/-- A run of sixty-six changes whose first chunk has just been answered: what it awaits, in all four
maps, tallies with that chunk and the two changes left. -/
theorem pending_tallies_crowded : ∃ (t : Transcript) (a : ReplicaSync) (x : Option ReplicaArg),
    t.requested.map (·.kind) = crowdedChunks.headD [] ∧
    Coroutine.Reaches resume (new ⟨"contacts"⟩ .default) none t a x ∧
    ((t.requested ++ a.pushes).map (fun k => k.handle)).Nodup ∧
    ∃ flying, a.inFlight = flying.map (fun k => k.handle) ∧
      (if a.state = .pendingPush then
        ∃ u c answer, t = u ++ [(.wantsPush c flying, answer)] else flying = []) ∧
      Tallies a (flying ++ a.pushes) := by
  have hrun : (crowded.sync 9 ⟨"contacts"⟩ .default).map (fun o =>
      (decide (Transcript.InFlight (o.2.take 3)), (Transcript.requested (o.2.take 3)).map (·.kind))) =
      some (true, crowdedChunks.headD []) := by decide +kernel
  obtain ⟨⟨s, t⟩, hd, heq⟩ := Option.map_eq_some_iff.mp hrun
  simp only [Prod.mk.injEq, decide_eq_true_eq] at heq
  obtain ⟨hflight, hkinds⟩ := heq
  obtain ⟨⟨rest, report, -, hruns⟩, -⟩ := Seam.sync_syncs hd
  rw [← List.take_append_drop 3 t] at hruns
  obtain ⟨a, x, hreach, -⟩ := hruns.reaches
  have htallies := pending_tallies hreach hflight
  exact ⟨t.take 3, a, x, hkinds, hreach, htallies.1, htallies.2.1⟩

end Runs

end ReplicaSync
end IoReplica

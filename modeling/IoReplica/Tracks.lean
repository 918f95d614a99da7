import IoReplica.Exchanged
import IoReplica.MemStorage
import IoReplica.Rooted

/-! What a replica's cursors are worth: whatever its calls do, and whatever others do at the server,
the delta since a stored cursor and the based rows beside it tell every member there is. -/
namespace IoReplica

open MemRemote
open Tracking (Tracked)

namespace Stored

variable {s : Stored} {c d : ReplicaCollectionId} {g : ReplicaHandle} {ops : List ReplicaWriteOp}

/-- The handles of a collection whose rows have a base. -/
def based (s : Stored) (c : ReplicaCollectionId) : Set ReplicaHandle := {g | Based (s.row c g)}

/-- A batch of one collection's writes leaves the rows of the others. -/
theorem row_apply_own (hops : ∀ op ∈ ops, op.collection = some c) :
    (s.apply ops).row d g = if d = c then rowAfter g (s.row c g) ops else s.row d g := by
  rw [row, apply_rows, s.rows.apply_rows hops]
  split
  · rename_i hd
    rw [hd, Function.update_self, CollectionRows.get_apply]
    rfl
  · rename_i hd
    rw [Function.update_of_ne hd]
    rfl

/-- The writes leave each row they name as based as it stands. -/
def KeepsBased (s : Stored) (ops : List ReplicaWriteOp) : Prop :=
  ∀ op ∈ ops, op.collection = none ∨ ∃ q, op = .upsertPlacement q ∧
    (q.base.isSome ↔ Based (s.row q.collection q.handle))

theorem based_apply (h : s.KeepsBased ops) (c : ReplicaCollectionId) :
    (s.apply ops).based c = s.based c := by
  suffices hall : ∀ s' : Stored, (∀ d g, Based (s'.row d g) ↔ Based (s.row d g)) →
      ∀ d g, Based ((s'.apply ops).row d g) ↔ Based (s.row d g) from
    Set.ext (hall s (fun _ _ => Iff.rfl) c)
  induction ops with
  | nil => exact fun s' hs' => hs'
  | cons op ops ih =>
    intro s' hs'
    have hrest := List.forall_mem_cons.mp h
    refine ih hrest.2 (s'.write op) (fun d g => ?_)
    have hrow : (s'.write op).row d g = (s'.apply [op]).row d g := rfl
    rw [hrow]
    rcases hrest.1 with hnone | ⟨q, rfl, hq⟩
    · have hsame : (s'.apply [op]).row d g = s'.row d g := by
        cases op with
        | storeObject => rfl
        | upsertPlacement | dropPlacement | setCheckpoint => cases hnone
      rw [hsame]
      exact hs' d g
    · rw [row_apply_own (c := q.collection) (List.forall_mem_singleton.mpr rfl), rowAfter_upsert,
        rowAfter_nil]
      split
      · rename_i hd
        split
        · rename_i hg
          rw [based_some, hq, hd, hg]
        · rw [hd]
          exact hs' _ g
      · exact hs' d g

end Stored

section Tracks

variable {s s' : Stored} {w w' w₁ : MemRemote} {c : ReplicaCollectionId} {g : ReplicaHandle}
  {held held' : Set ReplicaHandle}

theorem mem_live (w : MemRemote) (c : ReplicaCollectionId) (g : ReplicaHandle) :
    g ∈ (w.track c).live ↔ (w.member ⟨c, g⟩).isSome := by
  rw [Tracked.live, Set.mem_ofPred_eq, track, Option.isSome_map]

/-- A set of handles went along with the members of a server: what it gave up was gone at some
point, and what it took in was there at some point. -/
structure Follows (w w' : MemRemote) (c : ReplicaCollectionId) (held held' : Set ReplicaHandle) :
    Prop where
  gives : ∀ g ∈ held, g ∉ held' → GoneWithin w w' ⟨c, g⟩
  takes : ∀ g ∈ held', g ∉ held → LiveWithin w w' ⟨c, g⟩

/-- A mirror that followed its server is still one. -/
theorem Follows.mirrors (h : Follows w w' c held held') (hw : Elsewhere w w') {n : ℕ}
    (hm : (w.track c).Mirrors n held) (hn : n ≤ w.seq) : (w'.track c).Mirrors n held' := by
  refine hm.later hn ((Elsewhere.leads hw).later c) (fun g hg hnot => ?_) (fun g hg hnot => ?_)
  · obtain ⟨v, hv, hgone, hv'⟩ := h.gives g hg hnot
    exact ⟨v.track c, (Elsewhere.leads hv).later c, Option.map_eq_none_iff.mpr hgone,
      (Elsewhere.leads hv').later c⟩
  · obtain ⟨v, hv, hlive, hv'⟩ := h.takes g hg hnot
    exact ⟨v.track c, (Elsewhere.leads hv).later c, Option.isSome_map.trans hlive,
      (Elsewhere.leads hv').later c⟩

theorem Follows.refl (w w' : MemRemote) (c : ReplicaCollectionId) (held : Set ReplicaHandle) :
    Follows w w' c held held := ⟨fun _ hg hnot => absurd hg hnot, fun _ hg hnot => absurd hg hnot⟩

/-- What a run takes a server to hold is what it holds, as long as the rows mirror it since the
cursor. -/
theorem enumerate_taken {rows : HandleMap ReplicaPlacement} {cursor : Option ReplicaCheckpoint}
    (h : ∀ n, since cursor = some n → (w.track c).Mirrors n {g | Based rows[g]?}) :
    taken rows (w.enumerate c cursor).2 = (w.track c).live := by
  ext g
  cases hs : since cursor with
  | none =>
    obtain ⟨hcomplete, hreported⟩ := enumerate_full (w := w) (c := c) hs
    rw [← hreported g]
    have hgone : (w.enumerate c cursor).2.Gone g ↔ (w.enumerate c cursor).2.reported g = none := by
      simp [ReplicaRemoteSnapshot.Gone, hcomplete]
    rw [taken, Set.mem_ofPred_eq, hgone, ← ne_eq, ← Option.isSome_iff_ne_none]
    exact ⟨fun hg => hg.1, fun hg => ⟨hg, Or.inl hg⟩⟩
  | some n =>
    obtain ⟨hcomplete, hreported, hvanished⟩ := enumerate_delta (w := w) (c := c) hs
    have hgone : (w.enumerate c cursor).2.Gone g ↔ g ∈ (w.track c).vanished n := by
      rw [← hvanished g]
      simp [ReplicaRemoteSnapshot.Gone, hcomplete]
    rw [taken, Set.mem_ofPred_eq, hgone, hreported g, ← (h n hs).delta]
    constructor
    · rintro ⟨hkept, hchanged | hheld⟩
      · exact Or.inr hchanged
      · exact Or.inl ⟨hheld, hkept⟩
    · rintro (⟨hheld, hkept⟩ | hchanged)
      · exact ⟨hkept, Or.inr hheld⟩
      · refine ⟨fun hgone => ?_, Or.inl hchanged⟩
        obtain ⟨m, hm, -⟩ := hchanged
        rw [hgone.1] at hm
        cases hm

/-- A store keeps track of a server: its rows are rooted, and those with a base mirror the members of
each collection since the cursor stored for it. -/
structure Tracks (s : Stored) (w : MemRemote) : Prop where
  plain : w.AllPlain
  rooted : s.All (fun _ => Rooted)
  named : ∀ c, ∀ g ∈ s.based c, g.Plain
  mirrors : ∀ c n, since (s.checkpoints c) = some n →
    n ≤ w.seq ∧ (w.track c).Mirrors n (s.based c)

/-- A server moved on under a store whose based rows and cursors stay is still kept track of. -/
theorem Tracks.stays (h : Tracks s w) (hw : Elsewhere w w') (hrooted : s'.All (fun _ => Rooted))
    (hbased : ∀ c, s'.based c = s.based c) (hcursors : s'.checkpoints = s.checkpoints) :
    Tracks s' w' := by
  have hplain := (Elsewhere.leads hw).plain h.plain
  refine ⟨hplain, hrooted, fun c g hg => h.named c g (hbased c ▸ hg), fun c n hn => ?_⟩
  obtain ⟨hle, hmirrors⟩ := h.mirrors c n (hcursors ▸ hn)
  rw [hbased c]
  exact ⟨hle.trans ((Elsewhere.leads hw).later c).clock,
    (Follows.refl w w' c _).mirrors hw hmirrors hle⟩

/-- The members a run takes the server to hold are those it held when it enumerated them. -/
theorem Tracks.taken_live (h : Tracks s w) (hw : Elsewhere w w₁) (c : ReplicaCollectionId)
    (opts : ReplicaSyncOptions) :
    taken (s.rows.rows c).rows (w₁.enumerate c (if opts.full then none else s.checkpoints c)).2 =
      (w₁.track c).live := by
  refine enumerate_taken (fun n hn => ?_)
  split at hn
  · cases hn
  · obtain ⟨hle, hmirrors⟩ := h.mirrors c n hn
    exact (Follows.refl w w₁ c _).mirrors hw hmirrors hle

namespace SyncsWithin

variable {opts : ReplicaSyncOptions} {u v : Transcript}

theorem row (h : SyncsWithin s w₁ w' c opts u v) (d : ReplicaCollectionId) (g : ReplicaHandle) :
    (s.apply u.writes).row d g = if d = c then rowAfter g (s.row c g) u.writes else s.row d g := by
  refine Stored.row_apply_own (fun op hop => ?_)
  refine h.syncs.within rfl (s.rows.placed c) op ?_
  rw [Transcript.writes, List.flatMap_append]
  exact List.mem_append_left _ hop

theorem based_of_ne (h : SyncsWithin s w₁ w' c opts u v) {d : ReplicaCollectionId} (hd : d ≠ c) :
    (s.apply u.writes).based d = s.based d := by
  ext g
  rw [Stored.based, Stored.based, Set.mem_ofPred_eq, Set.mem_ofPred_eq, h.row, if_neg hd]

/-- A run, as far as it got, follows the server. -/
theorem follows (h : SyncsWithin s w₁ w' c opts u v) (hs : Tracks s w) (hw : Elsewhere w w₁) :
    Follows w w' c (s.based c) ((s.apply u.writes).based c) := by
  have hfar := h.syncs.based_so_far
  have hlive := hs.taken_live hw c opts
  simp only [CollectionRows.collect_placements, hlive, mem_live] at hfar
  refine ⟨fun g hg hnot => ?_, fun g hg hnot => ?_⟩
  · rw [Stored.based, Set.mem_ofPred_eq, h.row, if_pos rfl] at hnot
    by_cases hmember : (w₁.member ⟨c, g⟩).isSome
    · rcases (hfar g).2 (hs.named c g hg) hg hmember with hbased | hremoved
      · exact absurd hbased hnot
      · exact (h.removed g hremoved).widen hw .refl
    · exact ⟨w₁, hw, Option.not_isSome_iff_eq_none.mp hmember, h.after⟩
  · rw [Stored.based, Set.mem_ofPred_eq, h.row, if_pos rfl] at hg
    rcases (hfar g).1 hg with hbased | hmember | hassigned
    · exact absurd hbased hnot
    · exact ⟨w₁, hw, hmember, h.after⟩
    · exact (h.assigned g hassigned).widen hw .refl

theorem whole (h : SyncsWithin s w₁ w' c opts u []) :
    Syncs c opts ⟨(s.rows.rows c).placements, s.checkpoints c⟩
      (w₁.enumerate c (if opts.full then none else s.checkpoints c)).2 u := by
  have hsync := h.syncs
  rwa [List.append_nil] at hsync

/-- A whole run takes over the members of the server, and follows them from there. -/
theorem follows_live (h : SyncsWithin s w₁ w' c opts u []) (hs : Tracks s w) (hw : Elsewhere w w₁) :
    Follows w₁ w' c (w₁.track c).live ((s.apply u.writes).based c) := by
  have hwhole := h.whole.based
  have hlive := hs.taken_live hw c opts
  simp only [CollectionRows.collect_placements, hlive] at hwhole
  refine ⟨fun g hg hnot => ?_, fun g hg hnot => ?_⟩
  · rw [Stored.based, Set.mem_ofPred_eq, h.row, if_pos rfl] at hnot
    have hplain := (Elsewhere.leads hw).plain hs.plain ⟨c, g⟩ ((mem_live w₁ c g).mp hg)
    rcases (hwhole g).2 hplain hg with hbased | hremoved
    · exact absurd hbased hnot
    · exact h.removed g hremoved
  · rw [Stored.based, Set.mem_ofPred_eq, h.row, if_pos rfl] at hg
    rcases (hwhole g).1 hg with hmember | hassigned
    · exact absurd hmember hnot
    · exact h.assigned g hassigned

theorem rooted (h : SyncsWithin s w₁ w' c opts u v) (hs : s.All (fun _ => Rooted)) :
    (s.apply u.writes).All (fun _ => Rooted) := by
  have hbatches : Transcript.batches (u ++ v) = Transcript.batches u ++ Transcript.batches v :=
    List.filterMap_append
  have hkept := rooted_kept.synced h.syncs hbatches hs
  rwa [Transcript.flatten_batches] at hkept

theorem named (h : SyncsWithin s w₁ w' c opts u v) (hs : Tracks s w) (hw : Elsewhere w w₁)
    (d : ReplicaCollectionId) : ∀ g ∈ (s.apply u.writes).based d, g.Plain := by
  intro g hg
  by_cases hold : g ∈ s.based d
  · exact hs.named d g hold
  · by_cases hd : d = c
    · subst hd
      exact ((h.follows hs hw).takes g hg hold).plain hs.plain
    · rw [h.based_of_ne hd] at hg
      exact absurd hg hold

/-- A mirror of another collection is still one. -/
theorem mirrors_of_ne (h : SyncsWithin s w₁ w' c opts u v) (hs : Tracks s w) (hw : Elsewhere w w₁)
    {d : ReplicaCollectionId} (hd : d ≠ c) {n : ℕ} (hn : since (s.checkpoints d) = some n) :
    n ≤ w'.seq ∧ (w'.track d).Mirrors n ((s.apply u.writes).based d) := by
  obtain ⟨hle, hmirrors⟩ := hs.mirrors d n hn
  have hw' := hw.trans h.after
  rw [h.based_of_ne hd]
  exact ⟨hle.trans ((Elsewhere.leads hw').later d).clock,
    (Follows.refl w w' d _).mirrors hw' hmirrors hle⟩

end SyncsWithin

/-- A whole run sets its collection's checkpoint to the one it enumerated, and no other. -/
theorem Syncs.checkpoints {opts : ReplicaSyncOptions} {loaded : ReplicaLoaded}
    {snapshot : ReplicaRemoteSnapshot} {t : Transcript} (h : Syncs c opts loaded snapshot t)
    (s : Stored) : (s.apply t.writes).checkpoints =
      Function.update s.checkpoints c (some snapshot.checkpoint) := by
  obtain ⟨v, ops, rfl, hrows⟩ := h.closes
  have hwrites : Transcript.writes (v ++ [written (ops ++ [.setCheckpoint c snapshot.checkpoint])]) =
      (Transcript.writes v ++ ops) ++ [.setCheckpoint c snapshot.checkpoint] := by
    rw [Transcript.writes, List.flatMap_append, List.flatMap_singleton]
    exact (List.append_assoc _ _ _).symm
  have hbefore : (s.apply (Transcript.writes v ++ ops)).checkpoints = s.checkpoints :=
    s.apply_checkpoints_rows hrows
  rw [hwrites, Stored.apply_append, ← hbefore]
  rfl

namespace SyncLeaves

variable {opts : ReplicaSyncOptions} {ok : Bool}

/-- A sync keeps track of its server, however far it gets and whatever others do meanwhile. -/
theorem tracks (h : SyncLeaves s w c opts ok s' w') (hs : Tracks s w) : Tracks s' w' := by
  cases h with
  | nothing turns =>
    exact hs.stays turns hs.rooted (fun _ => rfl) rfl
  | @wrote w₁ _ u v ok turns within whole cut =>
    have hw' := turns.trans within.after
    have hplain := (Elsewhere.leads hw').plain hs.plain
    refine ⟨hplain, within.rooted hs.rooted, within.named hs turns, fun d n hn => ?_⟩
    cases ok with
    | false =>
      have hcursors : (s.apply u.writes).checkpoints = s.checkpoints :=
        s.apply_checkpoints_rows (cut rfl)
      rw [hcursors] at hn
      by_cases hd : d = c
      · subst hd
        obtain ⟨hle, hmirrors⟩ := hs.mirrors d n hn
        exact ⟨hle.trans ((Elsewhere.leads hw').later d).clock,
          (within.follows hs turns).mirrors hw' hmirrors hle⟩
      · exact within.mirrors_of_ne hs turns hd hn
    | true =>
      obtain rfl := whole rfl
      have hcursors := within.whole.checkpoints s
      rw [hcursors] at hn
      by_cases hd : d = c
      · subst hd
        rw [Function.update_self] at hn
        obtain rfl := since_checkpoint hn
        have hmirrors := Tracked.Mirrors.live (w₁.track d)
        exact ⟨((Elsewhere.leads within.after).later d).clock,
          (within.follows_live hs turns).mirrors within.after hmirrors le_rfl⟩
      · rw [Function.update_of_ne hd] at hn
        exact within.mirrors_of_ne hs turns hd hn

/-- A sync that succeeded left the based rows the server's members as it enumerated them, and followed
them from there. -/
theorem follows (h : SyncLeaves s w c opts true s' w') (hs : Tracks s w) :
    ∃ w₁ t, Elsewhere w w₁ ∧ Elsewhere w₁ w' ∧
      Syncs c opts ⟨(s.rows.rows c).placements, s.checkpoints c⟩
        (w₁.enumerate c (if opts.full then none else s.checkpoints c)).2 t ∧
      s' = s.apply t.writes ∧ Follows w₁ w' c (w₁.track c).live (s'.based c) := by
  cases h with
  | @wrote w₁ _ u v ok turns within whole =>
    obtain rfl := whole rfl
    exact ⟨w₁, u, turns, within.after, within.whole, rfl, within.follows_live hs turns⟩

end SyncLeaves

end Tracks

/-- The call keeps to the handles there are: it rebuilds no handle space, and mints its creates under
handles of no based row. -/
def ReplicaCall.Stays (s : Stored) : ReplicaCall → Prop
  | .open _ | .upgrade .. | .sync .. => True
  | .mutate c (.add handle ..) => handle ∉ s.based c
  | .mutate _ (.copy _ target placeholder) => placeholder ∉ s.based target
  | .mutate _ (.move _ target placeholder) => placeholder ∉ s.based target
  | .mutate _ (.setFlags ..) | .mutate _ (.remove _) | .mutate _ (.edit ..) => True
  | .rekey _ => False

namespace ReplicaCall

variable {s : Stored}

open ReplicaMutate in
/-- Staging a mutation leaves every row as based as it was. -/
theorem staged_based {c : ReplicaCollectionId} {mutation : ReplicaMutation} {loaded : ReplicaLoaded}
    {ops : List ReplicaWriteOp} (hstays : (ReplicaCall.mutate c mutation).Stays s)
    (hrooted : s.All (fun _ => Rooted)) (hloads : s.Loads c mutation.scope loaded)
    (h : Stages c loaded mutation ops) : s.KeepsBased ops := by
  have hcreate : ∀ q : ReplicaPlacement, q.base = none → q.handle ∉ s.based q.collection →
      (q.base.isSome ↔ Based (s.row q.collection q.handle)) := by
    intro q hb hnot
    rw [hb]
    exact ⟨fun hbase => (by cases hbase), fun hbased => absurd hbased hnot⟩
  cases h with
  | add handle linkId flags object body metadata sortKey =>
    refine List.forall_mem_cons.mpr ⟨Or.inl rfl, List.forall_mem_singleton.mpr (Or.inr ⟨_, rfl, ?_⟩)⟩
    exact hcreate _ rfl hstays
  | @source _ g p names found =>
    have hp := hloads.stored p (List.mem_of_find?_eq_some found)
    have hplaced : p.collection = c := s.rows.placed c p.handle p hp
    have hsource : ∀ q : ReplicaPlacement, q.collection = p.collection → q.handle = p.handle →
        q.base.isSome = p.base.isSome →
        (q.base.isSome ↔ Based (s.row q.collection q.handle)) := by
      intro q hd hg hb
      rw [hb, hd, hg, hplaced, hp, based_some]
    cases mutation with
    | add => cases names
    | setFlags g' flags =>
      exact List.forall_mem_singleton.mpr (Or.inr ⟨_, rfl, hsource _ rfl rfl rfl⟩)
    | remove g' => exact List.forall_mem_singleton.mpr (Or.inr ⟨_, rfl, hsource _ rfl rfl rfl⟩)
    | edit g' object body metadata sortKey =>
      refine List.forall_mem_cons.mpr ⟨Or.inl rfl, List.forall_mem_singleton.mpr (Or.inr ⟨_, rfl, ?_⟩)⟩
      have hedited := (hrooted c p.handle p hp).edited_standing object.hash metadata sortKey
      exact hsource _ hedited.1 hedited.2.1 hedited.2.2
    | copy g' target placeholder =>
      exact List.forall_mem_singleton.mpr (Or.inr ⟨_, rfl, hcreate _ rfl hstays⟩)
    | move g' target placeholder =>
      refine List.forall_mem_append.mpr ⟨?_, ?_⟩
      · split
        · exact List.forall_mem_singleton.mpr (Or.inr ⟨_, rfl, hcreate _ rfl hstays⟩)
        · exact fun op hop => by cases hop
      · exact List.forall_mem_singleton.mpr (Or.inr ⟨_, rfl, hsource _ rfl rfl rfl⟩)

/-- An upgrade leaves every row as based as it was. -/
theorem upgraded_based {c : ReplicaCollectionId} {handles : List ReplicaHandle} {tier : ReplicaTier}
    {loaded : ReplicaLoaded} {t : Transcript} (h : Upgrades c handles tier loaded t)
    (hreads : s.Reads t) : s.KeepsBased t.writes := by
  intro op hop
  rcases Diverging.upgrade_sources h (h.served hreads) hop with hnone | ⟨q, p, rfl, hp, hraised⟩
  · exact Or.inl hnone
  · refine Or.inr ⟨q, rfl, ?_⟩
    have hcollection := hraised.collection_eq.trans (s.rows.placed c q.handle p hp)
    have hbase : q.base.isSome = p.base.isSome := by
      cases hraised with
      | linked => exact Option.isSome_map
      | fetched _ _ _ written => exact written.standing.2
    have hrow : s.row c q.handle = some p := hp
    rw [hcollection, hrow, based_some, hbase]

end ReplicaCall

section Session

variable {S R : Type} [ReplicaStorage S] [LawfulStorage S] [ReplicaRemote R] [Shares R]
  {client client' : ReplicaClient S R}

/-- Calls one after the other, each returning, over a server others use as well. -/
def SharedSession : ReplicaClient S R → ReplicaClient S R → Prop :=
  Relation.ReflTransGen (fun client next => ∃ (remote : R) (call : ReplicaCall) (fuel : ℕ) (ok : Bool),
    Elsewhere client.server (Shares.server remote) ∧ call.Stays client.stored ∧
      call.run fuel { client with remote := remote } = some (next, ok))

/-- A call that keeps to the handles there are keeps track of its server. -/
theorem ReplicaCall.tracks {call : ReplicaCall} {fuel : ℕ} {ok : Bool}
    (h : call.run fuel client = some (client', ok)) (hstays : call.Stays client.stored)
    (hs : Tracks client.stored client.server) : Tracks client'.stored client'.server := by
  have hmoved := ReplicaClient.call_elsewhere h
  have hbatch : ∀ ops : List ReplicaWriteOp, client.stored.KeepsBased ops →
      (client.stored.apply ops).All (fun _ => Rooted) →
      Tracks (client.stored.apply ops) client'.server := by
    intro ops hops hrooted
    refine hs.stays hmoved hrooted (Stored.based_apply hops)
      (client.stored.apply_checkpoints (fun c k hop => ?_))
    rcases hops _ hop with hnone | ⟨q, hq, -⟩
    · cases hnone
    · cases hq
  have hleaves := ReplicaCall.run_leaves h
  generalize hs' : client'.stored = s' at hleaves
  have hrooted := hleaves.kept rooted_kept hs.rooted
  cases hleaves with
  | failed | opened => exact hs.stays hmoved hs.rooted (fun _ => rfl) rfl
  | upgraded upgrades reads => exact hbatch _ (ReplicaCall.upgraded_based upgrades reads) hrooted
  | mutated loads stages =>
    exact hbatch _ (ReplicaCall.staged_based hstays hs.rooted loads stages) hrooted
  | @synced c opts =>
    obtain ⟨⟨next, out⟩, hrun, heq⟩ := Option.map_eq_some_iff.mp h
    cases heq
    rw [← hs']
    exact (ReplicaClient.sync_leaves hrun).tracks hs
  | rekeyed => exact hstays.elim

/-- In every session the store keeps track of the server. -/
theorem SharedSession.tracks (h : SharedSession client client')
    (hs : Tracks client.stored client.server) : Tracks client'.stored client'.server := by
  induction h with
  | refl => exact hs
  | tail _ step ih =>
    obtain ⟨remote, call, fuel, ok, turns, hstays, hrun⟩ := step
    exact ReplicaCall.tracks hrun hstays
      (ih.stays turns ih.rooted (fun _ => rfl) rfl)

/-- A store with nothing in it keeps track of any server. -/
theorem tracks_nothing {s : Stored} {w : MemRemote} (hw : w.AllPlain)
    (hrows : ∀ c g, s.row c g = none) (hcursors : ∀ c, s.checkpoints c = none) : Tracks s w := by
  refine ⟨hw, fun c g p hp => ?_, fun c g hg => ?_, fun c n hn => ?_⟩
  · rw [hrows c g] at hp
    cases hp
  · rw [Stored.based, Set.mem_ofPred_eq, hrows c g] at hg
    exact absurd hg not_based_none
  · rw [hcursors c] at hn
    cases hn

/-- A replica that started from nothing misses nothing. Whatever calls it made, however they ended
and whatever others did at the server meanwhile, at any later moment a handle is a member of a
collection exactly when an enumerate since the stored cursor lists it, or a based row stands there
and the enumerate does not show it gone. -/
theorem session_misses_nothing (h : SharedSession client client')
    (hplain : client.server.AllPlain) (hrows : ∀ c g, client.stored.row c g = none)
    (hcursors : ∀ c, client.stored.checkpoints c = none) {w : MemRemote}
    (hw : Elsewhere client'.server w) (c : ReplicaCollectionId) (g : ReplicaHandle) :
    (w.member ⟨c, g⟩).isSome ↔
      ¬ (w.enumerate c (client'.stored.checkpoints c)).2.Gone g ∧
        (((w.enumerate c (client'.stored.checkpoints c)).2.reported g).isSome ∨
          Based (client'.stored.row c g)) := by
  have htracks := SharedSession.tracks h (tracks_nothing hplain hrows hcursors)
  have hlive := htracks.taken_live hw c { ReplicaSyncOptions.default with full := false }
  rw [← mem_live, ← hlive]
  exact Iff.rfl

section Witness

/-- A server of one member. -/
def oneMember : MemRemote := MemRemote.default.seed ⟨"inbox"⟩ ⟨"a"⟩ ⟨"m"⟩ ∅ []

/-- The server a client left, after another user added a second member. -/
def joined (client : ReplicaClient MemStorage MemRemote) : MemRemote :=
  client.remote.seed ⟨"inbox"⟩ ⟨"b"⟩ ⟨"n"⟩ ∅ []

theorem joined_elsewhere (client : ReplicaClient MemStorage MemRemote) :
    Elsewhere client.server (joined client) := by
  have hplain : (⟨"b"⟩ : ReplicaHandle).Plain := by
    rw [ReplicaId.Plain]
    decide
  exact .single (.seed client.remote ⟨"inbox"⟩ hplain ⟨"n"⟩ ∅ [])

theorem default_empty (c : ReplicaCollectionId) (g : ReplicaHandle) :
    MemStorage.default.stored.row c g = none := by
  rw [MemStorage.stored_row]
  simp [MemStorage.default, PlacementMap.empty]

theorem oneMember_plain : oneMember.AllPlain := by
  have hnone : MemRemote.default.AllPlain := by
    intro o ho
    simp [MemRemote.default, member, members] at ho
  have hplain : (⟨"a"⟩ : ReplicaHandle).Plain := by
    rw [ReplicaId.Plain]
    decide
  exact (Turn.seed MemRemote.default ⟨"inbox"⟩ hplain ⟨"m"⟩ ∅ []).leads.plain hnone

/-- One member synced, and another added at the server since: the delta lists the new one alone, and
the other is known by its row. -/
theorem session_misses_nothing_seeded : ∃ (client' : ReplicaClient MemStorage MemRemote)
    (w : MemRemote), SharedSession ⟨MemStorage.default, oneMember⟩ client' ∧
      Elsewhere client'.server w ∧
      (w.enumerate ⟨"inbox"⟩ (client'.stored.checkpoints ⟨"inbox"⟩)).2.reported ⟨"a"⟩ = none ∧
      Based (client'.stored.row ⟨"inbox"⟩ ⟨"a"⟩) := by
  have hrun : ((ReplicaCall.sync ⟨"inbox"⟩ .default).run 9
      (⟨MemStorage.default, oneMember⟩ : ReplicaClient MemStorage MemRemote)).map (fun out =>
        (((joined out.1).member ⟨⟨"inbox"⟩, ⟨"a"⟩⟩).isSome,
          (((joined out.1).enumerate ⟨"inbox"⟩
            (out.1.storage.checkpoints[(⟨"inbox"⟩ : ReplicaCollectionId)]?)).2.reported ⟨"a"⟩).isNone)) =
      some (true, true) := by
    decide +kernel
  obtain ⟨⟨client', ok⟩, hrun, heq⟩ := Option.map_eq_some_iff.mp hrun
  obtain ⟨hmember, hunlisted⟩ := Prod.mk.inj heq
  have hsession : SharedSession ⟨MemStorage.default, oneMember⟩ client' :=
    .single ⟨oneMember, .sync ⟨"inbox"⟩ .default, 9, ok, .refl, trivial, hrun⟩
  have hunlisted' : ((joined client').enumerate ⟨"inbox"⟩
      (client'.stored.checkpoints ⟨"inbox"⟩)).2.reported ⟨"a"⟩ = none :=
    Option.isNone_iff_eq_none.mp hunlisted
  have htold := (session_misses_nothing hsession oneMember_plain default_empty (fun _ => rfl)
    (joined_elsewhere client') ⟨"inbox"⟩ ⟨"a"⟩).mp hmember
  refine ⟨client', joined client', hsession, joined_elsewhere client', hunlisted', htold.2.resolve_left (fun hlisted => ?_)⟩
  rw [hunlisted'] at hlisted
  cases hlisted

end Witness

/-- After such a session, a sync that succeeds leaves the based rows of its collection the server's
members as it enumerated them, at the checkpoint it stores. Each member held then has a based row, or
was gone at some point since; each based row is of a member held then, or at some point since. -/
theorem session_sync_follows (h : SharedSession client client')
    (hplain : client.server.AllPlain) (hrows : ∀ c g, client.stored.row c g = none)
    (hcursors : ∀ c, client.stored.checkpoints c = none) {c : ReplicaCollectionId}
    {opts : ReplicaSyncOptions} {fuel : ℕ} {client'' : ReplicaClient S R}
    (hrun : (ReplicaCall.sync c opts).run fuel client' = some (client'', true)) :
    ∃ w snapshot t, Elsewhere client'.server w ∧ Elsewhere w client''.server ∧
      snapshot = (w.enumerate c (if opts.full then none else client'.stored.checkpoints c)).2 ∧
      Syncs c opts ⟨(client'.stored.rows.rows c).placements, client'.stored.checkpoints c⟩ snapshot t ∧
      client''.stored = client'.stored.apply t.writes ∧
      client''.stored.checkpoints c = some snapshot.checkpoint ∧ ∀ g,
      ((w.member ⟨c, g⟩).isSome →
        Based (client''.stored.row c g) ∨ GoneWithin w client''.server ⟨c, g⟩) ∧
      (Based (client''.stored.row c g) → LiveWithin w client''.server ⟨c, g⟩) := by
  have htracks := SharedSession.tracks h (tracks_nothing hplain hrows hcursors)
  obtain ⟨⟨next, out⟩, hsync, heq⟩ := Option.map_eq_some_iff.mp hrun
  obtain ⟨rfl, hok⟩ := Prod.mk.inj heq
  have hleaves := ReplicaClient.sync_leaves hsync
  rw [hok] at hleaves
  obtain ⟨w, t, turns, hafter, hwhole, hstored, hfollows⟩ := hleaves.follows htracks
  have hcheckpoint := congrFun (hwhole.checkpoints client'.stored) c
  rw [Function.update_self, ← hstored] at hcheckpoint
  refine ⟨w, _, t, turns, hafter, rfl, hwhole, hstored, hcheckpoint,
    fun g => ⟨fun hmember => ?_, fun hbased => ?_⟩⟩
  · by_cases hbased : g ∈ next.stored.based c
    · exact Or.inl hbased
    · exact Or.inr (hfollows.gives g ((mem_live w c g).mpr hmember) hbased)
  · by_cases hmember : g ∈ (w.track c).live
    · exact ⟨w, .refl, (mem_live w c g).mp hmember, hafter⟩
    · exact hfollows.takes g hbased hmember

section Witness

/-- One member synced and flagged here, while another is added at the server: the next sync pushes the
flags and leaves a based row of each, at the checkpoint of a state that held both. -/
theorem session_sync_follows_seeded : ∃ (client' client'' : ReplicaClient MemStorage MemRemote)
    (w : MemRemote) (snapshot : ReplicaRemoteSnapshot),
    SharedSession ⟨MemStorage.default, oneMember⟩ client' ∧
      (ReplicaCall.sync ⟨"inbox"⟩ .default).run 9 client' = some (client'', true) ∧
      Elsewhere client'.server w ∧ Elsewhere w client''.server ∧
      snapshot = (w.enumerate ⟨"inbox"⟩ (client'.stored.checkpoints ⟨"inbox"⟩)).2 ∧
      client''.stored.checkpoints ⟨"inbox"⟩ = some snapshot.checkpoint ∧
      ∀ g ∈ ([⟨"a"⟩, ⟨"b"⟩] : List ReplicaHandle), Based (client''.stored.row ⟨"inbox"⟩ g) ∧
        LiveWithin w client''.server ⟨⟨"inbox"⟩, g⟩ := by
  have hrun : ((ReplicaCall.sync ⟨"inbox"⟩ .default).run 9
      (⟨MemStorage.default, oneMember⟩ : ReplicaClient MemStorage MemRemote)).bind (fun out =>
        ((ReplicaCall.mutate ⟨"inbox"⟩ (.setFlags ⟨"a"⟩ (.known {"seen"}))).run 9
            ({ out.1 with remote := joined out.1 } : ReplicaClient MemStorage MemRemote)).bind
          (fun out₁ => ((ReplicaCall.sync ⟨"inbox"⟩ .default).run 9 out₁.1).map (fun out₂ =>
            (out₂.2, [⟨"a"⟩, ⟨"b"⟩].map (fun g => (out₂.1.storage.placements.entries[
              (toLex (⟨"inbox"⟩, g) : RowKey)]?).map (·.base.isSome)))))) =
      some (true, [some true, some true]) := by
    decide +kernel
  obtain ⟨⟨client₁, ok₁⟩, hrun₁, hrest⟩ := Option.bind_eq_some_iff.mp hrun
  obtain ⟨⟨client₂, ok₂⟩, hrun₂, hrest⟩ := Option.bind_eq_some_iff.mp hrest
  obtain ⟨⟨client₃, ok₃⟩, hrun₃, heq⟩ := Option.map_eq_some_iff.mp hrest
  obtain ⟨rfl, hrows⟩ := Prod.mk.inj heq
  simp only [List.map_cons, List.map_nil, List.cons.injEq, and_true] at hrows
  have hsession : SharedSession ⟨MemStorage.default, oneMember⟩ client₂ :=
    (Relation.ReflTransGen.single
      ⟨oneMember, .sync ⟨"inbox"⟩ .default, 9, ok₁, .refl, trivial, hrun₁⟩).tail
      ⟨joined client₁, .mutate ⟨"inbox"⟩ (.setFlags ⟨"a"⟩ (.known {"seen"})), 9, ok₂,
        joined_elsewhere client₁, trivial, hrun₂⟩
  have hbased : ∀ g ∈ ([⟨"a"⟩, ⟨"b"⟩] : List ReplicaHandle),
      Based (client₃.stored.row ⟨"inbox"⟩ g) := by
    have hone : ∀ g : ReplicaHandle, (client₃.storage.placements.entries[
        (toLex (⟨"inbox"⟩, g) : RowKey)]?).map (·.base.isSome) = some true →
        Based (client₃.stored.row ⟨"inbox"⟩ g) := by
      intro g hg
      obtain ⟨p, hp, hbase⟩ := Option.map_eq_some_iff.mp hg
      exact ⟨p, (client₃.storage.stored_row _ _).trans hp, hbase⟩
    intro g hg
    rcases List.mem_pair.mp hg with rfl | rfl
    · exact hone _ hrows.1
    · exact hone _ hrows.2
  obtain ⟨w, _, t, turns, hafter, rfl, -, -, hcheckpoint, hfollows⟩ :=
    session_sync_follows hsession oneMember_plain default_empty (fun _ => rfl) hrun₃
  exact ⟨client₂, client₃, w, _, hsession, hrun₃, turns, hafter, rfl, hcheckpoint,
    fun g hg => ⟨hbased g hg, (hfollows g).2 (hbased g hg)⟩⟩

end Witness

end Session
end IoReplica

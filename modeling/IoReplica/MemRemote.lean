import IoReplica.Client
import IoReplica.Sync.Candidates
import Mathlib.Logic.Relation

/-! The in-memory server: members by collection and handle, each change stamped by one counter, and
how an enumerate, a fetch and a push are answered. -/
namespace IoReplica

/-- The bytes of a string. -/
def asBytes (s : String) : List UInt8 := s.toUTF8.data.toList

/-- A number but its optional plus sign. -/
def unsigned : List UInt8 → List UInt8
  | 43 :: rest => rest
  | bytes => bytes

/-- A counter value parsed: decimal digits, sixty-four bits of them. -/
def parseUsize (bytes : List UInt8) : Option ℕ :=
  let digits := unsigned bytes
  if digits ≠ [] ∧ digits.all (fun b => 48 ≤ b ∧ b ≤ 57) then
    let n := digits.foldl (fun n b => 10 * n + (b.toNat - 48)) 0
    if n < 2 ^ 64 then some n else none
  else none

theorem asBytes_eq (s : String) : asBytes s = s.toList.flatMap String.utf8EncodeChar := by
  rw [asBytes, String.toUTF8_eq_toByteArray, ← String.utf8Encode_toList, List.utf8Encode,
    List.toList_data_toByteArray]

/-- A digit is one byte. -/
theorem utf8EncodeChar_digit {c : Char} (hc : c.isDigit = true) :
    String.utf8EncodeChar c = [c.toNat.toUInt8] ∧ 48 ≤ c.toNat ∧ c.toNat ≤ 57 := by
  have h : 48 ≤ c.toNat ∧ c.toNat ≤ 57 := by
    rw [Char.isDigit] at hc
    simp at hc
    exact hc
  refine ⟨?_, h⟩
  have hle : c.val.toNat ≤ 0x7f := h.2.trans (by decide)
  dsimp only [String.utf8EncodeChar]
  rw [if_pos hle]
  rfl

theorem asBytes_digits (n : ℕ) :
    asBytes (toString n) = (Nat.toDigits 10 n).map (fun c => c.toNat.toUInt8) := by
  rw [asBytes_eq, Nat.toString_eq_repr, Nat.toList_repr]
  have hdigits : ∀ l : List Char, (∀ c ∈ l, c.isDigit = true) →
      l.flatMap String.utf8EncodeChar = l.map (fun c => c.toNat.toUInt8) := by
    intro l hl
    induction l with
    | nil => rfl
    | cons c l ih =>
      rw [List.forall_mem_cons] at hl
      rw [List.flatMap_cons, (utf8EncodeChar_digit hl.1).1, ih hl.2]
      rfl
  exact hdigits _ (fun c hc => Nat.isDigit_of_mem_toDigits (by decide) (by decide) hc)

theorem parseUsize_toString (n : ℕ) :
    parseUsize (asBytes (toString n)) = if n < 2 ^ 64 then some n else none := by
  have hdigit : ∀ c ∈ Nat.toDigits 10 n, 48 ≤ c.toNat ∧ c.toNat ≤ 57 := fun c hc =>
    (utf8EncodeChar_digit (Nat.isDigit_of_mem_toDigits (by decide) (by decide) hc)).2
  have hbyte : ∀ c : Char, c.toNat ≤ 57 → c.toNat.toUInt8.toNat = c.toNat := fun c hc => by
    rw [Nat.toUInt8_eq, UInt8.toNat_ofNat']
    omega
  have hvalue : ∀ (l : List Char) (m : ℕ), (∀ c ∈ l, 48 ≤ c.toNat ∧ c.toNat ≤ 57) →
      (l.map (fun c => c.toNat.toUInt8)).foldl (fun n b => 10 * n + (b.toNat - 48)) m =
        Nat.ofDigitChars 10 l m := by
    intro l
    induction l with
    | nil => exact fun m _ => (Nat.ofDigitChars_nil).symm
    | cons c l ih =>
      intro m hl
      rw [List.forall_mem_cons] at hl
      rw [List.map_cons, List.foldl_cons, ih _ hl.2, Nat.ofDigitChars_cons, hbyte c hl.1.2]
      rfl
  obtain ⟨c, cs, hcs⟩ := List.exists_cons_of_ne_nil (Nat.toDigits_ne_nil (n := n) (b := 10))
  have hsign : (Nat.toDigits 10 n).map (fun c => c.toNat.toUInt8) =
      c.toNat.toUInt8 :: cs.map (fun c => c.toNat.toUInt8) := by rw [hcs, List.map_cons]
  have hplus : c.toNat.toUInt8 ≠ 43 := by
    intro heq
    have hc := hdigit c (hcs ▸ List.mem_cons_self)
    have h43 := congrArg UInt8.toNat heq
    rw [hbyte c hc.2] at h43
    change c.toNat = 43 at h43
    omega
  have hall : ((Nat.toDigits 10 n).map (fun c => c.toNat.toUInt8)).all
      (fun b => 48 ≤ b ∧ b ≤ 57) = true := by
    rw [List.all_map, List.all_eq_true]
    intro c hc
    have hd := hdigit c hc
    have hb := hbyte c hd.2
    simp only [Function.comp_apply, decide_eq_true_eq, UInt8.le_iff_toNat_le, hb]
    exact hd
  have hstrip : unsigned ((Nat.toDigits 10 n).map (fun c => c.toNat.toUInt8)) =
      (Nat.toDigits 10 n).map (fun c => c.toNat.toUInt8) := by
    rw [hsign, unsigned]
    intro rest heq
    exact hplus (List.cons.inj heq).1
  have hnil : (Nat.toDigits 10 n).map (fun c => c.toNat.toUInt8) ≠ [] := by
    rw [hsign]
    exact List.cons_ne_nil _ _
  rw [asBytes_digits, parseUsize]
  simp only [hstrip]
  rw [if_pos ⟨hnil, hall⟩, hvalue _ 0 hdigit, Nat.ofDigitChars_ten_toDigits]

structure MemRemote.ServerItem where
  linkId : ReplicaLinkId
  flags : ReplicaFlags
  body : List UInt8
  /-- The counter value of the last change. -/
  seq : ℕ
  /-- The content revision. -/
  rev : ℕ
  deriving DecidableEq

structure MemRemote where
  items : Std.ExtTreeMap ReplicaCollectionId (HandleMap MemRemote.ServerItem)
  fullFetches : List ReplicaHandle
  calls : ℕ
  nextAppended : ℕ
  pushBatches : List ℕ
  /-- Reports content revisions, and turns down a push whose precondition is stale. -/
  mutable : Bool
  refusedAppends : Finset ReplicaLinkId
  seq : ℕ
  vanished : Std.ExtTreeMap ReplicaCollectionId (List (ℕ × ReplicaHandle))

namespace MemRemote

def default : MemRemote := ⟨∅, [], 0, 0, [], false, ∅, 0, ∅⟩

variable (w : MemRemote)

def bump : MemRemote := { w with seq := w.seq + 1 }

def revision (rev : ℕ) : Option String := if w.mutable then some (toString rev) else none

/-- The members of a collection. -/
def members (c : ReplicaCollectionId) : HandleMap ServerItem := w.items[c]?.getD ∅

/-- The removals of a collection, each with the counter value it happened at. -/
def removals (c : ReplicaCollectionId) : List (ℕ × ReplicaHandle) := w.vanished[c]?.getD []

/-- The member a collection holds at a handle. -/
def member (o : ReplicaOrigin) : Option ServerItem := (w.members o.collection)[o.handle]?

def put (o : ReplicaOrigin) (item : ServerItem) : MemRemote :=
  { w with items := w.items.insert o.collection ((w.members o.collection).insert o.handle item) }

def take (o : ReplicaOrigin) : MemRemote :=
  { w with items := w.items.insert o.collection ((w.members o.collection).erase o.handle) }

theorem member_put (o : ReplicaOrigin) (item : ServerItem) (o' : ReplicaOrigin) :
    (w.put o item).member o' = if o = o' then some item else w.member o' := by
  obtain ⟨c, h⟩ := o
  obtain ⟨c', h'⟩ := o'
  simp only [member, members, put, OrderedMap.get_insert, ReplicaOrigin.mk.injEq]
  by_cases hc : c = c'
  · subst hc
    simp [OrderedMap.get_insert]
  · simp [hc]

theorem member_take (o o' : ReplicaOrigin) :
    (w.take o).member o' = if o = o' then none else w.member o' := by
  obtain ⟨c, h⟩ := o
  obtain ⟨c', h'⟩ := o'
  simp only [member, members, take, OrderedMap.get_insert, ReplicaOrigin.mk.injEq]
  by_cases hc : c = c'
  · subst hc
    simp [OrderedMap.get_erase]
  · simp [hc]

/-- Records a removal at the current counter value. -/
def gone (o : ReplicaOrigin) : MemRemote :=
  { w with
    vanished := w.vanished.insert o.collection (w.removals o.collection ++ [(w.seq, o.handle)]) }

def seed (c : ReplicaCollectionId) (h : ReplicaHandle) (link : ReplicaLinkId) (flags : Finset String)
    (body : List UInt8) : MemRemote :=
  let w := w.bump
  -- seeding a handle again is a content change
  let rev := ((w.member ⟨c, h⟩).map (·.rev + 1)).getD 0
  w.put ⟨c, h⟩ ⟨link, .known flags, body, w.seq, rev⟩

/-- Expects the member. -/
def setFlags (c : ReplicaCollectionId) (h : ReplicaHandle) (flags : Finset String) :
    Option MemRemote :=
  let w := w.bump
  (w.member ⟨c, h⟩).map (fun item => w.put ⟨c, h⟩ { item with flags := .known flags, seq := w.seq })

/-- A server-side content edit: the revision advances. Expects the member. -/
def edit (c : ReplicaCollectionId) (h : ReplicaHandle) (body : List UInt8) : Option MemRemote :=
  let w := w.bump
  (w.member ⟨c, h⟩).map (fun item =>
    w.put ⟨c, h⟩ { item with body := body, seq := w.seq, rev := item.rev + 1 })

/-- Expects the member. -/
def remove (c : ReplicaCollectionId) (h : ReplicaHandle) : Option MemRemote :=
  let w := w.bump
  (w.member ⟨c, h⟩).map (fun _ => (w.take ⟨c, h⟩).gone ⟨c, h⟩)

/-- The member of `c` holding the link, `except` aside. -/
def linkHolder (c : ReplicaCollectionId) (link : Option ReplicaLinkId)
    (except : Option ReplicaHandle) : Option ReplicaHandle :=
  match link with
  | none => none
  | some link =>
    ((w.members c).toList.find? (fun e => e.2.linkId = link ∧ some e.1 ≠ except)).map (·.1)

def holdsLink (c : ReplicaCollectionId) (link : Option ReplicaLinkId)
    (except : Option ReplicaHandle) : Bool := (w.linkHolder c link except).isSome

/-- A small content hash. -/
def hash (body : List UInt8) : ReplicaHash :=
  let acc := body.foldl (fun acc (byte : UInt8) => (acc ^^^ byte.toUInt64) * 1099511628211)
    1469598103934665603
  ⟨(ReplicaChangeDigest.finish ⟨acc⟩).asStr⟩

/-- What an enumerate lists a member as. -/
def listed (e : ReplicaHandle × ServerItem) : ReplicaRemoteItem :=
  ⟨e.1, e.2.flags, w.revision e.2.rev⟩

/-- Everything past the counter value a cursor names; with no such cursor, everything. A member
removed and held again is not reported gone. -/
def enumerate (c : ReplicaCollectionId) (cursor : Option ReplicaCheckpoint) :
    MemRemote × ReplicaRemoteSnapshot :=
  let w := { w with calls := w.calls + 1 }
  let checkpoint : ReplicaCheckpoint := ⟨asBytes (toString w.seq)⟩
  match cursor.bind (fun cursor => parseUsize cursor.bytes) with
  | some since =>
    (w, ⟨((w.members c).toList.filter (fun e => since < e.2.seq)).map w.listed,
      ((w.removals c).filter (fun e => since < e.1 ∧ (w.members c)[e.2]? = none)).map (·.2),
      false, checkpoint⟩)
  | none => (w, ⟨(w.members c).toList.map w.listed, [], true, checkpoint⟩)

/-- What a fetch delivers of a member. -/
def fetched (tier : ReplicaTier) (h : ReplicaHandle) (item : ServerItem) : ReplicaFetchedItem where
  handle := h
  linkId := item.linkId
  metadata := ⟨"headers:" ++ h.asStr⟩
  sortKey := .unknown
  body :=
    match tier with
    | .metadata => none
    | .full => some (.inline (hash item.body) item.body)
  revision := w.revision item.rev

/-- An unknown handle yields nothing. -/
def fetch (c : ReplicaCollectionId) (handles : List ReplicaHandle) (tier : ReplicaTier) :
    MemRemote × List ReplicaFetchedItem :=
  let known := handles.filter (fun h => (w.member ⟨c, h⟩).isSome)
  ({ w with
      calls := w.calls + 1
      fullFetches :=
        match tier with
        | .metadata => w.fullFetches
        | .full => w.fullFetches ++ known },
    handles.filterMap (fun h => (w.member ⟨c, h⟩).map (w.fetched tier h)))

def accepted (h : ReplicaHandle) (assigned : Option ReplicaHandle) (revision : Option String) :
    ReplicaPushResult := ⟨h, .accepted, assigned, revision⟩

def rejected (h : ReplicaHandle) : ReplicaPushResult := ⟨h, .rejected, none, none⟩

/-- The precondition does not name the revision held. -/
def stale (item : ServerItem) (ifMatch : Option String) : Bool :=
  w.mutable && decide (ifMatch ≠ some (toString item.rev))

def serveSetFlags (c : ReplicaCollectionId) (h : ReplicaHandle) (flags : ReplicaFlags) :
    MemRemote × ReplicaPushResult :=
  let w := w.bump
  match w.member ⟨c, h⟩ with
  | some item => (w.put ⟨c, h⟩ { item with flags := flags, seq := w.seq }, accepted h none none)
  | none => (w, accepted h none none)

/-- A move relocates the member, unless its destination already holds the link; a plain remove drops
it. A missing member was removed already. -/
def serveRemove (c : ReplicaCollectionId) (h : ReplicaHandle) (dest : Option ReplicaCollectionId)
    (linkId : Option ReplicaLinkId) (ifMatch : Option String) : MemRemote × ReplicaPushResult :=
  let dest := dest.filter (fun d => !w.holdsLink d linkId (some h))
  match w.member ⟨c, h⟩ with
  | none => (w.bump, accepted h none none)
  | some item =>
    if w.stale item ifMatch then (w, rejected h)
    else
      let w := (w.bump.take ⟨c, h⟩).gone ⟨c, h⟩
      match dest with
      | none => (w, accepted h none none)
      | some d => (w.put ⟨d, ⟨h.asStr ++ "-moved"⟩⟩ { item with seq := w.seq }, accepted h none none)

/-- A member deleted meanwhile takes no edit in place. -/
def serveUpdate (c : ReplicaCollectionId) (h : ReplicaHandle) (object : ReplicaHash)
    (ifMatch : Option String) : MemRemote × ReplicaPushResult :=
  match w.member ⟨c, h⟩ with
  | none => (w, rejected h)
  | some item =>
    if w.stale item ifMatch then (w, rejected h)
    else
      let w := w.bump
      let item := { item with body := asBytes object.asStr, rev := item.rev + 1, seq := w.seq }
      (w.put ⟨c, h⟩ item, accepted h none (w.revision item.rev))

/-- A copy of the origin, or an append of the body under a fresh handle. A copy whose origin is gone
is rejected, and so is an identity refused. -/
def serveAdd (c : ReplicaCollectionId) (h : ReplicaHandle) (linkId : Option ReplicaLinkId)
    (flags : ReplicaFlags) (origin : Option ReplicaOrigin) (object : Option ReplicaHash) :
    MemRemote × ReplicaPushResult :=
  if linkId.any (fun link => link ∈ w.refusedAppends) then (w, rejected h)
  else
    match origin with
    | some o =>
      match w.member o with
      | none => (w, rejected h)
      | some item =>
        let w := w.bump
        let new : ReplicaHandle := ⟨o.handle.asStr ++ "-copy"⟩
        (w.put ⟨c, new⟩ { item with seq := w.seq }, accepted h (some new) (w.revision item.rev))
    | none =>
      match object with
      | none => (w, accepted h none none)
      | some object =>
        let w := { w.bump with nextAppended := w.nextAppended + 1 }
        let new : ReplicaHandle := ⟨"app-" ++ toString w.nextAppended⟩
        let link := linkId.getD ⟨new.asStr⟩
        (w.put ⟨c, new⟩ ⟨link, flags, asBytes object.asStr, w.seq, 0⟩,
          accepted h (some new) (w.revision 0))

/-- Serves one change of collection `c`. -/
def serve (c : ReplicaCollectionId) : ReplicaChangeKind → MemRemote × ReplicaPushResult
  | .setFlags h flags => w.serveSetFlags c h flags
  | .remove h dest linkId ifMatch => w.serveRemove c h dest linkId ifMatch
  | .update h object ifMatch => w.serveUpdate c h object ifMatch
  | .add h linkId flags origin object => w.serveAdd c h linkId flags origin object

/-- Serves the changes of a batch, in order. -/
def serveAll (c : ReplicaCollectionId) :
    List ReplicaChange → MemRemote → MemRemote × List ReplicaPushResult
  | [], w => (w, [])
  | change :: changes, w =>
    let (w, result) := w.serve c change.kind
    let (w, results) := serveAll c changes w
    (w, result :: results)

def push (c : ReplicaCollectionId) (changes : List ReplicaChange) :
    MemRemote × List ReplicaPushResult :=
  serveAll c changes
    { w with calls := w.calls + 1, pushBatches := w.pushBatches ++ [changes.length] }

end MemRemote

/-- It never fails. -/
instance : ReplicaRemote MemRemote where
  Error := Empty
  enumerate w c cursor := ((w.enumerate c cursor).1, .ok (w.enumerate c cursor).2)
  fetch w c handles tier := ((w.fetch c handles tier).1, .ok (w.fetch c handles tier).2)
  push w c changes := ((w.push c changes).1, .ok (w.push c changes).2)

end IoReplica

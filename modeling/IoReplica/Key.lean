import IoReplica.Change
import IoReplica.Library.Framing

/-! The stream of bytes a change is keyed by: what the change makes true is read off it. -/
namespace IoReplica

section Bytes

/-- The UTF-8 bytes of a string. -/
def utf8 (s : String) : List UInt8 := s.toUTF8.toList

/-- No character of the string is NUL. -/
def NulFree (s : String) : Prop := '\x00' ∉ s.toList

instance (s : String) : Decidable (NulFree s) := inferInstanceAs (Decidable (_ ∉ _))

theorem byteArray_toList_loop (bytes : ByteArray) (n i : ℕ) (acc : List UInt8)
    (hn : bytes.size - i ≤ n) :
    ByteArray.toList.loop bytes i acc = acc.reverse ++ bytes.data.toList.drop i := by
  have hsize : bytes.data.toList.length = bytes.size := rfl
  induction n generalizing i acc with
  | zero =>
    rw [ByteArray.toList.loop, if_neg (by omega), List.drop_eq_nil_of_le (by omega),
      List.append_nil]
  | succ n ih =>
    rw [ByteArray.toList.loop]
    by_cases hi : i < bytes.size
    · have hlt : i < bytes.data.toList.length := by omega
      have hget : bytes.get! i = bytes.data.toList[i] := by
        rw [Array.getElem_toList]
        exact getElem!_pos bytes.data i hi
      rw [if_pos hi, ih (i + 1) _ (by omega), List.drop_eq_getElem_cons hlt, hget,
        List.reverse_cons, List.append_assoc, List.singleton_append]
    · rw [if_neg hi, List.drop_eq_nil_of_le (by omega), List.append_nil]

theorem utf8_eq (s : String) : utf8 s = s.toList.flatMap String.utf8EncodeChar := by
  have hlist : s.toUTF8.toList = s.toUTF8.data.toList :=
    byteArray_toList_loop s.toUTF8 _ 0 [] le_rfl
  rw [utf8, hlist, String.toUTF8_eq_toByteArray, ← String.utf8Encode_toList, List.utf8Encode,
    List.toList_data_toByteArray]

theorem utf8_injective : Function.Injective utf8 := by
  intro s t h
  have hlist : ∀ b : ByteArray, b.toList = b.data.toList :=
    fun b => byteArray_toList_loop b _ 0 [] le_rfl
  rw [utf8, utf8, hlist, hlist, Array.toList_inj] at h
  exact String.toByteArray_inj.mp (ByteArray.ext h)

theorem ofNat_ne_zero {n : ℕ} (hpos : 0 < n) (hlt : n < 256) : (0 : UInt8) ≠ UInt8.ofNat n := by
  intro heq
  have hn : (0 : UInt8).toNat = (UInt8.ofNat n).toNat := congrArg UInt8.toNat heq
  rw [UInt8.toNat_ofNat', Nat.mod_eq_of_lt hlt] at hn
  exact hpos.ne hn

/-- Only NUL is encoded with a NUL byte. -/
theorem encodeChar_nulFree {c : Char} (hc : c ≠ '\x00') : 0 ∉ String.utf8EncodeChar c := by
  fun_cases String.utf8EncodeChar c with
  | case1 v hv =>
    have hpos : 0 < v := by
      refine Nat.pos_of_ne_zero (fun hz => hc ?_)
      exact Char.ext (UInt32.toNat_inj.mp hz)
    simpa using ofNat_ne_zero hpos (by omega)
  | case2 v hv hv' =>
    simp only [List.mem_cons, List.not_mem_nil, or_false, not_or]
    exact ⟨ofNat_ne_zero (by omega) (by omega), ofNat_ne_zero (by omega) (by omega)⟩
  | case3 v hv hv' hv'' =>
    simp only [List.mem_cons, List.not_mem_nil, or_false, not_or]
    exact ⟨ofNat_ne_zero (by omega) (by omega), ofNat_ne_zero (by omega) (by omega),
      ofNat_ne_zero (by omega) (by omega)⟩
  | case4 v hv hv' hv'' =>
    simp only [List.mem_cons, List.not_mem_nil, or_false, not_or]
    exact ⟨ofNat_ne_zero (by omega) (by omega), ofNat_ne_zero (by omega) (by omega),
      ofNat_ne_zero (by omega) (by omega), ofNat_ne_zero (by omega) (by omega)⟩

theorem NulFree.utf8 {s : String} (hs : NulFree s) : 0 ∉ utf8 s := by
  rw [utf8_eq, List.mem_flatMap]
  rintro ⟨c, hc, hzero⟩
  exact encodeChar_nulFree (fun heq => hs (heq ▸ hc)) hzero

end Bytes

namespace ReplicaChangeDigest

/-- Folds a stream of bytes in. -/
def absorb (d : ReplicaChangeDigest) (bytes : List UInt8) : ReplicaChangeDigest :=
  ⟨bytes.foldl (fun s (byte : UInt8) => (s ^^^ byte.toUInt64) * PRIME) d.state⟩

theorem absorb_append (d : ReplicaChangeDigest) (a b : List UInt8) :
    d.absorb (a ++ b) = (d.absorb a).absorb b := by
  simp [absorb]

/-- Folding fields in one by one is folding their stream in. -/
theorem foldl_field (d : ReplicaChangeDigest) (fs : List (List UInt8)) :
    fs.foldl field d = d.absorb (Framing.fields 0 fs) := by
  induction fs generalizing d with
  | nil => rfl
  | cons f fs ih => rw [List.foldl_cons, ih, Framing.fields_cons, absorb_append]; rfl

/-- The digits of a digest are its own. -/
theorem finish_injective : Function.Injective finish := by
  rintro ⟨s⟩ ⟨s'⟩ h
  have hvalue : ∀ s : UInt64, Framing.hexValue (finish ⟨s⟩).asStr.toList = s.toNat := by
    intro s
    dsimp only [finish]
    rw [String.toList_ofList, Framing.hexValue_pad, Framing.hexValue_toDigits]
  have hstates : s.toNat = s'.toNat := by rw [← hvalue, h, hvalue]
  rw [UInt64.toNat_inj.mp hstates]

/-- A length is its eight bytes, up to their width. -/
theorem lenBytes_inj {n m : ℕ} (h : lenBytes n = lenBytes m) : n % 256 ^ 8 = m % 256 ^ 8 := by
  have hbytes : ∀ i < 8, n / 256 ^ i % 256 = m / 256 ^ i % 256 := by
    intro i hi
    have hbyte := List.map_inj_left.mp h i (List.mem_range.mpr hi)
    simpa using congrArg UInt8.toNat hbyte
  have hprefix : ∀ k ≤ 8, n % 256 ^ k = m % 256 ^ k := by
    intro k
    induction k with
    | zero => simp [Nat.mod_one]
    | succ k ih =>
      intro hk
      rw [Nat.mod_pow_succ, Nat.mod_pow_succ, ih (by omega), hbytes k (by omega)]
  exact hprefix 8 le_rfl

end ReplicaChangeDigest

/-- The fields of an optional string: a present and an absent one differ. -/
def optionFields : Option String → List (List UInt8)
  | some s => [utf8 "1", utf8 s]
  | none => [utf8 "0"]

def originFields : Option ReplicaOrigin → List (List UInt8)
  | some origin => [utf8 "1", utf8 origin.collection.asStr, utf8 origin.handle.asStr]
  | none => [utf8 "0"]

/-- The fields of a flag set, counted first. -/
def ReplicaFlags.fields : ReplicaFlags → List (List UInt8)
  | .unknown => [utf8 "unknown"]
  | .known flags =>
    utf8 "known" :: ReplicaChangeDigest.lenBytes flags.card :: (flagNames flags).map utf8

namespace ReplicaChangeKind

/-- What the change makes true: a precondition, and the identity a remove moves, are no part of it. -/
def target : ReplicaChangeKind → ReplicaChangeKind
  | .remove handle dest _ _ => .remove handle dest none none
  | .update handle object _ => .update handle object none
  | kind => kind

/-- The fields naming a kind and the state it makes true. -/
def stateFields : ReplicaChangeKind → List (List UInt8)
  | .add _ linkId flags origin object =>
    utf8 "add" :: (optionFields (linkId.map (·.asStr)) ++ (flags.fields ++
      (originFields origin ++ optionFields (object.map (·.asStr)))))
  | .remove _ dest _ _ => utf8 "remove" :: optionFields (dest.map (·.asStr))
  | .setFlags _ flags => utf8 "set-flags" :: flags.fields
  | .update _ object _ => [utf8 "update", utf8 object.asStr]

/-- The stream of bytes a change is keyed by. -/
def stream (kind : ReplicaChangeKind) (collection : ReplicaCollectionId) : List UInt8 :=
  Framing.fields 0 (utf8 collection.asStr :: utf8 kind.handle.asStr :: kind.stateFields)

/-- The strings of a change that its key is derived from. -/
def strings : ReplicaChangeKind → List String
  | .add handle linkId flags origin object =>
    handle.asStr :: ((linkId.map (·.asStr)).toList ++ (flagNames (flags.known?.getD ∅) ++
      ((origin.elim [] (fun o => [o.collection.asStr, o.handle.asStr])) ++
        (object.map (·.asStr)).toList)))
  | .remove handle dest _ _ => handle.asStr :: (dest.map (·.asStr)).toList
  | .setFlags handle flags => handle.asStr :: flagNames (flags.known?.getD ∅)
  | .update handle object _ => [handle.asStr, object.asStr]

/-- A change is keyed by the digest of its stream. -/
theorem key_eq (kind : ReplicaChangeKind) (collection : ReplicaCollectionId) :
    kind.key collection = (ReplicaChangeDigest.new.absorb (kind.stream collection)).finish := by
  have hoption : ∀ (d : ReplicaChangeDigest) (s : Option String),
      d.option s = (optionFields s).foldl ReplicaChangeDigest.field d := by
    intro d s
    cases s <;> rfl
  have hflags : ∀ (d : ReplicaChangeDigest) (f : ReplicaFlags),
      d.flags f = f.fields.foldl ReplicaChangeDigest.field d := by
    intro d f
    cases f with
    | unknown => rfl
    | known f =>
      simp only [ReplicaChangeDigest.flags, ReplicaFlags.fields, List.foldl_cons, List.foldl_map]
      rfl
  rw [stream, ← ReplicaChangeDigest.foldl_field]
  cases kind with
  | remove handle dest =>
    simp only [key, stateFields, hoption, List.foldl_cons]
    rfl
  | setFlags handle flags =>
    simp only [key, stateFields, hflags, List.foldl_cons]
    rfl
  | update => rfl
  | add handle linkId flags origin object =>
    simp only [key, stateFields, hoption, hflags, List.foldl_cons, List.foldl_append]
    cases origin <;> rfl

section Cancel

open Framing

variable {u v : List (List UInt8)}

theorem str_cancel {s t : String} (hs : NulFree s) (ht : NulFree t)
    (h : fields 0 (utf8 s :: u) = fields 0 (utf8 t :: v)) : s = t ∧ fields 0 u = fields 0 v := by
  obtain ⟨hst, hrest⟩ := field_cancel hs.utf8 ht.utf8 h
  exact ⟨utf8_injective hst, hrest⟩

theorem option_cancel {x y : Option String} (hx : ∀ s ∈ x.toList, NulFree s)
    (hy : ∀ s ∈ y.toList, NulFree s)
    (h : fields 0 (optionFields x ++ u) = fields 0 (optionFields y ++ v)) :
    x = y ∧ fields 0 u = fields 0 v := by
  cases x with
  | none =>
    cases y with
    | none => exact ⟨rfl, (str_cancel (by decide) (by decide) h).2⟩
    | some t => exact absurd (str_cancel (by decide) (by decide) h).1 (by decide)
  | some s =>
    cases y with
    | none => exact absurd (str_cancel (by decide) (by decide) h).1 (by decide)
    | some t =>
      obtain ⟨-, hrest⟩ := str_cancel (by decide) (by decide) h
      obtain ⟨rfl, htail⟩ := str_cancel (hx s (by simp)) (hy t (by simp)) hrest
      exact ⟨rfl, htail⟩

/-- A flag set is read off its count and its markers, whatever fields follow them. -/
theorem flags_cancel {f g : ReplicaFlags} (hf : ∀ s ∈ flagNames (f.known?.getD ∅), NulFree s)
    (hg : ∀ s ∈ flagNames (g.known?.getD ∅), NulFree s) (hu : ∀ x ∈ u, 0 ∉ x)
    (hv : ∀ x ∈ v, 0 ∉ x) (hul : u.length < 256 ^ 8) (hvl : v.length < 256 ^ 8)
    (h : fields 0 (f.fields ++ u) = fields 0 (g.fields ++ v)) : f = g ∧ u = v := by
  cases f with
  | unknown =>
    cases g with
    | unknown => exact ⟨rfl, fields_inj hu hv (str_cancel (by decide) (by decide) h).2⟩
    | known g => exact absurd (str_cancel (by decide) (by decide) h).1 (by decide)
  | known f =>
    cases g with
    | unknown => exact absurd (str_cancel (by decide) (by decide) h).1 (by decide)
    | known g =>
      obtain ⟨-, hrest⟩ := str_cancel (by decide) (by decide) h
      obtain ⟨hcount, hrest⟩ := block_cancel (by simp [ReplicaChangeDigest.lenBytes]) hrest
      have hmarkers : ∀ {m : Finset String} {w : List (List UInt8)},
          (∀ s ∈ flagNames m, NulFree s) → (∀ x ∈ w, 0 ∉ x) →
          ∀ x ∈ (flagNames m).map utf8 ++ w, 0 ∉ x := by
        intro m w hm hw x hx
        rcases List.mem_append.mp hx with hx | hx
        · obtain ⟨s, hs, rfl⟩ := List.mem_map.mp hx
          exact (hm s hs).utf8
        · exact hw x hx
      have hlists := fields_inj (hmarkers hf hu) (hmarkers hg hv) hrest
      have hcards : f.card % 256 ^ 8 = g.card % 256 ^ 8 := ReplicaChangeDigest.lenBytes_inj hcount
      have hlengths : ((flagNames f).map utf8).length % 256 ^ 8 =
          ((flagNames g).map utf8).length % 256 ^ 8 := by
        rwa [List.length_map, List.length_map, length_flagNames, length_flagNames]
      obtain ⟨hsorted, htail⟩ := counted_cancel hlengths hul hvl hlists
      have hsort : flagNames f = flagNames g := List.map_injective_iff.mpr utf8_injective hsorted
      exact ⟨congrArg _ (flagNames_injective hsort), htail⟩

theorem origin_cancel {o o' : Option ReplicaOrigin} {x y : Option String}
    (h : originFields o ++ optionFields x = originFields o' ++ optionFields y) :
    o = o' ∧ x = y := by
  cases o with
  | none =>
    cases o' with
    | none =>
      cases x <;> cases y <;> simp [originFields, optionFields, utf8_injective.eq_iff] at h ⊢
      exact h
    | some o' => cases x <;> cases y <;> simp [originFields, optionFields] at h
  | some o =>
    cases o' with
    | none => cases x <;> cases y <;> simp [originFields, optionFields] at h
    | some o' =>
      obtain ⟨⟨c⟩, ⟨g⟩⟩ := o
      obtain ⟨⟨c'⟩, ⟨g'⟩⟩ := o'
      cases x <;> cases y <;> simp [originFields, optionFields, utf8_injective.eq_iff] at h ⊢
      · exact h
      · exact ⟨⟨h.1, h.2.1⟩, h.2.2⟩

/-- The fields after a flag set hold no NUL where their strings hold none. -/
theorem rest_nulFree {origin : Option ReplicaOrigin} {object : Option String}
    (ho : ∀ s ∈ origin.elim [] (fun o => [o.collection.asStr, o.handle.asStr]), NulFree s)
    (hx : ∀ s ∈ object.toList, NulFree s) :
    ∀ x ∈ originFields origin ++ optionFields object, 0 ∉ x := by
  have hflag : ∀ s ∈ ["0", "1"], 0 ∉ utf8 s := by
    intro s hs
    have hnul : NulFree s := by
      simp only [List.mem_cons, List.not_mem_nil, or_false] at hs
      rcases hs with rfl | rfl <;> decide
    exact hnul.utf8
  intro x hx'
  rcases List.mem_append.mp hx' with hx' | hx'
  · cases origin with
    | none =>
      rw [List.mem_singleton.mp hx']
      exact hflag "0" (by simp)
    | some o =>
      simp only [originFields, List.mem_cons, List.not_mem_nil, or_false] at hx'
      rcases hx' with rfl | rfl | rfl
      · exact hflag "1" (by simp)
      · exact (ho _ (by simp)).utf8
      · exact (ho _ (by simp)).utf8
  · cases object with
    | none =>
      rw [List.mem_singleton.mp hx']
      exact hflag "0" (by simp)
    | some s =>
      simp only [optionFields, List.mem_cons, List.not_mem_nil, or_false] at hx'
      rcases hx' with rfl | rfl
      · exact hflag "1" (by simp)
      · exact (hx s (by simp)).utf8

end Cancel

/-- A stream names its collection, its member and what it makes true of it. -/
theorem stream_inj {c c' : ReplicaCollectionId} {k k' : ReplicaChangeKind} (hc : NulFree c.asStr)
    (hc' : NulFree c'.asStr) (hk : ∀ s ∈ k.strings, NulFree s) (hk' : ∀ s ∈ k'.strings, NulFree s)
    (h : k.stream c = k'.stream c') : c = c' ∧ k.target = k'.target := by
  have hhandle : ∀ {k : ReplicaChangeKind}, (∀ s ∈ k.strings, NulFree s) → NulFree k.handle.asStr := by
    intro k hk
    cases k <;> exact hk _ (by simp [strings, handle])
  obtain ⟨hcollection, hrest⟩ := str_cancel hc hc' h
  obtain ⟨hmember, hstate⟩ := str_cancel (hhandle hk) (hhandle hk') hrest
  refine ⟨ReplicaId.asStr_injective hcollection, ?_⟩
  have hsame := ReplicaId.asStr_injective hmember
  have hid : ∀ {kind : IdKind} {x y : Option (ReplicaId kind)},
      x.map (·.asStr) = y.map (·.asStr) → x = y :=
    fun h => Option.map_injective ReplicaId.asStr_injective h
  cases k with
  | add g linkId flags origin object =>
    cases k' with
    | add g' linkId' flags' origin' object' =>
      simp only [strings, List.mem_cons, List.mem_append] at hk hk'
      obtain ⟨-, htail⟩ := str_cancel (by decide) (by decide) hstate
      obtain ⟨hlink, htail⟩ := option_cancel (fun s hs => hk s (by simp [hs]))
        (fun s hs => hk' s (by simp [hs])) htail
      have hshort : ∀ (o : Option ReplicaOrigin) (x : Option String),
          (originFields o ++ optionFields x).length < 256 ^ 8 := by
        intro o x
        cases o <;> cases x <;> simp [originFields, optionFields]
      obtain ⟨rfl, hafter⟩ := flags_cancel (fun s hs => hk s (by simp [hs]))
        (fun s hs => hk' s (by simp [hs]))
        (rest_nulFree (fun s hs => hk s (by simp [hs])) (fun s hs => hk s (by simp [hs])))
        (rest_nulFree (fun s hs => hk' s (by simp [hs])) (fun s hs => hk' s (by simp [hs])))
        (hshort _ _) (hshort _ _) htail
      obtain ⟨rfl, hobject⟩ := origin_cancel hafter
      have hg : g = g' := hsame
      rw [hg, hid hlink, hid hobject]
    | remove | setFlags | update =>
      exact absurd (str_cancel (by decide) (by decide) hstate).1 (by decide)
  | remove g dest linkId ifMatch =>
    cases k' with
    | remove g' dest' linkId' ifMatch' =>
      obtain ⟨-, htail⟩ := str_cancel (by decide) (by decide) hstate
      rw [← List.append_nil (optionFields (dest.map _)),
        ← List.append_nil (optionFields (dest'.map _))] at htail
      obtain ⟨hdest, -⟩ := option_cancel (fun s hs => hk s (List.mem_cons_of_mem _ hs))
        (fun s hs => hk' s (List.mem_cons_of_mem _ hs)) htail
      have hg : g = g' := hsame
      rw [target, target, hg, hid hdest]
    | add | setFlags | update =>
      exact absurd (str_cancel (by decide) (by decide) hstate).1 (by decide)
  | setFlags g flags =>
    cases k' with
    | setFlags g' flags' =>
      obtain ⟨-, htail⟩ := str_cancel (by decide) (by decide) hstate
      rw [← List.append_nil flags.fields, ← List.append_nil flags'.fields] at htail
      obtain ⟨rfl, -⟩ := flags_cancel (fun s hs => hk s (List.mem_cons_of_mem _ hs))
        (fun s hs => hk' s (List.mem_cons_of_mem _ hs)) (by simp) (by simp) (by simp) (by simp) htail
      have hg : g = g' := hsame
      rw [hg]
    | add | remove | update =>
      exact absurd (str_cancel (by decide) (by decide) hstate).1 (by decide)
  | update g object ifMatch =>
    cases k' with
    | update g' object' ifMatch' =>
      obtain ⟨-, htail⟩ := str_cancel (by decide) (by decide) hstate
      obtain ⟨hobject, -⟩ := str_cancel (hk _ (by simp [strings])) (hk' _ (by simp [strings])) htail
      have hg : g = g' := hsame
      rw [target, target, hg, ReplicaId.asStr_injective hobject]
    | add | remove | setFlags =>
      exact absurd (str_cancel (by decide) (by decide) hstate).1 (by decide)

/-- A precondition, and the identity a remove moves, are not keyed. -/
theorem stream_target (k : ReplicaChangeKind) (c : ReplicaCollectionId) :
    k.target.stream c = k.stream c := by
  cases k <;> rfl

/-- The key of a change is a digest of the state it makes true: over strings without NUL the digested
bytes name that state and nothing else, a retry keys the same, and two keys agree exactly where the
digests of their bytes do. -/
theorem key_unambiguous {c c' : ReplicaCollectionId} {k k' : ReplicaChangeKind}
    (hc : NulFree c.asStr) (hc' : NulFree c'.asStr) (hk : ∀ s ∈ k.strings, NulFree s)
    (hk' : ∀ s ∈ k'.strings, NulFree s) :
    (k.stream c = k'.stream c' ↔ c = c' ∧ k.target = k'.target) ∧
      k.key c = (ReplicaChangeDigest.new.absorb (k.stream c)).finish ∧
      (c = c' ∧ k.target = k'.target → k.key c = k'.key c') ∧
      (k.key c = k'.key c' ↔ ReplicaChangeDigest.new.absorb (k.stream c) =
        ReplicaChangeDigest.new.absorb (k'.stream c')) := by
  have hstream : c = c' ∧ k.target = k'.target → k.stream c = k'.stream c' := by
    rintro ⟨rfl, htarget⟩
    rw [← k.stream_target, htarget, k'.stream_target]
  refine ⟨⟨stream_inj hc hc' hk hk', hstream⟩, k.key_eq c, ?_, ?_⟩
  · intro hsame
    rw [k.key_eq, k'.key_eq, hstream hsame]
  · rw [k.key_eq, k'.key_eq]
    exact ReplicaChangeDigest.finish_injective.eq_iff

/-- A marker that reads like a count or a tag is none. -/
theorem key_of_odd_markers :
    (setFlags ⟨"1"⟩ (.known {"known", "0"})).stream ⟨"inbox"⟩ ≠
      (setFlags ⟨"1"⟩ (.known {"known"})).stream ⟨"inbox"⟩ := by
  intro h
  have hnul : ∀ flags : Finset String, (∀ s ∈ flags, NulFree s) →
      ∀ s ∈ (setFlags ⟨"1"⟩ (.known flags)).strings, NulFree s := by
    intro flags hflags s hs
    rcases List.mem_cons.mp hs with rfl | hs
    · decide
    · exact hflags s (mem_flagNames.mp hs)
  have hstate := ((key_unambiguous (c := ⟨"inbox"⟩) (by decide) (by decide)
    (hnul {"known", "0"} (by decide)) (hnul {"known"} (by decide))).1.mp h).2
  exact absurd hstate (by decide)

end ReplicaChangeKind
end IoReplica

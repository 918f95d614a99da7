import Mathlib.Data.String.Basic
import Mathlib.Data.Finset.Basic
import Mathlib.Data.List.Nodup

/-! Finite maps over a linearly ordered key, and logs of keyed writes applied to them. -/
namespace OrderedMap

variable {K V : Type} [LinearOrder K]

theorem toList_pairwise (m : Std.ExtTreeMap K V) :
    m.toList.Pairwise (fun a b => a.1 < b.1) := by
  have h := Std.ExtTreeMap.ordered_keys_toList (t := m)
  refine h.imp ?_
  intro a b hab
  exact compare_lt_iff_lt.mp hab

variable [Std.LawfulEqOrd K]

theorem get_insert (m : Std.ExtTreeMap K V) (k a : K) (v : V) :
    (m.insert k v)[a]? = if k = a then some v else m[a]? := by
  simp only [Std.ExtTreeMap.getElem?_insert, Std.compare_eq_iff_eq]

theorem get_erase (m : Std.ExtTreeMap K V) (k a : K) :
    (m.erase k)[a]? = if k = a then none else m[a]? := by
  simp only [Std.ExtTreeMap.getElem?_erase, Std.compare_eq_iff_eq]

@[simp] theorem get_insert_self (m : Std.ExtTreeMap K V) (k : K) (v : V) :
    (m.insert k v)[k]? = some v := by
  rw [get_insert, if_pos rfl]

@[simp] theorem get_erase_self (m : Std.ExtTreeMap K V) (k : K) : (m.erase k)[k]? = none := by
  rw [get_erase, if_pos rfl]

theorem get_insert_of_ne (m : Std.ExtTreeMap K V) {k a : K} (v : V) (h : k ≠ a) :
    (m.insert k v)[a]? = m[a]? := by
  rw [get_insert, if_neg h]

theorem get_erase_of_ne (m : Std.ExtTreeMap K V) {k a : K} (h : k ≠ a) :
    (m.erase k)[a]? = m[a]? := by
  rw [get_erase, if_neg h]

@[simp] theorem union_empty_left (m : Std.ExtTreeMap K V) : ∅ ∪ m = m := by
  ext k
  simp [Std.ExtTreeMap.getElem?_union]

@[simp] theorem union_empty_right (m : Std.ExtTreeMap K V) : m ∪ ∅ = m := by
  ext k
  simp [Std.ExtTreeMap.getElem?_union]

theorem union_insert (m n : Std.ExtTreeMap K V) (k : K) (v : V) :
    m ∪ n.insert k v = (m ∪ n).insert k v := by
  ext a
  simp only [Std.ExtTreeMap.getElem?_union, get_insert]
  split_ifs <;> rfl

theorem mem_toList_iff (m : Std.ExtTreeMap K V) (k : K) (v : V) :
    (k, v) ∈ m.toList ↔ m[k]? = some v :=
  Std.ExtTreeMap.mem_toList_iff_getElem?_eq_some

/-- Looking an entry up in the listing is looking it up in the map. -/
theorem find_toList (m : Std.ExtTreeMap K V) (k : K) :
    (m.toList.find? (fun p => p.1 = k)).map (·.2) = m[k]? := by
  cases hf : m.toList.find? (fun p => p.1 = k) with
  | none =>
    cases hm : m[k]? with
    | none => rfl
    | some v =>
      have hmem := (mem_toList_iff m k v).mpr hm
      have hne := List.find?_eq_none.mp hf _ hmem
      simp at hne
  | some p =>
    have hk : p.1 = k := by simpa using List.find?_some hf
    have hmem := List.mem_of_find?_eq_some hf
    rw [Option.map_some, ← (mem_toList_iff m k p.2).mp (by rw [← hk]; exact hmem)]

/-- Inserting entries of distinct keys: each key ends with its own entry. -/
theorem foldl_insert_get (l : List (K × V)) (m : Std.ExtTreeMap K V) (k : K)
    (hl : l.Pairwise (fun a b => a.1 ≠ b.1)) :
    (l.foldl (fun m p => m.insert p.1 p.2) m)[k]? =
      ((l.find? (fun p => p.1 = k)).map (·.2)).or m[k]? := by
  induction l generalizing m with
  | nil => rfl
  | cons p l ih =>
    rw [List.pairwise_cons] at hl
    rw [List.foldl_cons, ih _ hl.2, get_insert, List.find?_cons]
    by_cases hk : p.1 = k
    · have hnone : l.find? (fun p => p.1 = k) = none := by
        rw [List.find?_eq_none]
        intro q hq
        have hne : p.1 ≠ q.1 := hl.1 q hq
        rw [hk] at hne
        simpa using hne.symm
      simp [hk, hnone]
    · simp [hk]

end OrderedMap

/-- One keyed write: store a value under its key, or delete the key. -/
inductive KeyedWrite (K V : Type)
  | put (key : K) (value : V)
  | del (key : K)

namespace KeyedWrite

variable {K V : Type} [LinearOrder K]

def key : KeyedWrite K V → K
  | .put k _ => k
  | .del k => k

/-- What the write leaves under its own key. -/
def value : KeyedWrite K V → Option V
  | .put _ v => some v
  | .del _ => none

def apply (m : Std.ExtTreeMap K V) : KeyedWrite K V → Std.ExtTreeMap K V
  | .put k v => m.insert k v
  | .del k => m.erase k

/-- A log of writes, applied in order. -/
def applyAll (m : Std.ExtTreeMap K V) (log : List (KeyedWrite K V)) : Std.ExtTreeMap K V :=
  log.foldl (fun m w => w.apply m) m

/-- The last write wins: what a log leaves under `k`, over `init`. -/
def last (k : K) (init : Option V) (log : List (KeyedWrite K V)) : Option V :=
  log.foldl (fun v w => if w.key = k then w.value else v) init

@[simp] theorem last_nil (k : K) (init : Option V) : last k init [] = init := rfl

@[simp] theorem last_cons (k : K) (init : Option V) (w : KeyedWrite K V)
    (log : List (KeyedWrite K V)) :
    last k init (w :: log) = last k (if w.key = k then w.value else init) log := rfl

theorem last_append (k : K) (init : Option V) (a b : List (KeyedWrite K V)) :
    last k init (a ++ b) = last k (last k init a) b := List.foldl_append ..

/-- Writes to other keys may be left out. -/
theorem last_filter (k : K) (init : Option V) (log : List (KeyedWrite K V)) :
    last k init (log.filter (fun w => w.key = k)) = last k init log := by
  induction log generalizing init with
  | nil => rfl
  | cons w log ih =>
    by_cases h : w.key = k
    · simp [h, ih]
    · simp [h, ih]

theorem last_of_untouched {k : K} {log : List (KeyedWrite K V)} (init : Option V)
    (h : ∀ w ∈ log, w.key ≠ k) : last k init log = init := by
  rw [← last_filter, List.filter_eq_nil_iff.mpr]
  · rfl
  · intro w hw
    simpa using h w hw

variable [Std.LawfulEqOrd K]

theorem get_apply (m : Std.ExtTreeMap K V) (w : KeyedWrite K V) (k : K) :
    (w.apply m)[k]? = if w.key = k then w.value else m[k]? := by
  cases w with
  | put => exact OrderedMap.get_insert ..
  | del => exact OrderedMap.get_erase ..

theorem get_applyAll (m : Std.ExtTreeMap K V) (log : List (KeyedWrite K V)) (k : K) :
    (applyAll m log)[k]? = last k m[k]? log := by
  induction log generalizing m with
  | nil => rfl
  | cons w log ih =>
    have h := ih (w.apply m)
    rw [get_apply] at h
    exact h

end KeyedWrite

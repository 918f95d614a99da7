import Mathlib.Data.List.Destutter
import Mathlib.Data.List.Sort

/-! Listings in any order collapsed to one entry a key, in key order: the first listed stays. -/
namespace Listing

theorem forall₂_mem_left {α β : Type} {R : α → β → Prop} {l : List α} {m : List β}
    (h : List.Forall₂ R l m) : ∀ a ∈ l, ∃ b ∈ m, R a b := by
  induction h with
  | nil => exact fun a ha => by cases ha
  | cons hab _ ih =>
    rintro a (_ | ⟨_, ha⟩)
    · exact ⟨_, List.mem_cons_self, hab⟩
    · obtain ⟨b, hb, hr⟩ := ih a ha
      exact ⟨b, List.mem_cons_of_mem _ hb, hr⟩

/-- A list split at the last entry of a key. -/
theorem last_listed {α K : Type} (key : α → K) {l : List α} {a : α} (ha : a ∈ l) :
    ∃ before b after, l = before ++ b :: after ∧ key b = key a ∧ ∀ c ∈ after, key c ≠ key a := by
  induction l using List.reverseRecOn with
  | nil => cases ha
  | append_singleton l b ih =>
    by_cases hb : key b = key a
    · exact ⟨l, b, [], rfl, hb, by simp⟩
    · have hal : a ∈ l := by
        rcases List.mem_append.mp ha with hal | hab
        · exact hal
        · rw [List.mem_singleton.mp hab] at hb
          exact absurd rfl hb
      obtain ⟨before, c, after, hl, hc, hafter⟩ := ih hal
      refine ⟨before, c, after ++ [b], by simp [hl], hc, ?_⟩
      intro d hd
      rcases List.mem_append.mp hd with hd | hd
      · exact hafter d hd
      · rw [List.mem_singleton.mp hd]
        exact hb

variable {α K : Type} [LinearOrder K] (key : α → K)

/-- A stable sort by key, then the first entry of every run of equal keys. -/
def collapse (l : List α) : List α :=
  (l.insertionSort (fun a b => key a ≤ key b)).destutter (fun a b => key a ≠ key b)

theorem pairwise_lt_of_chain_ne {l : List α} (hle : l.Pairwise (fun a b => key a ≤ key b))
    (hne : l.IsChain (fun a b => key a ≠ key b)) : l.Pairwise (fun a b => key a < key b) := by
  induction l with
  | nil => exact List.Pairwise.nil
  | cons a l ih =>
    rw [List.pairwise_cons] at hle
    cases l with
    | nil => exact List.pairwise_singleton _ _
    | cons b l =>
      rw [List.isChain_cons_cons] at hne
      have hrest := ih hle.2 hne.2
      have hab : key a < key b := lt_of_le_of_ne (hle.1 b List.mem_cons_self) hne.1
      refine List.pairwise_cons.mpr ⟨?_, hrest⟩
      intro c hc
      rcases List.mem_cons.mp hc with rfl | hc
      · exact hab
      · exact hab.trans ((List.pairwise_cons.mp hrest).1 c hc)

theorem insertionSort_pairwise (l : List α) :
    (l.insertionSort (fun a b => key a ≤ key b)).Pairwise (fun a b => key a ≤ key b) := by
  have hmap : ((l.insertionSort (fun a b => key a ≤ key b)).map key).Pairwise (· ≤ ·) := by
    rw [List.map_insertionSort (fun a b => key a ≤ key b) (· ≤ ·) key l (by simp)]
    exact List.pairwise_insertionSort (· ≤ ·) (l.map key)
  exact List.pairwise_map.mp hmap

/-- Where no key repeats, a listing sorts the same from any order. -/
theorem insertionSort_perm {l m : List α} (hperm : l.Perm m) (hkeys : (l.map key).Nodup) :
    l.insertionSort (fun a b => key a ≤ key b) = m.insertionSort (fun a b => key a ≤ key b) := by
  have hl := List.perm_insertionSort (fun a b => key a ≤ key b) l
  have hm := List.perm_insertionSort (fun a b => key a ≤ key b) m
  refine List.Perm.eq_of_pairwise ?_ (insertionSort_pairwise key l) (insertionSort_pairwise key m)
    (hl.trans (hperm.trans hm.symm))
  intro a b ha hb hab hba
  exact List.inj_on_of_nodup_map hkeys (hl.subset ha) (hperm.symm.subset (hm.subset hb))
    (le_antisymm hab hba)

theorem collapse_pairwise (l : List α) :
    (collapse key l).Pairwise (fun a b => key a < key b) := by
  have hle : (collapse key l).Pairwise (fun a b => key a ≤ key b) :=
    (insertionSort_pairwise key l).sublist (List.destutter_sublist _ _)
  exact pairwise_lt_of_chain_ne key hle (List.isChain_destutter _ _)

theorem filter_orderedInsert (k : K) (a : α) (l : List α) :
    (l.orderedInsert (fun a b => key a ≤ key b) a).filter (fun x => key x = k) =
      (a :: l).filter (fun x => key x = k) := by
  induction l with
  | nil => rfl
  | cons b l ih =>
    rw [List.orderedInsert_cons]
    split
    · rfl
    · rename_i hlt
      have hne : key b ≠ key a := fun he => hlt he.ge
      rw [List.filter_cons, ih]
      simp only [List.filter_cons]
      by_cases ha : key a = k
      · have hb : ¬ key b = k := fun hb => hne (hb.trans ha.symm)
        simp [ha, hb]
      · simp [ha]

/-- The sort is stable: under one key, the listing order stays. -/
theorem filter_insertionSort (k : K) (l : List α) :
    (l.insertionSort (fun a b => key a ≤ key b)).filter (fun x => key x = k) =
      l.filter (fun x => key x = k) := by
  induction l with
  | nil => rfl
  | cons a l ih =>
    rw [List.insertionSort_cons, filter_orderedInsert, List.filter_cons, List.filter_cons, ih]

theorem find_insertionSort (k : K) (l : List α) :
    (l.insertionSort (fun a b => key a ≤ key b)).find? (fun x => key x = k) =
      l.find? (fun x => key x = k) := by
  rw [← List.head?_filter, filter_insertionSort, List.head?_filter]

theorem find_destutter' (k : K) (a : α) (l : List α) :
    (l.destutter' (fun a b => key a ≠ key b) a).find? (fun x => key x = k) =
      (a :: l).find? (fun x => key x = k) := by
  induction l generalizing a with
  | nil => rfl
  | cons b l ih =>
    by_cases h : key a = key b
    · rw [List.destutter'_cons_neg _ (by simpa using h), ih]
      simp only [List.find?_cons]
      by_cases hb : key b = k
      · simp [h, hb]
      · simp [h, hb]
    · rw [List.destutter'_cons_pos _ h, List.find?_cons, ih, List.find?_cons (a := a)]

/-- A key keeps the first entry listed under it. -/
theorem find_collapse (k : K) (l : List α) :
    (collapse key l).find? (fun x => key x = k) = l.find? (fun x => key x = k) := by
  rw [collapse, ← find_insertionSort key k l]
  cases l.insertionSort (fun a b => key a ≤ key b) with
  | nil => rfl
  | cons a l => exact find_destutter' key k a l

/-- An ascending list holds an entry exactly where it finds it under its key. -/
theorem mem_iff_find {l : List α} (hl : l.Pairwise (fun a b => key a < key b)) (a : α) :
    a ∈ l ↔ l.find? (fun x => key x = key a) = some a := by
  constructor
  · intro ha
    have hkeys : (l.map key).Nodup := List.pairwise_map.mpr (hl.imp (fun h => h.ne))
    cases hf : l.find? (fun x => key x = key a) with
    | none =>
      have hnone := List.find?_eq_none.mp hf a ha
      simp at hnone
    | some x =>
      have hx : key x = key a := by simpa using List.find?_some hf
      rw [List.inj_on_of_nodup_map hkeys (List.mem_of_find?_eq_some hf) ha hx]
  · exact List.mem_of_find?_eq_some

/-- Ascending lists that find the same entry under every key are the same. -/
theorem ascending_ext {l m : List α} (hl : l.Pairwise (fun a b => key a < key b))
    (hm : m.Pairwise (fun a b => key a < key b))
    (h : ∀ k, l.find? (fun x => key x = k) = m.find? (fun x => key x = k)) : l = m := by
  have hnodup : ∀ {n : List α}, n.Pairwise (fun a b => key a < key b) → n.Nodup :=
    fun hn => hn.imp (fun h heq => h.ne (congrArg key heq))
  have hperm : l.Perm m := by
    refine (List.perm_ext_iff_of_nodup (hnodup hl) (hnodup hm)).mpr (fun a => ?_)
    rw [mem_iff_find key hl, mem_iff_find key hm, h]
  exact hperm.eq_of_pairwise (fun a b _ _ hab hba => absurd hab (lt_asymm hba)) hl hm

/-- A collapse is what its listing holds first under each key. -/
theorem collapse_congr {l m : List α}
    (h : ∀ k, l.find? (fun x => key x = k) = m.find? (fun x => key x = k)) :
    collapse key l = collapse key m := by
  refine ascending_ext key (collapse_pairwise key l) (collapse_pairwise key m) (fun k => ?_)
  rw [find_collapse, find_collapse, h]

/-- Two lists alike, but for entries that do not matter. -/
inductive Alike (P : α → Prop) : List α → List α → Prop
  | nil : Alike P [] []
  | both (a : α) {l m : List α} (rest : Alike P l m) : Alike P (a :: l) (a :: m)
  | left {a : α} {l m : List α} (idle : P a) (rest : Alike P l m) : Alike P (a :: l) m
  | right {a : α} {l m : List α} (idle : P a) (rest : Alike P l m) : Alike P l (a :: m)

theorem Alike.symm {P : α → Prop} {l m : List α} (h : Alike P l m) : Alike P m l := by
  induction h with
  | nil => exact .nil
  | both a _ ih => exact .both a ih
  | left idle _ ih => exact .right idle ih
  | right idle _ ih => exact .left idle ih

theorem Alike.mem {P : α → Prop} {l m : List α} (h : Alike P l m) {a : α} (ha : a ∈ l) :
    a ∈ m ∨ P a := by
  induction h with
  | nil => cases ha
  | both b _ ih =>
    rcases List.mem_cons.mp ha with rfl | ha
    · exact Or.inl List.mem_cons_self
    · exact (ih ha).imp_left (List.mem_cons_of_mem _)
  | left idle _ ih =>
    rcases List.mem_cons.mp ha with rfl | ha
    · exact Or.inr idle
    · exact ih ha
  | right _ _ ih => exact (ih ha).imp_left (List.mem_cons_of_mem _)

/-- Ascending lists that hold the same entries, but for those that do not matter. -/
theorem alike_of_ascending {P : α → Prop} (l m : List α)
    (hl : l.Pairwise (fun a b => key a < key b)) (hm : m.Pairwise (fun a b => key a < key b))
    (hlm : ∀ a ∈ l, a ∈ m ∨ P a) (hml : ∀ a ∈ m, a ∈ l ∨ P a) : Alike P l m := by
  induction l generalizing m with
  | nil =>
    induction m with
    | nil => exact .nil
    | cons b m ih =>
      have hb : P b := (hml b List.mem_cons_self).resolve_left (by simp)
      exact .right hb (ih (List.pairwise_cons.mp hm).2 (by simp)
        (fun a ha => hml a (List.mem_cons_of_mem _ ha)))
  | cons a l ihl =>
    obtain ⟨ha, hl'⟩ := List.pairwise_cons.mp hl
    induction m with
    | nil =>
      have hPa : P a := (hlm a List.mem_cons_self).resolve_left (by simp)
      exact .left hPa (ihl [] hl' hm (fun x hx => hlm x (List.mem_cons_of_mem _ hx)) (by simp))
    | cons b m ihm =>
      obtain ⟨hb, hm'⟩ := List.pairwise_cons.mp hm
      -- an entry below the other list's head is not in that list
      have hskip : ∀ {x y : α} {n : List α}, x ∈ y :: n → (∀ z ∈ n, key y < key z) → x ≠ y →
          key y < key x := by
        intro x y n hx hn hne
        rcases List.mem_cons.mp hx with rfl | hx
        · exact absurd rfl hne
        · exact hn x hx
      by_cases hab : a = b
      · subst hab
        refine .both a (ihl m hl' hm' ?_ ?_)
        · intro x hx
          refine (hlm x (List.mem_cons_of_mem _ hx)).imp_left (fun h => ?_)
          rcases List.mem_cons.mp h with rfl | h
          · exact absurd (ha x hx) (lt_irrefl _)
          · exact h
        · intro x hx
          refine (hml x (List.mem_cons_of_mem _ hx)).imp_left (fun h => ?_)
          rcases List.mem_cons.mp h with rfl | h
          · exact absurd (hb x hx) (lt_irrefl _)
          · exact h
      · rcases lt_or_ge (key b) (key a) with hlt | hle
        · have hPb : P b := by
            refine (hml b List.mem_cons_self).resolve_left (fun h => ?_)
            exact lt_asymm hlt (hskip h ha (Ne.symm hab))
          refine .right hPb (ihm hm' ?_ (fun x hx => hml x (List.mem_cons_of_mem _ hx)))
          intro x hx
          refine (hlm x hx).imp_left (fun h => ?_)
          rcases List.mem_cons.mp h with rfl | h
          · rcases List.mem_cons.mp hx with rfl | hx
            · exact absurd hlt (lt_irrefl _)
            · exact absurd (ha x hx) (lt_asymm hlt)
          · exact h
        · have hPa : P a := by
            refine (hlm a List.mem_cons_self).resolve_left (fun h => ?_)
            exact not_lt_of_ge hle (hskip h hb hab)
          refine .left hPa (ihl (b :: m) hl' hm
            (fun x hx => hlm x (List.mem_cons_of_mem _ hx)) ?_)
          intro x hx
          refine (hml x hx).imp_left (fun h => ?_)
          rcases List.mem_cons.mp h with rfl | h
          · rcases List.mem_cons.mp hx with rfl | hx
            · exact absurd rfl hab
            · exact absurd (hb x hx) (not_lt_of_ge hle)
          · exact h

end Listing

import Mathlib.Data.List.Basic

/-! Names claimed in turn: a claimant keeps the name it hints at while nobody has it, and takes a
minted one otherwise. -/
namespace Claims

variable {K L : Type} (mint : L → K → L) (held : L → Prop)

/-- A claimant whose hint is held, is an earlier claimant's, or was minted before. -/
inductive Second (entries : List (K × L)) : ℕ → Prop
  | held {i : ℕ} {e : K × L} (entry : entries[i]? = some e) (taken : held e.2) : Second entries i
  | repeated {i j : ℕ} {e e' : K × L} (entry : entries[i]? = some e) (earlier : j < i)
      (entry' : entries[j]? = some e') (same : e'.2 = e.2) : Second entries i
  | minted {i j : ℕ} {e e' : K × L} (entry : entries[i]? = some e) (earlier : j < i)
      (entry' : entries[j]? = some e') (copy : Second entries j) (same : mint e'.2 e'.1 = e.2) :
      Second entries i

/-- The name each claimant gets. -/
inductive Gets (entries : List (K × L)) : ℕ → L → Prop
  | bare {i : ℕ} {e : K × L} (entry : entries[i]? = some e)
      (first : ¬ Second mint held entries i) : Gets entries i e.2
  | minted {i : ℕ} {e : K × L} (entry : entries[i]? = some e)
      (copy : Second mint held entries i) : Gets entries i (mint e.2 e.1)

variable {mint held} {entries : List (K × L)}

theorem Gets.unique {i : ℕ} {l l' : L} (h : Gets mint held entries i l)
    (h' : Gets mint held entries i l') : l = l' := by
  cases h with
  | bare entry first =>
    cases h' with
    | bare entry' =>
      rw [entry] at entry'
      cases entry'
      rfl
    | minted entry' copy => exact absurd copy first
  | minted entry copy =>
    cases h' with
    | bare entry' first => exact absurd copy first
    | minted entry' =>
      rw [entry] at entry'
      cases entry'
      rfl

/-- A second claimant is one whose hint is held, or is the name of an earlier claimant. -/
theorem second_iff {i : ℕ} {e : K × L} (hi : entries[i]? = some e) :
    Second mint held entries i ↔ held e.2 ∨ ∃ j < i, Gets mint held entries j e.2 := by
  constructor
  · intro h
    induction i using Nat.strongRecOn generalizing e with
    | ind i ih =>
      cases h with
      | held entry taken =>
        rw [hi] at entry
        cases entry
        exact Or.inl taken
      | @repeated _ j _ e' entry earlier entry' same =>
        rw [hi] at entry
        cases entry
        by_cases hcopy : Second mint held entries j
        · -- the hint had a claimant before `j` already
          rcases ih j earlier entry' hcopy with h | ⟨k, hk, h⟩
          · exact Or.inl (same ▸ h)
          · exact Or.inr ⟨k, Nat.lt_trans hk earlier, same ▸ h⟩
        · exact Or.inr ⟨j, earlier, same ▸ .bare entry' hcopy⟩
      | minted entry earlier entry' copy same =>
        rw [hi] at entry
        cases entry
        exact Or.inr ⟨_, earlier, same ▸ .minted entry' copy⟩
  · rintro (h | ⟨j, hj, h⟩)
    · exact .held hi h
    · generalize hl : e.2 = l at h
      cases h with
      | bare entry first => exact .repeated hi hj entry hl.symm
      | minted entry copy => exact .minted hi hj entry copy hl.symm

/-- Where no hint is held and no two claimants hint alike, there is no second claimant. -/
theorem not_second (hnew : ∀ e ∈ entries, ¬ held e.2)
    (hapart : ∀ (i j : ℕ) (e e' : K × L), entries[i]? = some e → entries[j]? = some e' →
      e'.2 = e.2 → j = i)
    (i : ℕ) : ¬ Second mint held entries i := by
  intro h
  induction h with
  | held entry taken => exact hnew _ (List.mem_of_getElem? entry) taken
  | repeated entry earlier entry' same =>
    exact Nat.ne_of_lt earlier (hapart _ _ _ _ entry entry' same)
  | minted _ _ _ _ _ ih => exact ih

/-- Whether a hint is held matters only for the hints claimed. -/
theorem Second.mono {held' : L → Prop} (hheld : ∀ e ∈ entries, held e.2 → held' e.2) {i : ℕ}
    (h : Second mint held entries i) : Second mint held' entries i := by
  induction h with
  | held entry taken => exact .held entry (hheld _ (List.mem_of_getElem? entry) taken)
  | repeated entry earlier entry' same => exact .repeated entry earlier entry' same
  | minted entry earlier entry' _ same ih => exact .minted entry earlier entry' ih same

theorem Gets.congr {held' : L → Prop} (hheld : ∀ e ∈ entries, held e.2 ↔ held' e.2) {i : ℕ} {l : L}
    (h : Gets mint held entries i l) : Gets mint held' entries i l := by
  cases h with
  | bare entry first => exact .bare entry (fun hc => first (hc.mono (fun e he => (hheld e he).mpr)))
  | minted entry copy => exact .minted entry (copy.mono (fun e he => (hheld e he).mp))

/-- Later claimants change nothing for the earlier ones. -/
theorem second_append (more : List (K × L)) {i : ℕ} (hi : i < entries.length) :
    Second mint held (entries ++ more) i ↔ Second mint held entries i := by
  constructor
  · intro h
    induction h with
    | held entry taken =>
      rw [List.getElem?_append_left hi] at entry
      exact .held entry taken
    | repeated entry earlier entry' same =>
      rw [List.getElem?_append_left hi] at entry
      rw [List.getElem?_append_left (Nat.lt_trans earlier hi)] at entry'
      exact .repeated entry earlier entry' same
    | minted entry earlier entry' _ same ih =>
      rw [List.getElem?_append_left hi] at entry
      rw [List.getElem?_append_left (Nat.lt_trans earlier hi)] at entry'
      exact .minted entry earlier entry' (ih (Nat.lt_trans earlier hi)) same
  · intro h
    clear hi
    have hmono : ∀ {k : ℕ} {e : K × L}, entries[k]? = some e → (entries ++ more)[k]? = some e := by
      intro k e hk
      rw [List.getElem?_append_left (List.getElem?_eq_some_iff.mp hk).1]
      exact hk
    induction h with
    | held entry taken => exact .held (hmono entry) taken
    | repeated entry earlier entry' same =>
      exact .repeated (hmono entry) earlier (hmono entry') same
    | minted entry earlier entry' _ same ih =>
      exact .minted (hmono entry) earlier (hmono entry') ih same

theorem Gets.lt {i : ℕ} {l : L} (h : Gets mint held entries i l) : i < entries.length := by
  cases h with
  | bare entry | minted entry => exact (List.getElem?_eq_some_iff.mp entry).1

theorem gets_append (more : List (K × L)) {i : ℕ} (hi : i < entries.length) {l : L} :
    Gets mint held (entries ++ more) i l ↔ Gets mint held entries i l := by
  have hentry : (entries ++ more)[i]? = entries[i]? := List.getElem?_append_left hi
  constructor
  · rintro (⟨entry, first⟩ | ⟨entry, copy⟩)
    · exact .bare (hentry ▸ entry) (fun h => first ((second_append more hi).mpr h))
    · exact .minted (hentry ▸ entry) ((second_append more hi).mp copy)
  · rintro (⟨entry, first⟩ | ⟨entry, copy⟩)
    · exact .bare (hentry ▸ entry) (fun h => first ((second_append more hi).mp h))
    · exact .minted (hentry ▸ entry) ((second_append more hi).mpr copy)

/-- The next claimant is a second one if its hint is held or some claimant's name. -/
theorem second_last (e : K × L) : Second mint held (entries ++ [e]) entries.length ↔
    held e.2 ∨ ∃ i, Gets mint held entries i e.2 := by
  have hlast : (entries ++ [e])[entries.length]? = some e := by simp
  rw [second_iff hlast]
  refine or_congr_right ⟨?_, ?_⟩
  · rintro ⟨j, hj, h⟩
    exact ⟨j, (gets_append [e] hj).mp h⟩
  · rintro ⟨j, h⟩
    exact ⟨j, h.lt, (gets_append [e] h.lt).mpr h⟩

/-- One more claimant adds its own name to those gotten. -/
theorem gets_push (e : K × L) (l : L) : (∃ i, Gets mint held (entries ++ [e]) i l) ↔
    (∃ i, Gets mint held entries i l) ∨ Gets mint held (entries ++ [e]) entries.length l := by
  constructor
  · rintro ⟨i, h⟩
    have hi := h.lt
    rw [List.length_append, List.length_singleton] at hi
    rcases Nat.lt_succ_iff_lt_or_eq.mp hi with hlt | rfl
    · exact Or.inl ⟨i, (gets_append [e] hlt).mp h⟩
    · exact Or.inr h
  · rintro (⟨i, h⟩ | h)
    · exact ⟨i, (gets_append [e] h.lt).mpr h⟩
    · exact ⟨_, h⟩

/-- The names minted for the claimants that count stay clear: nobody held them, no earlier claimant
hints at and keeps them, and no two are the same. -/
structure Clear (mint : L → K → L) (held : L → Prop) (entries : List (K × L)) (counts : ℕ → Prop) :
    Prop where
  unheld : ∀ i e, entries[i]? = some e → counts i → Second mint held entries i →
    ¬ held (mint e.2 e.1)
  unhinted : ∀ i j e e', j < i → entries[i]? = some e → entries[j]? = some e' → counts i →
    counts j → Second mint held entries i → ¬ Second mint held entries j → mint e.2 e.1 ≠ e'.2
  apart : ∀ i j e e', j < i → entries[i]? = some e → entries[j]? = some e' → counts i →
    counts j → Second mint held entries i → Second mint held entries j →
    mint e.2 e.1 ≠ mint e'.2 e'.1

/-- The names the claimants that count get were held by nobody and are distinct, exactly when those
minted stay clear. -/
theorem distinct_iff (counts : ℕ → Prop) :
    ((∀ i l, counts i → Gets mint held entries i l → ¬ held l) ∧
      ∀ i j l, j < i → counts i → counts j → Gets mint held entries i l →
        ¬ Gets mint held entries j l) ↔ Clear mint held entries counts := by
  constructor
  · rintro ⟨hnew, hdistinct⟩
    refine ⟨?_, ?_, ?_⟩
    · intro i e hi hcounts hcopy
      exact hnew i _ hcounts (.minted hi hcopy)
    · intro i j e e' hji hi hj hci hcj hcopy hfirst heq
      exact hdistinct i j _ hji hci hcj (.minted hi hcopy) (heq ▸ .bare hj hfirst)
    · intro i j e e' hji hi hj hci hcj hcopy hcopy' heq
      exact hdistinct i j _ hji hci hcj (.minted hi hcopy) (heq ▸ .minted hj hcopy')
  · intro hclear
    refine ⟨?_, ?_⟩
    · intro i l hcounts hgets hheld
      cases hgets with
      | bare entry first => exact first (.held entry hheld)
      | minted entry copy => exact hclear.unheld i _ entry hcounts copy hheld
    · intro i j l hji hci hcj hgets hgets'
      cases hgets with
      | bare entry first => exact first ((second_iff entry).mpr (Or.inr ⟨j, hji, hgets'⟩))
      | minted entry copy =>
        rename_i e
        generalize hl : mint e.2 e.1 = l at hgets'
        cases hgets' with
        | bare entry' first' =>
          exact hclear.unhinted i j _ _ hji entry entry' hci hcj copy first' hl
        | minted entry' copy' =>
          exact hclear.apart i j _ _ hji entry entry' hci hcj copy copy' hl

end Claims

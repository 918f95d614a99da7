import Mathlib.Data.Set.Basic
import Mathlib.Data.Nat.Basic

/-! A set of keys that stamps each change with a counter, deltas of it, and the mirrors they keep. -/
namespace Tracking

/-- The live keys, each stamped by its last change, and the removals. -/
structure Tracked (K : Type) where
  clock : ℕ
  stamp : K → Option ℕ
  removals : Set (ℕ × K)

variable {K : Type} {a b c : Tracked K} {s : ℕ} {held held' : Set K}

namespace Tracked

/-- A later state: what changed since is stamped past the clock, and what went is on record. -/
structure Later (a b : Tracked K) : Prop where
  clock : a.clock ≤ b.clock
  unchanged : ∀ k n, b.stamp k = some n → n ≤ a.clock → a.stamp k = some n
  gone : ∀ k, (a.stamp k).isSome → b.stamp k = none → ∃ n, a.clock < n ∧ (n, k) ∈ b.removals
  recorded : a.removals ⊆ b.removals

theorem Later.refl (a : Tracked K) : a.Later a := by
  refine ⟨le_rfl, fun k n hk _ => hk, fun k hlive hgone => ?_, subset_rfl⟩
  rw [hgone] at hlive
  cases hlive

theorem Later.trans (hab : a.Later b) (hbc : b.Later c) : a.Later c := by
  refine ⟨hab.clock.trans hbc.clock, fun k n hk hn => ?_, fun k hlive hgone => ?_,
    hab.recorded.trans hbc.recorded⟩
  · exact hab.unchanged k n (hbc.unchanged k n hk (hn.trans hab.clock)) hn
  · cases hb : b.stamp k with
    | none =>
      obtain ⟨n, hn, hmem⟩ := hab.gone k hlive hb
      exact ⟨n, hn, hbc.recorded hmem⟩
    | some m =>
      obtain ⟨n, hn, hmem⟩ := hbc.gone k (Option.isSome_of_eq_some hb) hgone
      exact ⟨n, hab.clock.trans_lt hn, hmem⟩

/-- The keys live now. -/
def live (a : Tracked K) : Set K := {k | (a.stamp k).isSome}

/-- The keys changed past a counter value. -/
def changed (a : Tracked K) (s : ℕ) : Set K := {k | ∃ n, a.stamp k = some n ∧ s < n}

/-- The keys removed past a counter value, and not live again. -/
def vanished (a : Tracked K) (s : ℕ) : Set K :=
  {k | a.stamp k = none ∧ ∃ n, s < n ∧ (n, k) ∈ a.removals}

/-- A delta since `s` is enough for a mirror of `s`: each live key that did not change since is held,
and each key held that is no longer live was removed since. -/
structure Mirrors (a : Tracked K) (s : ℕ) (held : Set K) : Prop where
  covers : ∀ k n, a.stamp k = some n → n ≤ s → k ∈ held
  stale : ∀ k ∈ held, a.stamp k = none → ∃ n, s < n ∧ (n, k) ∈ a.removals

theorem Mirrors.live (a : Tracked K) : a.Mirrors a.clock a.live := by
  refine ⟨fun k n hk _ => Option.isSome_of_eq_some hk, fun k hk hgone => ?_⟩
  have hlive : (a.stamp k).isSome := hk
  rw [hgone] at hlive
  cases hlive

/-- What a mirror holds past a delta is what is live. -/
theorem Mirrors.delta (h : a.Mirrors s held) : (held \ a.vanished s) ∪ a.changed s = a.live := by
  ext k
  constructor
  · rintro (⟨hheld, hkept⟩ | ⟨n, hk, -⟩)
    · cases hk : a.stamp k with
      | none => exact absurd ⟨hk, h.stale k hheld hk⟩ hkept
      | some n => exact Option.isSome_of_eq_some hk
    · exact Option.isSome_of_eq_some hk
  · intro hlive
    obtain ⟨n, hk⟩ := Option.isSome_iff_exists.mp hlive
    by_cases hn : n ≤ s
    · refine Or.inl ⟨h.covers k n hk hn, fun hgone => ?_⟩
      have hnone : a.stamp k = none := hgone.1
      rw [hk] at hnone
      cases hnone
    · exact Or.inr ⟨n, hk, not_le.mp hn⟩

/-- A mirror stays one while it forgets only keys that were gone at some point, and adopts only keys
that were live at some point. -/
theorem Mirrors.later (h : a.Mirrors s held) (hs : s ≤ a.clock) (hab : a.Later b)
    (forgets : ∀ k ∈ held, k ∉ held' → ∃ v, a.Later v ∧ v.stamp k = none ∧ v.Later b)
    (adopts : ∀ k ∈ held', k ∉ held → ∃ v, a.Later v ∧ (v.stamp k).isSome ∧ v.Later b) :
    b.Mirrors s held' := by
  refine ⟨fun k n hk hn => ?_, fun k hk hgone => ?_⟩
  · have hheld := h.covers k n (hab.unchanged k n hk (hn.trans hs)) hn
    by_contra hnot
    obtain ⟨v, hav, hv, hvb⟩ := forgets k hheld hnot
    have hlive := hvb.unchanged k n hk ((hn.trans hs).trans hav.clock)
    rw [hv] at hlive
    cases hlive
  · by_cases hheld : k ∈ held
    · cases ha : a.stamp k with
      | none =>
        obtain ⟨n, hn, hmem⟩ := h.stale k hheld ha
        exact ⟨n, hn, hab.recorded hmem⟩
      | some n =>
        obtain ⟨m, hm, hmem⟩ := hab.gone k (Option.isSome_of_eq_some ha) hgone
        exact ⟨m, hs.trans_lt hm, hmem⟩
    · obtain ⟨v, hav, hlive, hvb⟩ := adopts k hk hheld
      obtain ⟨n, hn, hmem⟩ := hvb.gone k hlive hgone
      exact ⟨n, (hs.trans hav.clock).trans_lt hn, hmem⟩

end Tracked
end Tracking

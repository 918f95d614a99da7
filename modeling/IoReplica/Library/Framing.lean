import Mathlib.Data.List.Basic
import Mathlib.Tactic.IntervalCases

/-! Streams of terminated fields, and numerals of a fixed width: both are read back. -/
namespace Framing

section Fields
variable {α : Type} (stop : α)

/-- A field, ended with the terminator. -/
def field (bytes : List α) : List α := bytes ++ [stop]

def fields (fs : List (List α)) : List α := fs.flatMap (field stop)

@[simp] theorem fields_nil : fields stop [] = [] := rfl

@[simp] theorem fields_cons (f : List α) (fs : List (List α)) :
    fields stop (f :: fs) = field stop f ++ fields stop fs := rfl

variable {stop}

/-- A field without the terminator is cancelled from the front of a stream. -/
theorem field_cancel {f g u v : List α} (hf : stop ∉ f) (hg : stop ∉ g)
    (h : field stop f ++ u = field stop g ++ v) : f = g ∧ u = v := by
  induction f generalizing g with
  | nil =>
    cases g with
    | nil => exact ⟨rfl, List.tail_eq_of_cons_eq h⟩
    | cons b g =>
      obtain ⟨hb, -⟩ := List.cons.inj h
      rw [hb] at hg
      exact absurd List.mem_cons_self hg
  | cons a f ih =>
    cases g with
    | nil =>
      obtain ⟨ha, -⟩ := List.cons.inj h
      rw [← ha] at hf
      exact absurd List.mem_cons_self hf
    | cons b g =>
      obtain ⟨rfl, hrest⟩ := List.cons.inj h
      obtain ⟨rfl, rfl⟩ := ih (fun ha => hf (List.mem_cons_of_mem _ ha))
        (fun hb => hg (List.mem_cons_of_mem _ hb)) hrest
      exact ⟨rfl, rfl⟩

/-- A field of a known length is cancelled whatever it holds. -/
theorem block_cancel {f g u v : List α} (hlength : f.length = g.length)
    (h : field stop f ++ u = field stop g ++ v) : f = g ∧ u = v := by
  obtain ⟨hfield, rfl⟩ := List.append_inj h (by simp [field, hlength])
  exact ⟨(List.append_inj hfield hlength).1, rfl⟩

/-- Fields without the terminator are read off their stream to its end. -/
theorem fields_inj {fs gs : List (List α)} (hf : ∀ f ∈ fs, stop ∉ f) (hg : ∀ g ∈ gs, stop ∉ g)
    (h : fields stop fs = fields stop gs) : fs = gs := by
  induction fs generalizing gs with
  | nil =>
    cases gs with
    | nil => rfl
    | cons g gs => simp [field] at h
  | cons f fs ih =>
    cases gs with
    | nil => simp [field] at h
    | cons g gs =>
      obtain ⟨rfl, hrest⟩ := field_cancel (hf f List.mem_cons_self) (hg g List.mem_cons_self) h
      rw [ih (fun x hx => hf x (List.mem_cons_of_mem _ hx))
        (fun x hx => hg x (List.mem_cons_of_mem _ hx)) hrest]

end Fields

/-- A count known up to a modulus splits a list whose tails are shorter than it. -/
theorem counted_cancel {β : Type} {n : ℕ} {fs gs u v : List β}
    (hcount : fs.length % n = gs.length % n) (hu : u.length < n) (hv : v.length < n)
    (h : fs ++ u = gs ++ v) : fs = gs ∧ u = v := by
  have htotal : fs.length + u.length = gs.length + v.length := by
    rw [← List.length_append, h, List.length_append]
  have hover := Nat.sub_mod_eq_zero_of_mod_eq hcount
  have hunder := Nat.sub_mod_eq_zero_of_mod_eq hcount.symm
  rw [Nat.mod_eq_of_lt (by omega)] at hover hunder
  have hlength : fs.length = gs.length := by omega
  exact List.append_inj h hlength

section Numerals

/-- The value of a hexadecimal digit. -/
def hexDigit (c : Char) : ℕ := if c.toNat < 58 then c.toNat - 48 else c.toNat - 87

/-- The value of a hexadecimal numeral. -/
def hexValue (cs : List Char) : ℕ := cs.foldl (fun n c => 16 * n + hexDigit c) 0

theorem hexDigit_digitChar {d : ℕ} (hd : d < 16) : hexDigit d.digitChar = d := by
  interval_cases d <;> rfl

theorem hexValue_append (cs : List Char) (c : Char) :
    hexValue (cs ++ [c]) = 16 * hexValue cs + hexDigit c := by
  simp [hexValue]

theorem hexValue_toDigits (n : ℕ) : hexValue (Nat.toDigits 16 n) = n := by
  induction n using Nat.strong_induction_on with
  | _ n ih =>
    by_cases hn : n < 16
    · rw [Nat.toDigits_of_lt_base hn]
      simpa [hexValue] using hexDigit_digitChar hn
    · have hlt : n / 16 < n := Nat.div_lt_self (by omega) (by omega)
      rw [Nat.toDigits_of_base_le (by omega) (by omega), hexValue_append, ih _ hlt,
        hexDigit_digitChar (Nat.mod_lt _ (by omega))]
      omega

theorem hexValue_pad (k : ℕ) (cs : List Char) :
    hexValue (List.replicate k '0' ++ cs) = hexValue cs := by
  induction k with
  | zero => rfl
  | succ k ih =>
    rw [List.replicate_succ, List.cons_append]
    exact ih

end Numerals

end Framing

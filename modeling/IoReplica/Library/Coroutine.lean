import Mathlib.Data.List.Basic
import Mathlib.Data.Option.Defs
import Mathlib.Order.WellFounded

/-! Coroutines that ask and are answered: their transcripts, their drivers, and completion. -/
namespace Coroutine

/-- What one resume hands back: a request to service, or the terminal output. -/
inductive Step (Y R : Type)
  | yielded (y : Y)
  | complete (r : R)

/-- The same kind of step: matching requests, or the same output. -/
inductive Step.Rel {Y R : Type} (Q : Y → Y → Prop) : Step Y R → Step Y R → Prop
  | yielded {y y' : Y} (matching : Q y y') : Step.Rel Q (.yielded y) (.yielded y')
  | complete (r : R) : Step.Rel Q (.complete r) (.complete r)

section Transcripts

variable {C Y A R : Type} (resume : C → Option A → C × Step Y R)

/-- Resuming `c` with `a` and answering `t`'s requests leads to resuming `c'` with `a'`. -/
inductive Reaches : C → Option A → List (Y × A) → C → Option A → Prop
  | refl (c : C) (a : Option A) : Reaches c a [] c a
  | ask {c c' c'' : C} {a a'' : Option A} {y : Y} {b : A} {t : List (Y × A)}
      (yields : resume c a = (c', .yielded y)) (rest : Reaches c' (some b) t c'' a'') :
      Reaches c a ((y, b) :: t) c'' a''

/-- Resuming `c` with `a` and answering `t`'s requests ends with the output `r`. -/
inductive Runs : C → Option A → List (Y × A) → R → Prop
  | done {c c' : C} {a : Option A} {r : R} (completes : resume c a = (c', .complete r)) :
      Runs c a [] r
  | ask {c c' : C} {a : Option A} {y : Y} {b : A} {t : List (Y × A)} {r : R}
      (yields : resume c a = (c', .yielded y)) (rest : Runs c' (some b) t r) :
      Runs c a ((y, b) :: t) r

variable {resume}

theorem Reaches.runs {c c' : C} {a a' : Option A} {t u : List (Y × A)} {r : R}
    (h : Reaches resume c a t c' a') (hr : Runs resume c' a' u r) :
    Runs resume c a (t ++ u) r := by
  induction h with
  | refl => exact hr
  | ask yields _ ih => exact .ask yields (ih hr)

theorem Reaches.trans {c c' c'' : C} {a a' a'' : Option A} {t u : List (Y × A)}
    (h : Reaches resume c a t c' a') (h' : Reaches resume c' a' u c'' a'') :
    Reaches resume c a (t ++ u) c'' a'' := by
  induction h with
  | refl => exact h'
  | ask yields _ ih => exact .ask yields (ih h')

/-- What each exchange keeps, with the transcript so far, holds wherever a run stands. -/
theorem Reaches.invariant {I : List (Y × A) → C → Option A → Prop}
    (hstep : ∀ t c c' a y b, I t c a → resume c a = (c', .yielded y) → I (t ++ [(y, b)]) c' (some b))
    {c c' : C} {a a' : Option A} {t u : List (Y × A)} (h : Reaches resume c a u c' a')
    (hi : I t c a) : I (t ++ u) c' a' := by
  induction h generalizing t with
  | refl => rwa [List.append_nil]
  | ask yields _ ih =>
    have hnext := ih (hstep t _ _ _ _ _ hi yields)
    rwa [List.append_assoc] at hnext

/-- A run resumes with the last answer it was given. -/
theorem Reaches.last {c c' : C} {a a' : Option A} {t : List (Y × A)} {y : Y} {b : A}
    (h : Reaches resume c a (t ++ [(y, b)]) c' a') : a' = some b := by
  have hlast := h.invariant (t := [])
    (I := fun u _ x => ∀ pre e, u = pre ++ [e] → x = some e.2)
    (fun u _ _ _ y b _ _ pre e he => by
      obtain ⟨-, hb⟩ := List.append_inj' he rfl
      rw [← (List.cons.inj hb).1])
    (fun pre e he => absurd he (by simp))
  exact hlast t (y, b) rfl

/-- A run stands somewhere after each of its exchanges, with the rest to go. -/
theorem Runs.reaches {c : C} {a : Option A} {t u : List (Y × A)} {r : R}
    (h : Runs resume c a (t ++ u) r) :
    ∃ c' a', Reaches resume c a t c' a' ∧ Runs resume c' a' u r := by
  induction t generalizing c a with
  | nil => exact ⟨c, a, .refl c a, h⟩
  | cons e t ih =>
    cases h with
    | ask yields rest =>
      obtain ⟨c', a', hreach, hruns⟩ := ih rest
      exact ⟨c', a', .ask yields hreach, hruns⟩

/-- What a run has left, from wherever it stands. -/
theorem Reaches.rest {c c' : C} {a a' : Option A} {t u : List (Y × A)} {r : R}
    (h : Reaches resume c a t c' a') (hr : Runs resume c a (t ++ u) r) :
    Runs resume c' a' u r := by
  induction h with
  | refl => exact hr
  | ask yields _ ih =>
    cases hr with
    | ask yields' rest =>
      cases yields.symm.trans yields'
      exact ih rest

/-- How a run goes on from what one resume handed back. -/
def Ends (resume : C → Option A → C × Step Y R) (out : C × Step Y R) (t : List (Y × A)) (r : R) :
    Prop :=
  match out with
  | (c, .yielded y) => ∃ b u, t = (y, b) :: u ∧ Runs resume c (some b) u r
  | (_, .complete r') => t = [] ∧ r' = r

theorem Runs.ends {c : C} {a : Option A} {t : List (Y × A)} {r : R}
    (h : Runs resume c a t r) : Ends resume (resume c a) t r := by
  cases h with
  | done completes =>
    rw [completes]
    exact ⟨rfl, rfl⟩
  | ask yields rest =>
    rw [yields]
    exact ⟨_, _, rfl, rest⟩

theorem Ends.runs {c : C} {a : Option A} {t : List (Y × A)} {r : R}
    (h : Ends resume (resume c a) t r) : Runs resume c a t r := by
  cases hr : resume c a with
  | mk c' step =>
    rw [hr] at h
    cases step with
    | complete r' =>
      obtain ⟨rfl, rfl⟩ := h
      exact .done hr
    | yielded y =>
      obtain ⟨b, u, rfl, hrest⟩ := h
      exact .ask hr hrest

/-- Coroutines that answer every resume alike, and stay related, run alike. -/
theorem Runs.simulate {S : C → C → Prop}
    (hS : ∀ c d a, S c d → (resume c a).2 = (resume d a).2 ∧ S (resume c a).1 (resume d a).1)
    {c d : C} {a : Option A} {t : List (Y × A)} {r : R} (h : Runs resume c a t r) (hcd : S c d) :
    Runs resume d a t r := by
  induction h generalizing d with
  | done completes =>
    obtain ⟨hstep, -⟩ := hS _ _ _ hcd
    rw [completes] at hstep
    exact .done (Prod.ext rfl hstep.symm)
  | ask yields _ ih =>
    obtain ⟨hstep, hrel⟩ := hS _ _ _ hcd
    rw [yields] at hstep hrel
    exact .ask (Prod.ext rfl hstep.symm) (ih hrel)

/-- Coroutines handed matching answers, which ask alike and stay related, run alike: whatever
matching answers the second is handed, it completes with the first's result. -/
theorem Runs.matching {S : C → C → Prop} {Q : Y → Y → Prop} {P : A → A → Prop}
    (hS : ∀ c d a b, S c d → Option.Rel P a b →
      Step.Rel Q (resume c a).2 (resume d b).2 ∧ S (resume c a).1 (resume d b).1)
    {c d : C} {a b : Option A} {t : List (Y × A)} {r : R} (h : Runs resume c a t r) (hcd : S c d)
    (hab : Option.Rel P a b) {answers : List A} (hanswers : List.Forall₂ P (t.map (·.2)) answers) :
    ∃ u, Runs resume d b u r ∧ u.map (·.2) = answers ∧
      List.Forall₂ Q (t.map (·.1)) (u.map (·.1)) := by
  induction h generalizing d b answers with
  | done completes =>
    obtain ⟨hstep, -⟩ := hS _ _ _ _ hcd hab
    rw [completes] at hstep
    cases hanswers
    cases hd : resume d b with
    | mk d' step =>
      rw [hd] at hstep
      cases hstep
      exact ⟨[], .done hd, rfl, .nil⟩
  | ask yields _ ih =>
    obtain ⟨hstep, hrel⟩ := hS _ _ _ _ hcd hab
    rw [yields] at hstep hrel
    cases hanswers with
    | cons hpair hrest =>
      cases hd : resume d b with
      | mk d' step =>
        rw [hd] at hstep hrel
        cases hstep with
        | yielded hy =>
          obtain ⟨u, hruns, hargs, hyields⟩ := ih hrel (.some hpair) hrest
          refine ⟨_ :: u, .ask hd hruns, ?_, ?_⟩
          · rw [List.map_cons, hargs]
          · exact List.Forall₂.cons hy hyields

end Transcripts

section Drivers

variable {C Y A R σ : Type} (resume : C → Option A → C × Step Y R) (service : σ → Y → σ × A)

/-- Resumes a coroutine until it completes, servicing its requests, within `fuel` resumes. -/
def drive : ℕ → C → Option A → σ → Option (σ × List (Y × A) × R)
  | 0, _, _, _ => none
  | fuel + 1, c, a, s =>
    match resume c a with
    | (_, .complete r) => some (s, [], r)
    | (c', .yielded y) =>
      let (s', b) := service s y
      (drive fuel c' (some b) s').map (fun out => (out.1, (y, b) :: out.2.1, out.2.2))

/-- Every answer of the transcript is the one the service gives. -/
inductive Follows : σ → List (Y × A) → σ → Prop
  | nil (s : σ) : Follows s [] s
  | cons {s s' : σ} {y : Y} {t : List (Y × A)}
      (rest : Follows (service s y).1 t s') : Follows s ((y, (service s y).2) :: t) s'

variable {resume service}

theorem Follows.answer {s s' : σ} {t : List (Y × A)} (h : Follows service s t s') {y : Y} {a : A}
    (hmem : (y, a) ∈ t) : ∃ s₀, a = (service s₀ y).2 := by
  induction h with
  | nil => cases hmem
  | @cons s s' y' t rest ih =>
    rcases List.mem_cons.mp hmem with heq | hmem
    · cases heq
      exact ⟨s, rfl⟩
    · exact ih hmem

theorem drive_runs {fuel : ℕ} {c : C} {a : Option A} {s s' : σ} {t : List (Y × A)} {r : R}
    (h : drive resume service fuel c a s = some (s', t, r)) :
    Runs resume c a t r ∧ Follows service s t s' := by
  induction fuel generalizing c a s t with
  | zero => cases h
  | succ fuel ih =>
    cases hr : resume c a with
    | mk c' step =>
      cases step with
      | complete r' =>
        simp only [drive, hr, Option.some.injEq, Prod.mk.injEq] at h
        obtain ⟨rfl, rfl, rfl⟩ := h
        exact ⟨.done hr, .nil _⟩
      | yielded y =>
        simp only [drive, hr, Option.map_eq_some_iff, Prod.mk.injEq] at h
        obtain ⟨⟨s₁, u, r₁⟩, hd, rfl, rfl, rfl⟩ := h
        obtain ⟨hruns, hfollows⟩ := ih hd
        exact ⟨.ask hr hruns, .cons hfollows⟩

/-- A coroutine whose rank drops on every answered request completes under its driver, with an
output its invariant vouches for. -/
theorem drive_total {W : Type} [Preorder W] [WellFoundedLT W] (inv : C → Option A → Prop)
    (rank : C → Option A → W) (good : R → Prop)
    (hstep : ∀ c c' a y, inv c a → resume c a = (c', .yielded y) → ∀ s : σ,
      inv c' (some (service s y).2) ∧ rank c' (some (service s y).2) < rank c a)
    (hdone : ∀ c c' a r, inv c a → resume c a = (c', .complete r) → good r)
    (c : C) (a : Option A) (s : σ) (hi : inv c a) :
    ∃ fuel s' t r, drive resume service fuel c a s = some (s', t, r) ∧ good r := by
  induction hw : rank c a using WellFoundedLT.induction generalizing c a s with
  | _ w ih =>
    cases hr : resume c a with
    | mk c' step =>
      cases step with
      | complete r => exact ⟨1, s, [], r, by simp [drive, hr], hdone c c' a r hi hr⟩
      | yielded y =>
        obtain ⟨hi', hlt⟩ := hstep c c' a y hi hr s
        rw [hw] at hlt
        obtain ⟨fuel, s', t, r, hd, hgood⟩ := ih _ hlt c' _ (service s y).1 hi' rfl
        refine ⟨fuel + 1, s', (y, (service s y).2) :: t, r, ?_, hgood⟩
        simp only [drive, hr, hd, Option.map_some]

end Drivers

section Seams

variable {Y A σ ρ : Type} (service : σ → Y → Option (σ × A))

/-- The requests of one seam are answered by its service, and every other one anyhow. -/
inductive Attends : σ → List (Y × A) → σ → Prop
  | nil (s : σ) : Attends s [] s
  | own {s s' s'' : σ} {y : Y} {a : A} {t : List (Y × A)} (serves : service s y = some (s', a))
      (rest : Attends s' t s'') : Attends s ((y, a) :: t) s''
  | other {s s' : σ} {y : Y} {a : A} {t : List (Y × A)} (passes : service s y = none)
      (rest : Attends s t s') : Attends s ((y, a) :: t) s'

/-- A driver of two seams: what the first does not serve goes to the second. -/
def beside (second : ρ → Y → ρ × A) (s : σ × ρ) (y : Y) : (σ × ρ) × A :=
  match service s.1 y with
  | some (s', a) => ((s', s.2), a)
  | none =>
    let (r, a) := second s.2 y
    ((s.1, r), a)

variable {service}

theorem follows_attends {second : ρ → Y → ρ × A} {s s' : σ × ρ} {t : List (Y × A)}
    (h : Follows (beside service second) s t s') : Attends service s.1 t s'.1 := by
  induction h with
  | nil s => exact .nil s.1
  | @cons s s' y t rest ih =>
    cases hs : service s.1 y with
    | some out =>
      simp only [beside, hs] at ih ⊢
      exact .own hs ih
    | none =>
      simp only [beside, hs] at ih ⊢
      exact .other hs ih

/-- What every service keeps, a whole transcript keeps. -/
theorem Attends.invariant {P : σ → Prop} (hP : ∀ s y s' a, P s → service s y = some (s', a) → P s')
    {s s' : σ} {t : List (Y × A)} (h : Attends service s t s') (hs : P s) : P s' := by
  induction h with
  | nil => exact hs
  | own serves _ ih => exact ih (hP _ _ _ _ hs serves)
  | other _ _ ih => exact ih hs

end Seams
section Completion

variable {C Y A R : Type}

/-- A coroutine with the answers it takes in each state. One resumed with any other is told so, and
stands where it stood. -/
structure Contract (C Y A R : Type) where
  resume : C → Option A → C × Step Y R
  takes : C → Option A → Prop
  unexpected : R
  missing : R
  distinct : missing ≠ unexpected
  refuses : ∀ c a, ¬ takes c (some a) → resume c (some a) = (c, .complete unexpected)
  starves : ∀ c, ¬ takes c none → resume c none = (c, .complete missing)
  serves : ∀ c a, takes c a → (resume c a).2 ≠ .complete unexpected

namespace Contract
variable (k : Contract C Y A R) {c : C} {args later : List (Option A)}

/-- The coroutine resumed with these in turn, whatever it handed back. -/
def after (c : C) (args : List (Option A)) : C := args.foldl (fun c a => (k.resume c a).1) c

/-- Every resume with these in turn is refused as one the coroutine did not expect. -/
def Refused : C → List (Option A) → Prop
  | _, [] => True
  | c, a :: later => (k.resume c a).2 = .complete k.unexpected ∧ Refused (k.resume c a).1 later

/-- Once a resume completes, every later one is refused. -/
def Final (c : C) (args : List (Option A)) : Prop :=
  ∀ ran a later, args = ran ++ a :: later →
    (∃ r, (k.resume (k.after c ran) a).2 = .complete r) → k.Refused (k.after c (ran ++ [a])) later

/-- Each of these is an answer, and none the coroutine takes as it stands. -/
def Unfit (c : C) (later : List (Option A)) : Prop :=
  ∀ b ∈ later, b.isSome ∧ ¬ k.takes c b

/-- A resume is refused as unexpected exactly when given an answer its state does not take. -/
theorem refused_iff (c : C) (b : Option A) :
    (k.resume c b).2 = .complete k.unexpected ↔ b.isSome ∧ ¬ k.takes c b := by
  by_cases ht : k.takes c b
  · exact iff_of_false (k.serves c b ht) (fun h => h.2 ht)
  · cases b with
    | none =>
      rw [k.starves c ht]
      refine iff_of_false (fun h => k.distinct ?_) (fun h => Bool.noConfusion h.1)
      exact Step.complete.inj h
    | some a =>
      rw [k.refuses c a ht]
      exact iff_of_true rfl ⟨rfl, ht⟩

/-- A refusal moves nothing, so the whole sequence is judged by the state it found. -/
theorem refused_all_iff (c : C) (later : List (Option A)) :
    k.Refused c later ↔ k.Unfit c later := by
  induction later with
  | nil => exact iff_of_true trivial (fun b hb => by cases hb)
  | cons b later ih =>
    rw [Refused, k.refused_iff c b, Unfit, List.forall_mem_cons]
    refine and_congr_right (fun hb => ?_)
    obtain ⟨a, rfl⟩ := Option.isSome_iff_exists.mp hb.1
    rw [k.refuses c a hb.2]
    exact ih

/-- A coroutine stays completed exactly when no later answer is one its last state takes, and none
is left out. -/
theorem final_iff (c : C) (args : List (Option A)) :
    k.Final c args ↔ ∀ ran a later, args = ran ++ a :: later →
      (∃ r, (k.resume (k.after c ran) a).2 = .complete r) →
        k.Unfit (k.after c (ran ++ [a])) later := by
  simp only [Final, refused_all_iff]

/-- No resume of the sequence is one of these, whatever those before it handed back. -/
def Never (bad : C → Option A → Prop) (c : C) (args : List (Option A)) : Prop :=
  ∀ ran a later, args = ran ++ a :: later → ¬ bad (k.after c ran) a

/-- What every resume keeps, a whole sequence keeps. -/
theorem after_invariant {I : C → Prop} (hkept : ∀ c a, I c → I (k.resume c a).1) (hc : I c)
    (args : List (Option A)) : I (k.after c args) := by
  induction args generalizing c with
  | nil => exact hc
  | cons a args ih => exact ih (hkept c a hc)

theorem never_of_invariant {I : C → Prop} {bad : C → Option A → Prop}
    (hkept : ∀ c a, I c → I (k.resume c a).1) (hsafe : ∀ c a, I c → ¬ bad c a) (hc : I c)
    (args : List (Option A)) : k.Never bad c args :=
  fun ran a _ _ => hsafe _ a (k.after_invariant hkept hc ran)

end Contract
end Completion

end Coroutine

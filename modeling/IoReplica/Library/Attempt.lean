import IoReplica.Library.Coroutine

/-! Coroutines driven by a service that may fail: what a failed attempt got done, and the whole run
it would have gone on to. -/
namespace Coroutine

section Grants

variable {Y A σ : Type}

/-- Every request of the transcript is granted, each where the one before it left off. -/
inductive Grants (grants : σ → Y → σ → A → Prop) : σ → List (Y × A) → σ → Prop
  | nil (s : σ) : Grants grants s [] s
  | cons {s s' s'' : σ} {y : Y} {a : A} {t : List (Y × A)} (granted : grants s y s' a)
      (rest : Grants grants s' t s'') : Grants grants s ((y, a) :: t) s''

namespace Grants

variable {grants : σ → Y → σ → A → Prop} {s s' s'' : σ} {t u : List (Y × A)}

/-- A service that refines another, through a view of its state, refines it over a transcript. -/
theorem refine {τ : Type} {grants' : τ → Y → τ → A → Prop} {view : σ → τ}
    (hview : ∀ s y s' a, grants s y s' a → grants' (view s) y (view s') a)
    (h : Grants grants s t s') : Grants grants' (view s) t (view s') := by
  induction h with
  | nil s => exact .nil (view s)
  | cons granted _ ih => exact .cons (hview _ _ _ _ granted) ih

theorem append (h : Grants grants s t s') (h' : Grants grants s' u s'') :
    Grants grants s (t ++ u) s'' := by
  induction h with
  | nil => exact h'
  | cons granted _ ih => exact .cons granted (ih h')

/-- Granting a transcript grants what comes first of it, then the rest. -/
theorem split (h : Grants grants s (t ++ u) s'') :
    ∃ s', Grants grants s t s' ∧ Grants grants s' u s'' := by
  induction t generalizing s with
  | nil => exact ⟨s, .nil s, h⟩
  | cons e t ih =>
    cases h with
    | cons granted rest =>
      obtain ⟨s', ht, hu⟩ := ih rest
      exact ⟨s', .cons granted ht, hu⟩

/-- What every granted request keeps, a granted transcript keeps. -/
theorem invariant {P : σ → Prop} (hP : ∀ s y s' a, P s → grants s y s' a → P s')
    (h : Grants grants s t s') (hs : P s) : P s' := by
  induction h with
  | nil => exact hs
  | cons granted _ ih => exact ih (hP _ _ _ _ hs granted)

/-- What granting a request says of its answer, granting a transcript says of each. -/
theorem each {P : Y → A → Prop} (hP : ∀ s y s' a, grants s y s' a → P y a)
    (h : Grants grants s t s') : ∀ e ∈ t, P e.1 e.2 := by
  induction h with
  | nil => exact fun e he => by cases he
  | cons granted _ ih =>
    intro e he
    rcases List.mem_cons.mp he with rfl | he
    · exact hP _ _ _ _ granted
    · exact ih e he

end Grants
end Grants

/-- What every yield of a coroutine meets, every request of its runs meets. -/
theorem Runs.asked {C Y A R : Type} {resume : C → Option A → C × Step Y R} {P : Y → Prop}
    (hP : ∀ c a c' y, resume c a = (c', .yielded y) → P y) {c : C} {a : Option A}
    {t : List (Y × A)} {r : R} (h : Runs resume c a t r) : ∀ e ∈ t, P e.1 := by
  induction h with
  | done => exact fun e he => by cases he
  | ask yields _ ih => exact List.forall_mem_cons.mpr ⟨hP _ _ _ _ yields, ih⟩

section Attempts

variable {C Y A R F σ : Type} (resume : C → Option A → C × Step Y R)

/-- Resumes a coroutine until it completes or a request of it fails, within `fuel` resumes. -/
def attempt (service : σ → Y → σ × Except F A) :
    ℕ → C → Option A → σ → Option (σ × List (Y × A) × Except F R)
  | 0, _, _, _ => none
  | fuel + 1, c, a, s =>
    match resume c a with
    | (_, .complete r) => some (s, [], .ok r)
    | (c', .yielded y) =>
      match service s y with
      | (s', .ok b) =>
        (attempt service fuel c' (some b) s').map (fun out => (out.1, (y, b) :: out.2.1, out.2.2))
      | (s', .error e) => some (s', [], .error e)

/-- How an attempt ends: with the coroutine's output, or at a request that failed. -/
inductive Attempts (grants : σ → Y → σ → A → Prop) (fails : σ → Y → σ → F → Prop) (c : C)
    (a : Option A) (s : σ) : σ → List (Y × A) → Except F R → Prop
  | completed {s' : σ} {t : List (Y × A)} {r : R} (runs : Runs resume c a t r)
      (granted : Grants grants s t s') : Attempts grants fails c a s s' t (.ok r)
  | failed {c' c'' : C} {a' : Option A} {s' s'' : σ} {t : List (Y × A)} {y : Y} {e : F}
      (reaches : Reaches resume c a t c' a') (granted : Grants grants s t s')
      (yields : resume c' a' = (c'', .yielded y)) (failed : fails s' y s'' e) :
      Attempts grants fails c a s s'' t (.error e)

variable {resume} {grants : σ → Y → σ → A → Prop} {fails : σ → Y → σ → F → Prop}

theorem Attempts.ask {c c' : C} {a : Option A} {s s' s'' : σ} {y : Y} {b : A} {t : List (Y × A)}
    {out : Except F R} (yields : resume c a = (c', .yielded y)) (granted : grants s y s' b)
    (h : Attempts resume grants fails c' (some b) s' s'' t out) :
    Attempts resume grants fails c a s s'' ((y, b) :: t) out := by
  cases h with
  | completed runs rest => exact .completed (.ask yields runs) (.cons granted rest)
  | failed reaches rest yields' failed =>
    exact .failed (.ask yields reaches) (.cons granted rest) yields' failed

/-- An attempt is granted what its service answers, and fails where its service does. -/
theorem attempt_attempts {service : σ → Y → σ × Except F A}
    (hgrants : ∀ s y s' b, service s y = (s', .ok b) → grants s y s' b)
    (hfails : ∀ s y s' e, service s y = (s', .error e) → fails s y s' e) {fuel : ℕ} {c : C}
    {a : Option A} {s s' : σ} {t : List (Y × A)} {out : Except F R}
    (h : attempt resume service fuel c a s = some (s', t, out)) :
    Attempts resume grants fails c a s s' t out := by
  induction fuel generalizing c a s t with
  | zero => cases h
  | succ fuel ih =>
    cases hr : resume c a with
    | mk c' step =>
      cases step with
      | complete r =>
        simp only [attempt, hr, Option.some.injEq, Prod.mk.injEq] at h
        obtain ⟨rfl, rfl, rfl⟩ := h
        exact .completed (.done hr) (.nil s)
      | yielded y =>
        cases hs : service s y with
        | mk s₁ reply =>
          cases reply with
          | error e =>
            simp only [attempt, hr, hs, Option.some.injEq, Prod.mk.injEq] at h
            obtain ⟨rfl, rfl, rfl⟩ := h
            exact .failed (.refl c a) (.nil s) hr (hfails _ _ _ _ hs)
          | ok b =>
            simp only [attempt, hr, hs, Option.map_eq_some_iff, Prod.mk.injEq] at h
            obtain ⟨⟨s₂, u, out'⟩, hd, rfl, rfl, rfl⟩ := h
            exact (ih hd).ask hr (hgrants _ _ _ _ hs)

section Simulate

variable {τ : Type} {service : σ → Y → σ × Except F A} {service' : τ → Y → τ × Except F A}
  {view : σ → τ}

theorem attempt_congr {c c' : C} {a a' : Option A} (h : resume c a = resume c' a') (fuel : ℕ) (s : σ) :
    attempt resume service fuel c a s = attempt resume service fuel c' a' s := by
  cases fuel with
  | zero => rfl
  | succ fuel => simp only [attempt, h]

variable (resume service service' view) in
/-- Services that take a coroutine on alike, through a view of the state of one, serve an attempt
alike: whatever they answer, the coroutine makes the same of it. -/
theorem attempt_simulate
    (hview : ∀ c a c' y, resume c a = (c', .yielded y) → ∀ s,
      view (service s y).1 = (service' (view s) y).1 ∧
      (service s y).2.map (fun b => resume c' (some b)) =
        (service' (view s) y).2.map (fun b => resume c' (some b)))
    (fuel : ℕ) (c : C) (a : Option A) (s : σ) :
    (attempt resume service fuel c a s).map (fun o => (view o.1, o.2.2)) =
      (attempt resume service' fuel c a (view s)).map (fun o => (o.1, o.2.2)) := by
  induction fuel generalizing c a s with
  | zero => rfl
  | succ fuel ih =>
    cases hr : resume c a with
    | mk c' step =>
      cases step with
      | complete r => simp only [attempt, hr, Option.map_some]
      | yielded y =>
        obtain ⟨hstate, hreply⟩ := hview c a c' y hr s
        cases hs : service s y with
        | mk s₁ reply =>
          cases hs' : service' (view s) y with
          | mk s₁' reply' =>
            rw [hs, hs'] at hstate hreply
            dsimp only at hstate hreply
            subst hstate
            cases reply with
            | error e =>
              cases reply' with
              | error e' =>
                cases hreply
                simp only [attempt, hr, hs, hs', Option.map_some]
              | ok b' => cases hreply
            | ok b =>
              cases reply' with
              | error e' => cases hreply
              | ok b' =>
                have hnext : resume c' (some b) = resume c' (some b') := Except.ok.inj hreply
                have hrest := ih c' (some b) s₁
                have hsame : attempt resume service' fuel c' (some b) (view s₁) =
                    attempt resume service' fuel c' (some b') (view s₁) := attempt_congr hnext fuel _
                rw [hsame] at hrest
                simp only [attempt, hr, hs, hs', Option.map_map]
                exact hrest

end Simulate

end Attempts

section Progress

variable {C Y A R : Type}

/-- A coroutine that every answer in kind takes closer to an output it vouches for. -/
structure Progress (resume : C → Option A → C × Step Y R) (Answers : A → Y → Prop)
    (Good : R → Prop) where
  Awaits : C → Option A → Prop
  Closer : C → C → Prop
  wf : WellFounded Closer
  asks : ∀ {c c' : C} {a : Option A} {y : Y}, Awaits c a → resume c a = (c', .yielded y) →
    (∀ b, Answers b y → Awaits c' (some b)) ∧ Closer c' c
  completes : ∀ {c c' : C} {a : Option A} {r : R}, Awaits c a →
    resume c a = (c', .complete r) → Good r

namespace Progress

variable {resume : C → Option A → C × Step Y R} {Answers : A → Y → Prop} {Good : R → Prop}
  (p : Progress resume Answers Good)

/-- Wherever answers in kind lead, the coroutine still awaits the last of them. -/
theorem awaits {c c' : C} {a a' : Option A} {t : List (Y × A)} (h : Reaches resume c a t c' a')
    (hkind : ∀ e ∈ t, Answers e.2 e.1) (hc : p.Awaits c a) : p.Awaits c' a' := by
  induction h with
  | refl => exact hc
  | ask yields _ ih =>
    rw [List.forall_mem_cons] at hkind
    exact ih hkind.2 ((p.asks hc yields).1 _ hkind.1)

theorem good {c : C} {a : Option A} {t : List (Y × A)} {r : R} (h : Runs resume c a t r)
    (hkind : ∀ e ∈ t, Answers e.2 e.1) (hc : p.Awaits c a) : Good r := by
  induction h with
  | done completes => exact p.completes hc completes
  | ask yields _ ih =>
    rw [List.forall_mem_cons] at hkind
    exact ih hkind.2 ((p.asks hc yields).1 _ hkind.1)

/-- A run to the end, answered in kind all along. -/
structure Finishes (resume : C → Option A → C × Step Y R) (Answers : A → Y → Prop)
    (Good : R → Prop) (c : C) (a : Option A) (t : List (Y × A)) (r : R) : Prop where
  runs : Runs resume c a t r
  kind : ∀ e ∈ t, Answers e.2 e.1
  good : Good r

/-- As long as every request has an answer in kind, the coroutine has a run to its end. -/
theorem finishes (hanswer : ∀ y, ∃ b, Answers b y) {c : C} {a : Option A} (hc : p.Awaits c a) :
    ∃ t r, Finishes resume Answers Good c a t r := by
  induction c using p.wf.induction generalizing a with
  | _ c ih =>
    cases hr : resume c a with
    | mk c' step =>
      cases step with
      | complete r => exact ⟨[], r, .done hr, fun e he => (by cases he), p.completes hc hr⟩
      | yielded y =>
        obtain ⟨hnext, hcloser⟩ := p.asks hc hr
        obtain ⟨b, hb⟩ := hanswer y
        obtain ⟨t, r, hfin⟩ := ih c' hcloser (hnext b hb)
        exact ⟨(y, b) :: t, r, .ask hr hfin.runs, List.forall_mem_cons.mpr ⟨hb, hfin.kind⟩,
          hfin.good⟩

/-- A request whose answer completes the coroutine comes last in a run, or not at all. -/
theorem closing {Closing : Y → Prop} {Done : R → Prop}
    (hclosing : ∀ c y b, Closing y → Answers b y → p.Awaits c (some b) →
      ∃ c' r, resume c (some b) = (c', .complete r) ∧ Done r)
    {c : C} {a : Option A} {t : List (Y × A)} {r : R} (h : Runs resume c a t r)
    (hkind : ∀ e ∈ t, Answers e.2 e.1) (hc : p.Awaits c a) :
    (∀ e ∈ t, ¬ Closing e.1) ∨
      Done r ∧ ∃ v e, t = v ++ [e] ∧ Closing e.1 ∧ ∀ e ∈ v, ¬ Closing e.1 := by
  induction h with
  | done => exact Or.inl (fun e he => by cases he)
  | @ask c c' a y b t r yields rest ih =>
    rw [List.forall_mem_cons] at hkind
    have hnext := (p.asks hc yields).1 b hkind.1
    by_cases hy : Closing y
    · obtain ⟨c'', r', hdone, hr'⟩ := hclosing c' y b hy hkind.1 hnext
      cases rest with
      | done completes =>
        cases completes.symm.trans hdone
        exact Or.inr ⟨hr', [], (y, b), rfl, hy, fun e he => by cases he⟩
      | ask yields' =>
        cases yields'.symm.trans hdone
    · rcases ih hkind.2 hnext with hnone | ⟨hdone, v, e, rfl, he, hv⟩
      · exact Or.inl (List.forall_mem_cons.mpr ⟨hy, hnone⟩)
      · exact Or.inr ⟨hdone, (y, b) :: v, e, rfl, he, List.forall_mem_cons.mpr ⟨hy, hv⟩⟩

/-- Before the last request of a run, none was one whose answer completes the coroutine. -/
theorem unclosed {Closing : Y → Prop} {Done : R → Prop}
    (hclosing : ∀ c y b, Closing y → Answers b y → p.Awaits c (some b) →
      ∃ c' r, resume c (some b) = (c', .complete r) ∧ Done r)
    {c : C} {a : Option A} {t u : List (Y × A)} {e : Y × A} {r : R}
    (h : Runs resume c a (t ++ e :: u) r) (hkind : ∀ e' ∈ t ++ e :: u, Answers e'.2 e'.1)
    (hc : p.Awaits c a) : ∀ e' ∈ t, ¬ Closing e'.1 := by
  rcases p.closing hclosing h hkind hc with hnone | ⟨-, v, last, heq, -, hv⟩
  · exact fun e' he' => hnone e' (List.mem_append_left _ he')
  · have hcut := congrArg List.dropLast heq
    rw [List.dropLast_concat, List.dropLast_append_of_ne_nil (List.cons_ne_nil e u)] at hcut
    exact fun e' he' => hv e' (hcut ▸ List.mem_append_left _ he')

variable {σ F : Type}

/-- Under a service that answers in kind or fails, every attempt ends. -/
theorem attempt_total {service : σ → Y → σ × Except F A}
    (hkind : ∀ s y s' b, service s y = (s', .ok b) → Answers b y) {c : C} {a : Option A}
    (hc : p.Awaits c a) (s : σ) :
    ∃ fuel s' t out, attempt resume service fuel c a s = some (s', t, out) := by
  induction c using p.wf.induction generalizing a s with
  | _ c ih =>
    cases hr : resume c a with
    | mk c' step =>
      cases step with
      | complete r => exact ⟨1, s, [], .ok r, by simp only [attempt, hr]⟩
      | yielded y =>
        cases hs : service s y with
        | mk s₁ reply =>
          cases reply with
          | error e => exact ⟨1, s₁, [], .error e, by simp only [attempt, hr, hs]⟩
          | ok b =>
            obtain ⟨hnext, hcloser⟩ := p.asks hc hr
            obtain ⟨fuel, s', t, out, hd⟩ := ih c' hcloser (hnext b (hkind _ _ _ _ hs)) s₁
            exact ⟨fuel + 1, s', (y, b) :: t, out, by simp only [attempt, hr, hs, hd, Option.map_some]⟩

/-- An attempt as far as it got on a whole run: all of it, or all before the request that failed. -/
inductive Extends (resume : C → Option A → C × Step Y R) (Answers : A → Y → Prop) (Good : R → Prop)
    (grants : σ → Y → σ → A → Prop) (fails : σ → Y → σ → F → Prop) (c : C) (a : Option A) (s : σ) :
    σ → List (Y × A) → Except F R → Prop
  | completed {s' : σ} {t : List (Y × A)} {r : R}
      (finishes : Finishes resume Answers Good c a t r) (granted : Grants grants s t s') :
      Extends resume Answers Good grants fails c a s s' t (.ok r)
  | failed {s' s'' : σ} {t u : List (Y × A)} {y : Y} {b : A} {e : F} {r : R}
      (finishes : Finishes resume Answers Good c a (t ++ (y, b) :: u) r)
      (granted : Grants grants s t s') (failed : fails s' y s'' e) :
      Extends resume Answers Good grants fails c a s s'' t (.error e)

/-- An attempt stands on a run to the end: its own, or one its failed request would have led to. -/
theorem attempt_extends {grants : σ → Y → σ → A → Prop} {fails : σ → Y → σ → F → Prop}
    (hkind : ∀ s y s' b, grants s y s' b → Answers b y) (hanswer : ∀ y, ∃ b, Answers b y) {c : C}
    {a : Option A} (hc : p.Awaits c a) {s s' : σ} {t : List (Y × A)} {out : Except F R}
    (h : Attempts resume grants fails c a s s' t out) :
    Extends resume Answers Good grants fails c a s s' t out := by
  cases h with
  | completed runs granted =>
    exact .completed ⟨runs, granted.each hkind, p.good runs (granted.each hkind) hc⟩ granted
  | failed reaches granted yields failed =>
    obtain ⟨u, r, hfin⟩ := p.finishes hanswer (p.awaits reaches (granted.each hkind) hc)
    have hall := List.forall_mem_append.mpr ⟨granted.each hkind, hfin.kind⟩
    have hruns := reaches.runs hfin.runs
    cases hfin.runs with
    | done completes =>
      rw [yields] at completes
      cases completes
    | ask yields' rest =>
      cases yields.symm.trans yields'
      exact .failed ⟨hruns, hall, hfin.good⟩ granted failed

end Progress
end Progress
end Coroutine

/-!
# Runs of a labelled transition system

A system is a partial step function `step : σ → α → Option σ`: `step s a` is the
state after the action `a`, or `none` when `a` is not possible in `s`. A run is a
list of actions, taken one after another.

## What is proved

* `exec_invariant`: what holds at the start and is kept by every step holds at the
  end of every run.
* `exec_invariant_of_always`: the same when a step is only known to keep it under a
  condition on the state and the action, for the runs whose steps all meet that
  condition.
* `always_iff`, `always_iff_of_forall_mem`: the runs whose steps all meet the condition are
  those that end well, if a step that does not meet it does damage that lasts.
* `always_congr`, `always_congr_of_invariant`: conditions that say the same wherever an invariant holds.
* `always_iff_throughout`: they are those that go well throughout, if such a step does
  damage that can be seen right after it.
-/

namespace Library

universe u v

variable {σ : Type u} {α : Type v}

/-- The state after a run, or `none` if some action of it was not possible. -/
def exec (step : σ → α → Option σ) : σ → List α → Option σ
  | s, [] => some s
  | s, a :: as => (step s a).bind fun t => exec step t as

/-- Every step of the run from `s` meets `P`, a condition on the state before the
step and the action. -/
def Always (step : σ → α → Option σ) (P : σ → α → Prop) : σ → List α → Prop
  | _, [] => True
  | s, a :: as => P s a ∧ ∀ t, step s a = some t → Always step P t as

instance Always.decidable (step : σ → α → Option σ) (P : σ → α → Prop) [∀ s a, Decidable (P s a)] :
    ∀ s as, Decidable (Always step P s as)
  | _, [] => inferInstanceAs (Decidable True)
  | s, a :: as =>
    match h : step s a with
    | none => decidable_of_iff (P s a) ⟨fun hp => ⟨hp, fun t ht => by simp [h] at ht⟩, fun hp => hp.1⟩
    | some t =>
      have := Always.decidable step P t as
      decidable_of_iff (P s a ∧ Always step P t as)
        ⟨fun hp => ⟨hp.1, fun u hu => by rw [h, Option.some.injEq] at hu; exact hu ▸ hp.2⟩,
          fun hp => ⟨hp.1, hp.2 t h⟩⟩

/-- `Q` holds of every state the run from `s` goes through. -/
def Throughout (step : σ → α → Option σ) (Q : σ → Prop) : σ → List α → Prop
  | s, [] => Q s
  | s, a :: as => Q s ∧ ∀ t, step s a = some t → Throughout step Q t as

variable {step : σ → α → Option σ}

@[simp] theorem exec_nil (s : σ) : exec step s [] = some s := rfl

theorem exec_cons_eq_some {s u : σ} {a : α} {as : List α} :
    exec step s (a :: as) = some u ↔ ∃ t, step s a = some t ∧ exec step t as = some u := by
  simp [exec, Option.bind_eq_some_iff]

/-- **The invariant rule.** -/
theorem exec_invariant {I : σ → Prop} (hstep : ∀ {s a t}, I s → step s a = some t → I t)
    {as : List α} {s t : σ} (h : exec step s as = some t) (hs : I s) : I t := by
  induction as generalizing s with
  | nil => exact Option.some.inj h ▸ hs
  | cons a as ih =>
    obtain ⟨u, hu, ht⟩ := exec_cons_eq_some.mp h
    exact ih ht (hstep hs hu)

/-- **The invariant rule for the runs whose steps all meet a condition.** -/
theorem exec_invariant_of_always {I : σ → Prop} {P : σ → α → Prop}
    (hstep : ∀ {s a t}, I s → P s a → step s a = some t → I t)
    {as : List α} {s t : σ} (hP : Always step P s as) (h : exec step s as = some t) (hs : I s) :
    I t := by
  induction as generalizing s with
  | nil => exact Option.some.inj h ▸ hs
  | cons a as ih =>
    obtain ⟨u, hu, ht⟩ := exec_cons_eq_some.mp h
    exact ih (hP.2 u hu) ht (hstep hs hP.1 hu)

/-- A run in two parts. -/
theorem exec_append_eq_some {s u : σ} {as bs : List α} :
    exec step s (as ++ bs) = some u ↔ ∃ t, exec step s as = some t ∧ exec step t bs = some u := by
  induction as generalizing s with
  | nil => simp
  | cons a as ih =>
    rw [List.cons_append, exec_cons_eq_some]
    constructor
    · rintro ⟨t, ht, hrest⟩
      obtain ⟨v, hv, hbs⟩ := ih.mp hrest
      exact ⟨v, exec_cons_eq_some.mpr ⟨t, ht, hv⟩, hbs⟩
    · rintro ⟨v, hv, hbs⟩
      obtain ⟨t, ht, hrest⟩ := exec_cons_eq_some.mp hv
      exact ⟨t, ht, ih.mpr ⟨v, hrest, hbs⟩⟩

/-- What is always met is met by each step of the run. -/
theorem Always.of_append {P : σ → α → Prop} {as bs : List α} {a : α} {s t : σ} (h : Always step P s (as ++ a :: bs))
    (ht : exec step s as = some t) : P t a := by
  induction as generalizing s with
  | nil =>
    obtain rfl := Option.some.inj ht
    exact h.1
  | cons b as ih =>
    obtain ⟨u, hu, hrest⟩ := exec_cons_eq_some.mp ht
    exact ih (h.2 u hu) hrest

theorem Always.left {P : σ → α → Prop} {as bs : List α} {s : σ} (h : Always step P s (as ++ bs)) : Always step P s as := by
  induction as generalizing s with
  | nil => trivial
  | cons a as ih => exact ⟨h.1, fun t ht => ih (h.2 t ht)⟩

theorem Always.right {P : σ → α → Prop} {as bs : List α} {s t : σ} (h : Always step P s (as ++ bs))
    (ht : exec step s as = some t) : Always step P t bs := by
  induction as generalizing s with
  | nil => exact Option.some.inj ht ▸ h
  | cons a as ih =>
    obtain ⟨u, hu, hrest⟩ := exec_cons_eq_some.mp ht
    exact ih (h.2 u hu) hrest

theorem Always.append {P : σ → α → Prop} {as bs : List α} {s : σ} (h : Always step P s as)
    (h' : ∀ t, exec step s as = some t → Always step P t bs) : Always step P s (as ++ bs) := by
  induction as generalizing s with
  | nil => exact h' s rfl
  | cons a as ih => exact ⟨h.1, fun t ht => ih (h.2 t ht) fun u hu => h' u (exec_cons_eq_some.mpr ⟨t, ht, hu⟩)⟩

/-- A condition on the actions alone. -/
theorem always_of_forall_mem {Q : α → Prop} {as : List α} (h : ∀ a ∈ as, Q a) (s : σ) :
    Always step (fun _ a => Q a) s as := by
  induction as generalizing s with
  | nil => trivial
  | cons a as ih =>
    obtain ⟨ha, has⟩ := List.forall_mem_cons.mp h
    exact ⟨ha, fun t _ => ih has t⟩

/-- Two conditions that are both met. -/
theorem Always.and {P Q : σ → α → Prop} {as : List α} {s : σ} (h : Always step P s as) (h' : Always step Q s as) :
    Always step (fun s a => P s a ∧ Q s a) s as := by
  induction as generalizing s with
  | nil => trivial
  | cons a as ih => exact ⟨⟨h.1, h'.1⟩, fun t ht => ih (h.2 t ht) (h'.2 t ht)⟩

/-- **The exact condition, for the runs of some of the actions.** `I` is kept by the steps that
meet `P` and gives `Q`; the first step that does not meet `P` spoils `Q`, and for good. Then a
run of such actions ends in `Q` if and only if all its steps meet `P`. -/
theorem always_iff_of_forall_mem {I Q : σ → Prop} {P : σ → α → Prop} {R : α → Prop}
    (hstep : ∀ {s a t}, I s → R a → P s a → step s a = some t → I t) (hQ : ∀ {s}, I s → Q s)
    (hbad : ∀ {s a t}, I s → R a → ¬ P s a → step s a = some t → ¬ Q t)
    (hlast : ∀ {s a t}, ¬ Q s → R a → step s a = some t → ¬ Q t) {as : List α} {s t : σ} (hR : ∀ a ∈ as, R a)
    (h : exec step s as = some t) (hs : I s) : Always step P s as ↔ Q t := by
  induction as generalizing s with
  | nil => exact iff_of_true trivial (Option.some.inj h ▸ hQ hs)
  | cons a as ih =>
    obtain ⟨u, hu, hrest⟩ := exec_cons_eq_some.mp h
    obtain ⟨ha, has⟩ := List.forall_mem_cons.mp hR
    constructor
    · intro hP
      exact (ih has hrest (hstep hs ha hP.1 hu)).mp (hP.2 u hu)
    · intro ht
      have hP : P s a := by
        apply Classical.byContradiction
        intro hP
        have hspoilt : ¬ Q u := hbad hs ha hP hu
        exact exec_invariant_of_always (fun hk hb hv => hlast hk hb hv) (always_of_forall_mem has u) hrest hspoilt ht
      refine ⟨hP, fun v hv => ?_⟩
      obtain rfl : u = v := Option.some.inj (hu.symm.trans hv)
      exact (ih has hrest (hstep hs ha hP hu)).mpr ht

/-- **The exact condition.** The same for the runs of any actions. -/
theorem always_iff {I Q : σ → Prop} {P : σ → α → Prop} (hstep : ∀ {s a t}, I s → P s a → step s a = some t → I t)
    (hQ : ∀ {s}, I s → Q s) (hbad : ∀ {s a t}, I s → ¬ P s a → step s a = some t → ¬ Q t)
    (hlast : ∀ {s a t}, ¬ Q s → step s a = some t → ¬ Q t) {as : List α} {s t : σ} (h : exec step s as = some t)
    (hs : I s) : Always step P s as ↔ Q t :=
  always_iff_of_forall_mem (R := fun _ => True) (fun hs _ => hstep hs) hQ (fun hs _ => hbad hs) (fun hs _ => hlast hs)
    (fun _ _ => trivial) h hs

/-- What holds throughout a run holds at its end. -/
theorem Throughout.last {Q : σ → Prop} {as : List α} {s t : σ} (hQ : Throughout step Q s as)
    (h : exec step s as = some t) :
    Q t := by
  induction as generalizing s with
  | nil => exact Option.some.inj h ▸ hQ
  | cons a as ih =>
    obtain ⟨u, hu, ht⟩ := exec_cons_eq_some.mp h
    exact ih (hQ.2 u hu) ht

/-- **The exact condition, for damage that may be undone.** `I` is kept by the steps that
meet `P` and gives `Q`, and right after a step that does not meet `P` there is no `Q`. Then
`Q` holds throughout a run if and only if all its steps meet `P`. -/
theorem always_iff_throughout {I Q : σ → Prop} {P : σ → α → Prop}
    (hstep : ∀ {s a t}, I s → P s a → step s a = some t → I t)
    (hQ : ∀ {s}, I s → Q s) (hbad : ∀ {s a t}, I s → ¬ P s a → step s a = some t → ¬ Q t) {as : List α} {s t : σ}
    (h : exec step s as = some t) (hs : I s) : Always step P s as ↔ Throughout step Q s as := by
  induction as generalizing s with
  | nil => exact iff_of_true trivial (hQ hs)
  | cons a as ih =>
    obtain ⟨u, hu, hrest⟩ := exec_cons_eq_some.mp h
    constructor
    · intro hP
      refine ⟨hQ hs, fun v hv => ?_⟩
      obtain rfl : u = v := Option.some.inj (hu.symm.trans hv)
      exact (ih hrest (hstep hs hP.1 hu)).mp (hP.2 u hu)
    · intro hall
      have hu' : Throughout step Q u as := hall.2 u hu
      have hQu : Q u := by cases as with
        | nil => exact hu'
        | cons b bs => exact hu'.1
      have hP : P s a := Classical.byContradiction fun hP => hbad hs hP hu hQu
      refine ⟨hP, fun v hv => ?_⟩
      obtain rfl : u = v := Option.some.inj (hu.symm.trans hv)
      exact (ih hrest (hstep hs hP hu)).mpr hu'

/-- A condition that follows wherever an invariant holds. -/
theorem Always.mono_of_invariant {I : σ → Prop} {P Q : σ → α → Prop} (hstep : ∀ {s a t}, I s → step s a = some t → I t)
    (hPQ : ∀ {s a}, I s → P s a → Q s a) {as : List α} {s : σ} (h : Always step P s as) (hs : I s) :
    Always step Q s as := by
  induction as generalizing s with
  | nil => trivial
  | cons a as ih => exact ⟨hPQ hs h.1, fun t ht => ih (h.2 t ht) (hstep hs ht)⟩

/-- Two conditions that say the same wherever an invariant holds, and the steps that meet the one
keep it. -/
theorem always_congr {I : σ → Prop} {P Q : σ → α → Prop} (hstep : ∀ {s a t}, I s → P s a → step s a = some t → I t)
    (hPQ : ∀ {s a}, I s → (P s a ↔ Q s a)) {as : List α} {s : σ} (hs : I s) :
    Always step P s as ↔ Always step Q s as := by
  induction as generalizing s with
  | nil => exact Iff.rfl
  | cons a as ih =>
    constructor
    · rintro ⟨hP, hrest⟩
      exact ⟨(hPQ hs).mp hP, fun t ht => (ih (hstep hs hP ht)).mp (hrest t ht)⟩
    · rintro ⟨hQ, hrest⟩
      have hP := (hPQ hs).mpr hQ
      exact ⟨hP, fun t ht => (ih (hstep hs hP ht)).mpr (hrest t ht)⟩

/-- Two conditions that say the same wherever an invariant holds. -/
theorem always_congr_of_invariant {I : σ → Prop} {P Q : σ → α → Prop}
    (hstep : ∀ {s a t}, I s → step s a = some t → I t) (hPQ : ∀ {s a}, I s → (P s a ↔ Q s a)) {as : List α} {s : σ}
    (hs : I s) : Always step P s as ↔ Always step Q s as :=
  always_congr (fun hs _ => hstep hs) hPQ hs

theorem Always.mono {P Q : σ → α → Prop} (hPQ : ∀ {s a}, P s a → Q s a) {as : List α} {s : σ}
    (h : Always step P s as) : Always step Q s as :=
  @Always.mono_of_invariant _ _ step (fun _ => True) _ _ (fun _ _ => trivial) (fun _ => hPQ) _ _ h trivial

end Library

import CoolDown.Library.Run
import Mathlib.Data.List.Basic
import Mathlib.Logic.Function.Basic

/-!
# An object that is shared by callers

Callers `ι` call an object with requests `κ` and get answers `α`. What the object does is
said by `Spec.serve`, one request at a time; a caller may also be dropped, which the object
may notice. A `SharedObject` is what a system with such an object in it should look like
from outside: a call is made, some time later it is served at one stroke, and again later
its answer is returned. Between these three, anything may happen to the other callers, and
the caller itself does nothing else but be dropped, once.

All of these are events, and what has happened is a list of them, the history. A system is shown
to be such an object by relating its states to those of a `SharedObject`, and each of its
steps to one `Step`, with its event.

## What is proved

* `linearized_of_steps`: whatever the interleaving, the object has gone from state to state by the
  events of the history, one after another, and those of each caller are rounds: a call, its being served,
  its answer.
* `inTime_of_rounds`: so a call is served between its being made and its return. As the history is in the
  order of time, what has returned before a call is made is served before it.
* `exec_simulates`: the rule by which a system is shown to be such an object.
-/

namespace Library

universe u v w x

/-! ### Labelled steps -/

section Steps

variable {τ : Type u} {ε : Type v} {r : τ → ε → τ → Prop}

/-- From one state to another by steps with these labels. -/
inductive Steps (r : τ → ε → τ → Prop) : τ → List ε → τ → Prop where
  | nil (s : τ) : Steps r s [] s
  | cons {s t u : τ} {e : ε} {es : List ε} : r s e t → Steps r t es u → Steps r s (e :: es) u

theorem steps_append {s u : τ} {es es' : List ε} : Steps r s (es ++ es') u ↔ ∃ t, Steps r s es t ∧ Steps r t es' u := by
  induction es generalizing s with
  | nil => exact ⟨fun h => ⟨s, .nil s, h⟩, by rintro ⟨t, ⟨⟩, h⟩; exact h⟩
  | cons e es ih =>
    constructor
    · rintro (_ | ⟨hstep, hrest⟩)
      obtain ⟨t, hes, hes'⟩ := ih.mp hrest
      exact ⟨t, .cons hstep hes, hes'⟩
    · rintro ⟨t, _ | ⟨hstep, hes⟩, hes'⟩
      exact .cons hstep (ih.mpr ⟨t, hes, hes'⟩)

theorem Steps.concat {s t u : τ} {e : ε} {es : List ε} (h : Steps r s es t) (hstep : r t e u) : Steps r s (es ++ [e]) u :=
  steps_append.mpr ⟨t, h, .cons hstep (.nil u)⟩

/-- **The invariant rule**, for a state and the labels of the steps that have led to it. -/
theorem Steps.invariant {I : List ε → τ → Prop} (hstep : ∀ {es s e t}, I es s → r s e t → I (es ++ [e]) t) {s t : τ}
    {es : List ε} (h : Steps r s es t) (hs : I [] s) : I es t := by
  suffices ∀ {s t es}, Steps r s es t → ∀ before, I before s → I (before ++ es) t from this h [] hs
  intro s t es h
  induction h with
  | nil => exact fun before hs => by rwa [List.append_nil]
  | @cons s t u e es hst _ ih =>
    intro before hs
    rw [List.append_cons]
    exact ih _ (hstep hs hst)

end Steps

/-- **The simulation rule.** Where each step that meets a condition is matched by a step of
another system, so are the runs of such steps. -/
theorem exec_simulates {τ : Type u} {β : Type v} {τ' : Type w} {ε : Type x} {step : τ → β → Option τ} {P : τ → β → Prop}
    {r : τ' → ε → τ' → Prop} {R : τ → τ' → Prop} {M : β → ε → Prop}
    (hstep : ∀ {c b c' s}, R c s → P c b → step c b = some c' → ∃ e s', M b e ∧ r s e s' ∧ R c' s') {bs : List β} {c c' : τ}
    {s : τ'} (h : exec step c bs = some c') (hP : Always step P c bs) (hc : R c s) :
    ∃ es s', List.Forall₂ M bs es ∧ Steps r s es s' ∧ R c' s' := by
  induction bs generalizing c s with
  | nil =>
    obtain rfl : c = c' := Option.some.inj h
    exact ⟨[], s, .nil, .nil s, hc⟩
  | cons b bs ih =>
    obtain ⟨d, hd, hrest⟩ := exec_cons_eq_some.mp h
    obtain ⟨e, s', he, hs', hR⟩ := hstep hc hP.1 hd
    obtain ⟨es, s'', hes, hs'', hR'⟩ := ih hrest (hP.2 d hd) hR
    exact ⟨e :: es, s'', .cons he hes, .cons hs' hs'', hR'⟩

/-! ### Events -/

variable {σ : Type u} {ι : Type v} {κ : Type w} {α : Type x}

/-- What happens at the object. -/
inductive Event (ι : Type v) (κ : Type w) (α : Type x) where
  /-- A caller makes a call. -/
  | call (i : ι) (q : κ)
  /-- Its request is served with an answer. -/
  | serve (i : ι) (q : κ) (a : α)
  /-- The call returns the answer. -/
  | answer (i : ι) (q : κ) (a : α)
  /-- The caller is dropped. -/
  | drop (i : ι)

namespace Event

/-- Whose event it is. -/
@[simp] def caller : Event ι κ α → ι
  | call i _ => i
  | serve i _ _ => i
  | answer i _ _ => i
  | drop i => i

/-- The request that is served, with its answer. -/
@[simp] def served : Event ι κ α → List (ι × κ × α)
  | serve i q a => [(i, q, a)]
  | call .. | answer .. | drop _ => []

/-- The call that returns, with its answer. -/
@[simp] def returned : Event ι κ α → List (ι × κ × α)
  | answer i q a => [(i, q, a)]
  | call .. | serve .. | drop _ => []

end Event

/-- What an object does. -/
structure Spec (σ : Type u) (ι : Type v) (κ : Type w) (α : Type x) where
  /-- A request of a caller is served with an answer. -/
  serve : σ → ι → κ → α → σ → Prop
  /-- A caller is dropped. -/
  drop : σ → ι → σ → Prop

/-- What an event does to the object: it serves, and may notice that a caller is dropped. -/
inductive Spec.Effect (S : Spec σ ι κ α) (o : σ) : Event ι κ α → σ → Prop where
  | call (i : ι) (q : κ) : Effect S o (.call i q) o
  | serve {i : ι} {q : κ} {a : α} {o' : σ} (h : S.serve o i q a o') : Effect S o (.serve i q a) o'
  | answer (i : ι) (q : κ) (a : α) : Effect S o (.answer i q a) o
  | drop {i : ι} {o' : σ} (h : S.drop o i o') : Effect S o (.drop i) o'

/-- How far a call of a caller has come. -/
inductive CallPhase (κ : Type w) (α : Type x) where
  | idle
  | called (q : κ)
  | served (q : κ) (a : α)
  /-- The caller has been dropped. -/
  | gone

/-- What an event of the caller does to it. -/
inductive CallPhase.Next : CallPhase κ α → Event ι κ α → CallPhase κ α → Prop where
  | call (i : ι) (q : κ) : Next .idle (.call i q) (.called q)
  | serve (i : ι) (q : κ) (a : α) : Next (.called q) (.serve i q a) (.served q a)
  | answer (i : ι) (q : κ) (a : α) : Next (.served q a) (.answer i q a) .idle
  | drop (i : ι) {ph : CallPhase κ α} (h : ph ≠ .gone) : Next ph (.drop i) .gone

/-- The object, its callers, and what calls have returned so far. -/
structure SharedObject (σ : Type u) (ι : Type v) (κ : Type w) (α : Type x) where
  object : σ
  phase : ι → CallPhase κ α
  returned : List (ι × κ × α)

namespace SharedObject

/-- The object at the start. -/
def start (o : σ) : SharedObject σ ι κ α := ⟨o, fun _ => .idle, []⟩

variable [DecidableEq ι]

/-- An event: the object and one caller go on. -/
inductive Step (S : Spec σ ι κ α) (s : SharedObject σ ι κ α) (e : Event ι κ α) : SharedObject σ ι κ α → Prop where
  | mk {o : σ} {ph : CallPhase κ α} (heffect : S.Effect s.object e o) (hnext : (s.phase e.caller).Next e ph) :
    Step S s e ⟨o, Function.update s.phase e.caller ph, s.returned ++ e.returned⟩

/-! ### The history -/

/-- What is of one caller. -/
def of (i : ι) (history : List (Event ι κ α)) : List (Event ι κ α) := history.filter fun e => decide (e.caller = i)

@[simp] theorem of_append (i : ι) (es es' : List (Event ι κ α)) : of i (es ++ es') = of i es ++ of i es' :=
  List.filter_append _ _

theorem of_cons_caller (e : Event ι κ α) (es : List (Event ι κ α)) : of e.caller (e :: es) = e :: of e.caller es :=
  List.filter_cons_of_pos (by simp)

theorem of_singleton_of_ne {i : ι} {e : Event ι κ α} (h : e.caller ≠ i) : of i [e] = [] :=
  List.filter_cons_of_neg (by rwa [decide_eq_true_eq])

/-- The object has gone on by the events of the history, one after another, those of each caller are rounds
of a call, its being served and its answer, and calls have returned these answers. -/
structure Linearized (S : Spec σ ι κ α) (o : σ) (history : List (Event ι κ α)) (s : SharedObject σ ι κ α) : Prop where
  effects : Steps S.Effect o history s.object
  rounds : ∀ i, Steps CallPhase.Next .idle (of i history) (s.phase i)
  returned : s.returned = history.flatMap Event.returned

/-- What is served has been called before, and what is answered has been served before, with nothing else of
its caller in between. -/
def InTime (history : List (Event ι κ α)) : Prop :=
  ∀ before after i q a,
    (history = before ++ .serve i q a :: after →
      ∃ earlier between, before = earlier ++ .call i q :: between ∧ of i between = []) ∧
    (history = before ++ .answer i q a :: after →
      ∃ earlier between, before = earlier ++ .serve i q a :: between ∧ of i between = [])

variable {S : Spec σ ι κ α} {o : σ} {s t : SharedObject σ ι κ α} {history : List (Event ι κ α)}

theorem Linearized.step {e : Event ι κ α} (hs : Linearized S o history s) (h : Step S s e t) :
    Linearized S o (history ++ [e]) t := by
  obtain ⟨heffect, hnext⟩ := h
  refine ⟨hs.effects.concat heffect, fun i => ?_, by simp [hs.returned]⟩
  dsimp only
  by_cases hi : e.caller = i
  · subst hi
    rw [of_append, of_cons_caller, Function.update_self]
    exact (hs.rounds _).concat hnext
  · rw [of_append, of_singleton_of_ne hi, List.append_nil, Function.update_of_ne (Ne.symm hi)]
    exact hs.rounds i

/-- **Calls take effect one after another.** -/
theorem linearized_of_steps (h : Steps (Step S) (start o) history t) : Linearized S o history t :=
  h.invariant (fun hs hstep => hs.step hstep) ⟨.nil o, fun _ => .nil _, rfl⟩

/-- The last event of a caller, where its history is known to end with it. -/
theorem exists_of_of_eq_concat {i : ι} {es : List (Event ι κ α)} {e : Event ι κ α} (h : of i history = es ++ [e]) :
    ∃ earlier between, history = earlier ++ e :: between ∧ of i between = [] := by
  obtain ⟨before, after, rfl, -, hafter⟩ := List.filter_eq_append_iff.mp h
  obtain ⟨between, after', rfl, -, -, hnone⟩ := List.filter_eq_cons_iff.mp hafter
  exact ⟨before ++ between, after', by simp, hnone⟩

/-- A caller that has made a call, or whose call has been served, has done this last. -/
theorem last_of_rounds {i : ι} {es : List (Event ι κ α)} {ph : CallPhase κ α} (h : Steps CallPhase.Next .idle (of i es) ph) :
    (∀ q, ph = .called q → ∃ earlier between, es = earlier ++ .call i q :: between ∧ of i between = []) ∧
    (∀ q a, ph = .served q a → ∃ earlier between, es = earlier ++ .serve i q a :: between ∧ of i between = []) := by
  obtain hnil | ⟨rest, e, hlast⟩ := (of i es).eq_nil_or_concat'
  · rw [hnil] at h
    cases h
    exact ⟨by rintro q ⟨⟩, by rintro q a ⟨⟩⟩
  · have hmem : e ∈ of i es := hlast ▸ List.mem_concat_self
    have he : e.caller = i := of_decide_eq_true (List.mem_filter.mp hmem).2
    rw [hlast] at h
    obtain ⟨ph', -, _ | ⟨hnext, hend⟩⟩ := steps_append.mp h
    cases hend
    obtain ⟨earlier, between, hes, hnone⟩ := exists_of_of_eq_concat hlast
    cases hnext with
    | call j q =>
      obtain rfl : j = i := he
      exact ⟨by rintro q' ⟨⟩; exact ⟨earlier, between, hes, hnone⟩, by rintro q' a ⟨⟩⟩
    | serve j q a =>
      obtain rfl : j = i := he
      exact ⟨by rintro q' ⟨⟩, by rintro q' a' ⟨⟩; exact ⟨earlier, between, hes, hnone⟩⟩
    | answer | drop => exact ⟨by rintro q ⟨⟩, by rintro q a ⟨⟩⟩

/-- **A call is served between its being made and its return.** -/
theorem inTime_of_rounds {phase : ι → CallPhase κ α} (h : ∀ i, Steps CallPhase.Next .idle (of i history) (phase i)) :
    InTime history := by
  intro before after i q a
  -- how far the caller has come before an event of its own
  have hsplit : ∀ e : Event ι κ α, e.caller = i → history = before ++ e :: after →
      ∃ ph ph', Steps CallPhase.Next .idle (of i before) ph ∧ ph.Next e ph' := by
    rintro e rfl rfl
    have hrounds := h e.caller
    rw [of_append, of_cons_caller] at hrounds
    obtain ⟨ph, hbefore, _ | ⟨hnext, -⟩⟩ := steps_append.mp hrounds
    exact ⟨ph, _, hbefore, hnext⟩
  constructor
  · intro heq
    obtain ⟨ph, ph', hbefore, hnext⟩ := hsplit _ rfl heq
    cases hnext
    exact (last_of_rounds hbefore).1 q rfl
  · intro heq
    obtain ⟨ph, ph', hbefore, hnext⟩ := hsplit _ rfl heq
    cases hnext
    exact (last_of_rounds hbefore).2 q a rfl

end SharedObject

end Library

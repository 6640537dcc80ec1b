import Mathlib.Data.Multiset.Count
import Mathlib.Data.Set.Insert

/-!
# A pool of work items

Items of work are done, queued, held by the one thread that hands them out, or in
flight. A `Step` moves one item between these places; its label is the item that is
lost in the step, if one is.

## What is proved

* `Step.places_le`: no step puts an item in more places than it was in.
* `Step.places_pos`: an item that is somewhere stays somewhere unless it is lost.
* `Step.done_subset`: what is done stays done.

So an item that is in at most one place at the start is in at most one place for ever,
and one that is done is then neither queued nor held nor in flight again.
-/

namespace Library

universe u

/-- Where the items of work are. -/
structure WorkPool (ι : Type u) where
  done : Set ι
  queued : Multiset ι
  held : Option ι
  flying : Multiset ι

namespace WorkPool

variable {ι : Type u}

/-- One step of the pool; the label is the item that is lost. -/
inductive Step : WorkPool ι → Option ι → WorkPool ι → Prop where
  /-- Nothing happens. -/
  | idle (p : WorkPool ι) : Step p none p
  /-- An item is taken from the queue. -/
  | take (d : Set ι) (a : ι) (q f : Multiset ι) : Step ⟨d, a ::ₘ q, none, f⟩ none ⟨d, q, some a, f⟩
  /-- The item held is put back. -/
  | putBack (d : Set ι) (a : ι) (q f : Multiset ι) : Step ⟨d, q, some a, f⟩ none ⟨d, a ::ₘ q, none, f⟩
  /-- The item held is sent off. -/
  | launch (d : Set ι) (a : ι) (q f : Multiset ι) : Step ⟨d, q, some a, f⟩ none ⟨d, q, none, a ::ₘ f⟩
  /-- The item held is lost. -/
  | drop (d : Set ι) (a : ι) (q f : Multiset ι) : Step ⟨d, q, some a, f⟩ (some a) ⟨d, q, none, f⟩
  /-- An item in flight fails, and is queued again. -/
  | fail (d : Set ι) (a : ι) (q : Multiset ι) (h : Option ι) (f : Multiset ι) :
      Step ⟨d, q, h, a ::ₘ f⟩ none ⟨d, a ::ₘ q, h, f⟩
  /-- An item in flight is done. -/
  | succeed (d : Set ι) (a : ι) (q : Multiset ι) (h : Option ι) (f : Multiset ι) :
      Step ⟨d, q, h, a ::ₘ f⟩ none ⟨insert a d, q, h, f⟩
  /-- An item in flight is lost. -/
  | lose (d : Set ι) (a : ι) (q : Multiset ι) (h : Option ι) (f : Multiset ι) :
      Step ⟨d, q, h, a ::ₘ f⟩ (some a) ⟨d, q, h, f⟩

theorem Step.of_eq {p p' q q' : WorkPool ι} {l : Option ι} (h : Step p' l q') (hp : p = p') (hq : q = q') :
    Step p l q := by
  rw [hp, hq]
  exact h

/-- Emptying the hand loses the item held, if there was one. -/
theorem exists_step_of_held_none (p : WorkPool ι) : ∃ l, Step p l { p with held := none } := by
  obtain ⟨d, q, h, f⟩ := p
  cases h with
  | none => exact ⟨none, .idle _⟩
  | some a => exact ⟨some a, .drop d a q f⟩

variable [DecidableEq ι]

open Classical in
/-- The number of places an item is in, a queue counted as often as it holds the item. -/
noncomputable def places (p : WorkPool ι) (i : ι) : ℕ :=
  (if i ∈ p.done then 1 else 0) + p.queued.count i + (if p.held = some i then 1 else 0) + p.flying.count i

/-- An item is in as many places as before, or in one less if it is lost; only an item
that is now done may have been in more. -/
theorem Step.places_eq {p q : WorkPool ι} {l : Option ι} (h : Step p l q) (i : ι) :
    p.places i = q.places i + (if l = some i then 1 else 0) ∨ i ∈ q.done ∧ q.places i ≤ p.places i := by
  cases h with
  | idle => simp
  | take d a q f | putBack d a q f | launch d a q f | drop d a q f =>
    left
    simp only [places, Multiset.count_cons, Option.some.injEq, reduceCtorEq, if_false]
    split_ifs <;> first | omega | simp_all
  | fail d a q h f | lose d a q h f =>
    left
    simp only [places, Multiset.count_cons, Option.some.injEq, reduceCtorEq, if_false]
    split_ifs <;> first | omega | simp_all
  | succeed d a q h f =>
    by_cases hi : i = a
    · subst hi
      refine .inr ⟨Set.mem_insert i d, ?_⟩
      simp only [places, Set.mem_insert_iff, true_or, if_true, Multiset.count_cons_self]
      split_ifs <;> omega
    · have hmem : i ∈ insert a d ↔ i ∈ d := by simp [hi]
      classical
      left
      simp only [places, hmem, Multiset.count_cons_of_ne hi, reduceCtorEq, if_false, Nat.add_zero]

/-- An item that is lost is in one place less. -/
theorem Step.places_of_lost {p q : WorkPool ι} {i : ι} (h : Step p (some i) q) : p.places i = q.places i + 1 := by
  cases h with
  | drop | lose =>
    simp only [places, Multiset.count_cons_self, if_true, reduceCtorEq, if_false]
    omega

/-- No step puts an item in more places. -/
theorem Step.places_le {p q : WorkPool ι} {l : Option ι} (h : Step p l q) (i : ι) : q.places i ≤ p.places i := by
  rcases h.places_eq i with heq | ⟨-, hle⟩
  · omega
  · exact hle

theorem places_pos_of_mem_done {p : WorkPool ι} {i : ι} (h : i ∈ p.done) : 0 < p.places i := by
  simp only [places, if_pos h]
  omega

/-- An item that is somewhere stays somewhere, unless it is lost. -/
theorem Step.places_pos {p q : WorkPool ι} {l : Option ι} (h : Step p l q) {i : ι} (hl : l ≠ some i)
    (hp : 0 < p.places i) : 0 < q.places i := by
  rcases h.places_eq i with heq | ⟨hdone, -⟩
  · rw [if_neg hl] at heq
    omega
  · exact places_pos_of_mem_done hdone

omit [DecidableEq ι] in
/-- What is done stays done. -/
theorem Step.done_subset {p q : WorkPool ι} {l : Option ι} (h : Step p l q) : p.done ⊆ q.done := by
  cases h with
  | succeed d a q h f => exact Set.subset_insert a d
  | idle | take | putBack | launch | drop | fail | lose => exact subset_rfl

/-- What is done is nowhere else, if it is in one place only. -/
theorem not_mem_of_mem_done {p : WorkPool ι} {i : ι} (h : i ∈ p.done) (h₁ : p.places i ≤ 1) :
    i ∉ p.queued ∧ p.held ≠ some i ∧ i ∉ p.flying := by
  simp only [places, if_pos h] at h₁
  refine ⟨?_, ?_, ?_⟩
  · rw [← Multiset.count_eq_zero]
    omega
  · intro hheld
    rw [if_pos hheld] at h₁
    omega
  · rw [← Multiset.count_eq_zero]
    omega

end WorkPool

end Library

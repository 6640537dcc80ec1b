import Mathlib.Tactic.Abel

/-!
# A meter that is read off now and then

Many hands add to a counter. Somebody takes a copy of it now and then, adds the copy to a total and sets
the counter back to nothing, one after another, and may give up before. What is added after the copy has
been taken is in the counter that is set back, but not in the copy.

A `Meter` is the two numbers with how far the reading has got, with what has been added so far, and what
of it has been lost. The numbers are those of any commutative group, so that they may wrap around.

## What is proved

* `Step.balanced`: every step keeps the account of where what has been added is.
* `Balanced.conserved_iff`: between two readings the total and the counter make up what has been added just
  when nothing has been lost.
* `Step.clean`: nothing is lost as long as nobody adds during a reading.
-/

namespace Library

universe u

/-- How far a reading has got, with what has been added since the copy was taken. -/
inductive Meter.Stage (R : Type u) where
  | resting
  /-- The copy has been taken. -/
  | copied (copy late : R)
  /-- It has been added to the total. -/
  | moved (late : R)

/-- A counter and a total. -/
structure Meter (R : Type u) where
  total : R
  counter : R
  stage : Meter.Stage R
  added : R
  lost : R

namespace Meter

variable {R : Type u} [AddCommGroup R]

/-- More is added. -/
def Stage.add (n : R) : Stage R → Stage R
  | resting => resting
  | copied copy late => copied copy (late + n)
  | moved late => moved (late + n)

/-- One step of a meter; the label is what is added to the counter. -/
inductive Step : Meter R → R → Meter R → Prop where
  /-- Nothing happens to it. -/
  | idle (m : Meter R) : Step m 0 m
  /-- Somebody adds to the counter. -/
  | add (n : R) (t c a l : R) (s : Stage R) : Step ⟨t, c, s, a, l⟩ n ⟨t, c + n, s.add n, a + n, l⟩
  /-- A copy is taken. -/
  | copy (t c a l : R) : Step ⟨t, c, .resting, a, l⟩ 0 ⟨t, c, .copied c 0, a, l⟩
  /-- The copy is added to the total. -/
  | move (copy late t c a l : R) : Step ⟨t, c, .copied copy late, a, l⟩ 0 ⟨t + copy, c, .moved late, a, l⟩
  /-- The counter is set back. -/
  | reset (late t c a l : R) : Step ⟨t, c, .moved late, a, l⟩ 0 ⟨t, 0, .resting, a, l + late⟩
  /-- The reading is given up. -/
  | giveUp (copy late t c a l : R) : Step ⟨t, c, .copied copy late, a, l⟩ 0 ⟨t, c, .resting, a, l⟩

theorem Step.of_eq {m m' k k' : Meter R} {n n' : R} (h : Step m' n' k') (hm : m = m') (hn : n = n') (hk : k = k') :
    Step m n k := by
  rw [hm, hn, hk]
  exact h

/-- Where what has been added since `start` was the total is. -/
def Balanced (start : R) (m : Meter R) : Prop :=
  match m.stage with
  | .resting => m.total + m.counter + m.lost = start + m.added
  | .copied copy late => m.counter = copy + late ∧ m.total + m.counter + m.lost = start + m.added
  | .moved late => m.total + late + m.lost = start + m.added

/-- **Every step keeps the account.** -/
theorem Step.balanced {start n : R} {m m' : Meter R} (h : Step m n m') (hm : m.Balanced start) : m'.Balanced start := by
  cases h with
  | idle => exact hm
  | add n t c a l s =>
    cases s with
    | resting =>
      show t + (c + n) + l = start + (a + n)
      rw [← add_assoc start, ← show t + c + l = start + a from hm]
      abel
    | copied copy late =>
      obtain ⟨hcopy, hsum⟩ : c = copy + late ∧ t + c + l = start + a := hm
      refine ⟨?_, ?_⟩
      · rw [hcopy]
        exact add_assoc copy late n
      · show t + (c + n) + l = start + (a + n)
        rw [← add_assoc start, ← hsum]
        abel
    | moved late =>
      show t + (late + n) + l = start + (a + n)
      rw [← add_assoc start, ← show t + late + l = start + a from hm]
      abel
  | copy t c a l => exact ⟨(add_zero c).symm, hm⟩
  | move copy late t c a l =>
    obtain ⟨hcopy, hsum⟩ : c = copy + late ∧ t + c + l = start + a := hm
    show t + copy + late + l = start + a
    rw [← hsum, hcopy]
    abel
  | reset late t c a l =>
    show t + 0 + (l + late) = start + a
    rw [← show t + late + l = start + a from hm]
    abel
  | giveUp copy late t c a l => exact hm.2

/-- **Between two readings nothing is missing but what has been lost.** -/
theorem Balanced.conserved_iff {start : R} {m : Meter R} (h : m.Balanced start) (hrest : m.stage = .resting) :
    m.total + m.counter = start + m.added ↔ m.lost = 0 := by
  obtain ⟨t, c, s, a, l⟩ := m
  cases hrest
  rw [← show t + c + l = start + a from h]
  exact left_eq_add

/-- Nothing has been lost, and nothing is about to be. -/
def Clean (m : Meter R) : Prop :=
  m.lost = 0 ∧
    match m.stage with
    | .resting => True
    | .copied _ late | .moved late => late = 0

/-- **Nothing is lost while nobody adds during a reading.** -/
theorem Step.clean {n : R} {m m' : Meter R} (h : Step m n m') (hadd : n = 0 ∨ m.stage = .resting) (hm : m.Clean) :
    m'.Clean := by
  cases h with
  | idle => exact hm
  | add n t c a l s =>
    cases s with
    | resting => exact ⟨hm.1, trivial⟩
    | copied copy late =>
      obtain rfl := hadd.resolve_right nofun
      exact ⟨hm.1, (add_zero late).trans hm.2⟩
    | moved late =>
      obtain rfl := hadd.resolve_right nofun
      exact ⟨hm.1, (add_zero late).trans hm.2⟩
  | copy => exact ⟨hm.1, rfl⟩
  | move => exact hm
  | reset late t c a l =>
    refine ⟨?_, trivial⟩
    show l + late = 0
    rw [show l = 0 from hm.1, show late = 0 from hm.2, add_zero]
  | giveUp => exact ⟨hm.1, trivial⟩

end Meter

end Library

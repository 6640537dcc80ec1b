import Mathlib.Data.List.Count
import Mathlib.Tactic.Abel

/-!
# Letters that are passed on by the boxful

One side puts whole lists of letters into a box, and the other takes the whole box into its hand and uses the letters
one by one. What is in the box when a new list is put there makes room for it, and what is in the hand when the other
side gives up is dropped.

A `Mailbox` is what has been used, what is in the hand and what is in the box, with all that has been put there so
far. A `Step` is labelled with the letters that are lost in it.

## What is proved

* `Step.inOrder`: as long as nothing is lost, used letters, hand and box are what has been put there, in its order.
* `Step.missing_eq`: what is missing grows by what is lost.
* `Step.missing_pos`: so once a letter has been lost, letters are missing for ever.
* `Accounted.missing_eq`: and then not every letter can be accounted for.
-/

namespace Library

universe u

/-- Where the letters are, and which there have been. -/
structure Mailbox (α : Type u) where
  used : List α
  hand : List α
  box : List α
  sent : List α

namespace Mailbox

variable {α : Type u}

/-- One step; the label is what is lost. -/
inductive Step : Mailbox α → List α → Mailbox α → Prop where
  /-- Nothing happens to it. -/
  | idle (m : Mailbox α) : Step m [] m
  /-- A list is put into the box, and what was there is lost. -/
  | put (xs u h b s : List α) : Step ⟨u, h, b, s⟩ b ⟨u, h, xs, s ++ xs⟩
  /-- A list is lost before it has been put there. -/
  | spoil (xs u h b s : List α) : Step ⟨u, h, b, s⟩ xs ⟨u, h, b, s ++ xs⟩
  /-- The box is taken. -/
  | take (u b s : List α) : Step ⟨u, [], b, s⟩ [] ⟨u, b, [], s⟩
  /-- The next letter is used. -/
  | use (x : α) (u h b s : List α) : Step ⟨u, x :: h, b, s⟩ [] ⟨u ++ [x], h, b, s⟩
  /-- The next letter is used, and the hand drops the others. -/
  | giveUp (x : α) (u h b s : List α) : Step ⟨u, x :: h, b, s⟩ h ⟨u ++ [x], [], b, s⟩

theorem Step.of_eq {m m' k k' : Mailbox α} {xs xs' : List α} (h : Step m' xs' k') (hm : m = m') (hx : xs = xs')
    (hk : k = k') : Step m xs k := by
  rw [hm, hx, hk]
  exact h

/-- The letters that can be accounted for. -/
def present (m : Mailbox α) : List α := m.used ++ m.hand ++ m.box

/-- How many letters are missing. -/
def missing (m : Mailbox α) : ℤ := m.sent.length - m.present.length

/-- **Nothing lost, nothing out of order.** -/
theorem Step.inOrder {m m' : Mailbox α} (h : Step m [] m') (hm : m.sent = m.present) : m'.sent = m'.present := by
  unfold present at hm ⊢
  generalize hlost : ([] : List α) = lost at h
  cases h with
  | idle => exact hm
  | put xs u h b s =>
    subst hlost
    rw [List.append_nil] at hm
    exact congrArg (· ++ xs) hm
  | spoil xs u h b s =>
    subst hlost
    exact (List.append_nil s).trans hm
  | take u b s =>
    rw [List.append_nil] at hm
    exact hm.trans (List.append_nil _).symm
  | use x u h b s =>
    apply hm.trans
    simp only [List.append_assoc, List.cons_append, List.nil_append]
  | giveUp x u h b s =>
    subst hlost
    exact hm.trans (by simp only [List.append_nil])

/-- **What is missing grows by what is lost.** -/
theorem Step.missing_eq {m m' : Mailbox α} {lost : List α} (h : Step m lost m') : m'.missing = m.missing + lost.length := by
  unfold missing present
  cases h with
  | idle | put | spoil | take | use | giveUp =>
    simp only [List.length_append, List.length_cons, List.length_nil, Nat.cast_add, Nat.cast_one, Nat.cast_zero]
    abel

/-- **A loss is for good**: once letters are missing they are missing after every step. -/
theorem Step.missing_pos {m m' : Mailbox α} {lost : List α} (h : Step m lost m') (hm : 0 < m.missing) : 0 < m'.missing := by
  rw [h.missing_eq]
  exact Int.add_pos_of_pos_of_nonneg hm (Int.natCast_nonneg _)

/-- What is lost is missing. -/
theorem Step.missing_pos_of_lost {m m' : Mailbox α} {lost : List α} (h : Step m lost m') (hm : m.missing = 0)
    (hlost : lost ≠ []) : 0 < m'.missing := by
  rw [h.missing_eq, hm, Int.zero_add]
  exact Int.natCast_pos.mpr (List.length_pos_iff.mpr hlost)

theorem missing_of_inOrder {m : Mailbox α} (h : m.sent = m.present) : m.missing = 0 := by
  rw [missing, h, sub_self]

variable [DecidableEq α]

/-- Every letter is in one place, as often as it has been sent. -/
def Accounted (m : Mailbox α) : Prop := ∀ x, m.sent.count x = m.used.count x + m.hand.count x + m.box.count x

theorem accounted_of_inOrder {m : Mailbox α} (h : m.sent = m.present) : m.Accounted := by
  intro x
  rw [h, present, List.count_append, List.count_append]

/-- Where all letters are accounted for, none is missing. -/
theorem Accounted.missing_eq {m : Mailbox α} (h : m.Accounted) : m.missing = 0 := by
  have hperm : m.sent.Perm m.present := by
    rw [List.perm_iff_count]
    intro x
    rw [h x, present, List.count_append, List.count_append]
  rw [missing, hperm.length_eq, sub_self]

end Mailbox

end Library

import Mathlib.Data.List.Basic
import Mathlib.Algebra.Ring.Nat
import Mathlib.Data.Nat.Notation

/-!
# Reading and overwriting a range of a list

`slice l off len` is the part of `l` from index `off` on, `len` items long;
`overwrite l off bs` is `l` with the items from `off` on replaced by `bs`, as a
`memcpy` into a mapped file does. What was written is read back
(`slice_overwrite_self`), and a range that does not meet the one written reads as
before (`slice_overwrite_of_disjoint`). `List.set` is the case of a single item
(`exists_set_eq_append`).
-/

namespace Library

universe u

variable {α : Type u}

/-- The `len` items of `l` from index `off` on. -/
def slice (l : List α) (off len : ℕ) : List α := (l.drop off).take len

/-- `l` with the items from index `off` on replaced by `bs`. -/
def overwrite (l : List α) (off : ℕ) (bs : List α) : List α := l.take off ++ bs ++ l.drop (off + bs.length)

@[simp] theorem slice_zero (l : List α) (off : ℕ) : slice l off 0 = [] := by simp [slice]

theorem length_overwrite {l bs : List α} {off : ℕ} (h : off + bs.length ≤ l.length) :
    (overwrite l off bs).length = l.length := by
  simp only [overwrite, List.length_append, List.length_take, List.length_drop]
  omega

/-- What was written is read back. -/
theorem slice_overwrite_self {l bs : List α} {off : ℕ} (h : off + bs.length ≤ l.length) :
    slice (overwrite l off bs) off bs.length = bs := by
  have ht : (l.take off).length = off := by rw [List.length_take]; omega
  rw [slice, overwrite, List.append_assoc, List.drop_append, ht, List.drop_of_length_le (by omega)]
  simp

theorem getElem?_overwrite {l bs : List α} {off : ℕ} (h : off + bs.length ≤ l.length) {i : ℕ}
    (hi : i < off ∨ off + bs.length ≤ i) : (overwrite l off bs)[i]? = l[i]? := by
  have ht : (l.take off).length = off := by rw [List.length_take]; omega
  rw [overwrite]
  rcases hi with hi | hi
  · rw [List.append_assoc, List.getElem?_append_left (by omega), List.getElem?_take_of_lt hi]
  · rw [List.getElem?_append_right (by simp; omega), List.getElem?_drop]
    congr 1
    rw [List.length_append, ht]
    omega

/-- In the range, what was written is there. -/
theorem getElem?_overwrite_self {l bs : List α} {off : ℕ} (h : off + bs.length ≤ l.length) {i : ℕ} (hi : off ≤ i)
    (hi' : i < off + bs.length) : (overwrite l off bs)[i]? = bs[i - off]? := by
  have ht : (l.take off).length = off := by rw [List.length_take]; omega
  rw [overwrite, List.append_assoc, List.getElem?_append_right (by omega), ht, List.getElem?_append_left (by omega)]

/-- A range that does not meet the one written reads as before. -/
theorem slice_overwrite_of_disjoint {l bs : List α} {off off' len' : ℕ} (h : off + bs.length ≤ l.length)
    (hd : off' + len' ≤ off ∨ off + bs.length ≤ off') :
    slice (overwrite l off bs) off' len' = slice l off' len' := by
  apply List.ext_getElem?
  intro i
  simp only [slice, List.getElem?_take, List.getElem?_drop]
  split_ifs with hi
  · exact getElem?_overwrite h (by omega)
  · rfl

/-- Two ranges that do not meet can be written in any order. -/
theorem overwrite_comm {l bs bs' : List α} {off off' : ℕ} (h : off + bs.length ≤ l.length)
    (h' : off' + bs'.length ≤ l.length) (hd : off + bs.length ≤ off' ∨ off' + bs'.length ≤ off) :
    overwrite (overwrite l off bs) off' bs' = overwrite (overwrite l off' bs') off bs := by
  have hlen := length_overwrite h
  have hlen' := length_overwrite h'
  apply List.ext_getElem?
  intro i
  by_cases hi : off ≤ i ∧ i < off + bs.length
  · rw [getElem?_overwrite (by omega) (by omega), getElem?_overwrite_self h hi.1 hi.2,
      getElem?_overwrite_self (by omega) hi.1 hi.2]
  · rw [@getElem?_overwrite _ (overwrite l off' bs') _ _ (by omega) _ (by omega)]
    by_cases hi' : off' ≤ i ∧ i < off' + bs'.length
    · rw [getElem?_overwrite_self h' hi'.1 hi'.2, getElem?_overwrite_self (by omega) hi'.1 hi'.2]
    · rw [getElem?_overwrite (by omega) (by omega), getElem?_overwrite h (by omega), getElem?_overwrite h' (by omega)]

/-! ### Replacing one item -/

/-- Replacing item `i` leaves what is before and after it. -/
theorem exists_set_eq_append {l : List α} {i : ℕ} {a : α} (h : l[i]? = some a) :
    ∃ l₁ l₂, l = l₁ ++ a :: l₂ ∧ ∀ b, l.set i b = l₁ ++ b :: l₂ := by
  obtain ⟨hi, rfl⟩ := List.getElem?_eq_some_iff.mp h
  refine ⟨l.take i, l.drop (i + 1), ?_, fun b => List.set_eq_take_append_cons_drop.trans (if_pos hi)⟩
  simp

/-- The sum over a list in which one element has been replaced. -/
theorem sum_map_set (f : α → ℕ) {l : List α} {i : ℕ} {a : α} (h : l[i]? = some a) (b : α) :
    ((l.set i b).map f).sum + f a = (l.map f).sum + f b := by
  obtain ⟨l₁, l₂, rfl, hset⟩ := exists_set_eq_append h
  rw [hset b]
  simp only [List.map_append, List.map_cons, List.sum_append, List.sum_cons]
  omega

/-- What is at `j` after item `i` has been replaced. -/
theorem getElem?_set_of_some {l : List α} {i : ℕ} {a : α} (h : l[i]? = some a) (b : α) (j : ℕ) :
    (l.set i b)[j]? = if i = j then some b else l[j]? := by
  obtain ⟨hi, -⟩ := List.getElem?_eq_some_iff.mp h
  split_ifs with hij
  · rw [← hij, List.getElem?_set_self hi]
  · exact List.getElem?_set_ne hij

/-- Removing item `i` leaves what is before and after it. -/
theorem exists_eraseIdx_eq_append {l : List α} {i : ℕ} {a : α} (h : l[i]? = some a) :
    ∃ l₁ l₂, l = l₁ ++ a :: l₂ ∧ l.eraseIdx i = l₁ ++ l₂ := by
  obtain ⟨hi, rfl⟩ := List.getElem?_eq_some_iff.mp h
  refine ⟨l.take i, l.drop (i + 1), ?_, List.eraseIdx_eq_take_drop_succ l i⟩
  simp

end Library

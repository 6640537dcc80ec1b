import Mathlib.Data.PNat.Basic

/-!
# Reading from a stream in pieces

A `Source` is a stream of items as its reader sees it. The reader asks for a number of
items; how many of them are there at once is up to the stream, which may also fail. A
read that finds enough returns all it asks for (`read_of_atLeast`). Another one returns
fewer, and what it returns and what is left make up the stream (`read_append`).
-/

namespace Library

universe u v

/-- What a read finds: so many items, and at least one, or a failure. -/
inductive Arrival (ε : Type v) where
  /-- So many items are there, if the stream is that long. -/
  | upTo (n : ℕ+)
  /-- The read fails. -/
  | fail (e : ε)

/-- There are `n` items at least. -/
def Arrival.AtLeast {ε : Type v} (n : ℕ) : Arrival ε → Prop
  | upTo k => n ≤ k
  | fail _ => False

instance {ε : Type v} (n : ℕ) (a : Arrival ε) : Decidable (a.AtLeast n) :=
  match a with
  | .upTo k => inferInstanceAs (Decidable (n ≤ k))
  | .fail _ => isFalse id

/-- The items of a stream, and what each of the reads to come finds. -/
structure Source (α : Type u) (ε : Type v) where
  items : List α
  arrivals : ℕ → Arrival ε

namespace Source

variable {α : Type u} {ε : Type v}

/-- The stream after a read has left `items` of it. -/
def next (s : Source α ε) (items : List α) : Source α ε := ⟨items, fun i => s.arrivals (i + 1)⟩

@[simp] theorem items_next (s : Source α ε) (l : List α) : (s.next l).items = l := rfl

/-- One read of at most `n` items. -/
def read (s : Source α ε) (n : ℕ) : Except ε (List α) × Source α ε :=
  match s.arrivals 0 with
  | .upTo k => (.ok (s.items.take (min n k)), s.next (s.items.drop (min n k)))
  | .fail e => (.error e, s.next s.items)

/-- What the reads after it find does not depend on a read. -/
theorem arrivals_of_read {s s' : Source α ε} {n : ℕ} {r : Except ε (List α)} (h : s.read n = (r, s')) (i : ℕ) :
    s'.arrivals i = s.arrivals (i + 1) := by
  unfold read at h
  split at h
  · cases h
    rfl
  · cases h
    rfl

/-- A read that finds all it asks for returns it. -/
theorem read_of_atLeast {s : Source α ε} {n : ℕ} {bs rest : List α} (h : (s.arrivals 0).AtLeast n)
    (hs : s.items = bs ++ rest) (hn : bs.length = n) : s.read n = (.ok bs, s.next rest) := by
  subst hn
  cases ha : s.arrivals 0 with
  | fail e => rw [ha] at h; exact absurd h id
  | upTo k =>
    rw [ha] at h
    have hmin : min bs.length k = bs.length := Nat.min_eq_left h
    simp [read, ha, hmin, hs]

/-- A read that does not fail returns what is at the front of the stream. -/
theorem read_append {s s' : Source α ε} {n : ℕ} {bs : List α} (h : s.read n = (.ok bs, s')) :
    s.items = bs ++ s'.items ∧ bs.length ≤ n := by
  unfold read at h
  split at h
  · next k hk =>
    simp only [Prod.mk.injEq, Except.ok.injEq] at h
    obtain ⟨rfl, rfl⟩ := h
    constructor
    · simp
    · rw [List.length_take]
      omega
  · simp at h

/-- A read that returns all it asks for has found it. -/
theorem atLeast_of_length_eq {s s' : Source α ε} {n : ℕ} {bs : List α} (h : s.read n = (.ok bs, s'))
    (hn : bs.length = n) : (s.arrivals 0).AtLeast n := by
  unfold read at h
  split at h
  · next k hk =>
    simp only [Prod.mk.injEq, Except.ok.injEq] at h
    obtain ⟨rfl, -⟩ := h
    rw [List.length_take] at hn
    rw [hk, Arrival.AtLeast]
    omega
  · simp at h

end Source

end Library

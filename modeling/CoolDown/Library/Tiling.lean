import CoolDown.Library.Slice
import Mathlib.Algebra.Order.Monoid.Unbundled.Basic
import Mathlib.Algebra.BigOperators.Group.List.Basic
import Mathlib.Algebra.Order.Group.Nat
import Mathlib.Algebra.Order.Monoid.Unbundled.Pow
import Mathlib.Algebra.Order.BigOperators.Group.List
import Mathlib.Algebra.Order.Floor.Div
import Mathlib.Data.List.Basic
import Mathlib.Tactic.Ring

/-!
# Cutting a range into pieces of one size

`cut s start stop` is the loop that takes pieces of length `s` off the front of
`[start, stop)` while more than `s` is left, and the rest as the last piece. Its
closed form is `cut_eq`: with `k = (stop - start - 1) / s` full pieces and the rest.

`Uniform s l` says that the lengths in `l` are `s`, ..., `s`, `r` with `0 < r ≤ s`:
every piece but the last has length `s`, and the last is not empty and not longer.
For such lengths the start of piece `i` is `i • s` (`Uniform.sum_take`), every piece
lies inside the whole (`Uniform.nsmul_add_le_sum`), and a piece ends before a later
one starts (`Uniform.nsmul_add_le`). The lengths of a `cut` are uniform
(`uniform_cut`).

From `0` on, piece `k` is `pieceAt s n k`, that is `[k * s, (k + 1) * s)` as far as it goes
(`cut_eq_map_pieceAt`), and each place is in just one (`existsUnique_pieceAt`). Lists that
agree on all pieces are the same (`drop_eq_of_forall_cut`).
-/

namespace Library

universe u

/-! ### Uniform lengths -/

section Uniform

variable {M : Type u} [AddCommMonoid M] [LinearOrder M]

/-- The lengths are `s`, ..., `s`, `r` with `0 < r ≤ s`. -/
def Uniform (s : M) (l : List M) : Prop := ∃ k r, l = List.replicate k s ++ [r] ∧ 0 < r ∧ r ≤ s

theorem Uniform.length_pos {s : M} {l : List M} (h : Uniform s l) : 0 < l.length := by
  obtain ⟨k, r, rfl, -⟩ := h
  simp

/-- The first length is `s`, unless it is the only one. -/
theorem Uniform.getElem?_zero_le {s x : M} {l : List M} (h : Uniform s l) (hx : l[0]? = some x) :
    x = s ∨ l.length = 1 := by
  obtain ⟨k, r, rfl, -⟩ := h
  cases k with
  | zero => exact .inr (by simp)
  | succ k => exact .inl (by simpa [List.replicate_succ] using hx.symm)

theorem Uniform.pos_of_mem {s x : M} {l : List M} (h : Uniform s l) (hx : x ∈ l) : 0 < x := by
  obtain ⟨k, r, rfl, hr, hrs⟩ := h
  rcases List.mem_append.mp hx with hx | hx
  · exact List.eq_of_mem_replicate hx ▸ hr.trans_le hrs
  · exact List.mem_singleton.mp hx ▸ hr

theorem Uniform.le_of_mem {s x : M} {l : List M} (h : Uniform s l) (hx : x ∈ l) : x ≤ s := by
  obtain ⟨k, r, rfl, hr, hrs⟩ := h
  rcases List.mem_append.mp hx with hx | hx
  · exact (List.eq_of_mem_replicate hx).le
  · exact List.mem_singleton.mp hx ▸ hrs

/-- The first length serves as well as `s`. -/
theorem Uniform.of_getElem?_zero {s x : M} {l : List M} (h : Uniform s l) (hx : l[0]? = some x) : Uniform x l := by
  rcases h.getElem?_zero_le hx with rfl | hl
  · exact h
  · obtain ⟨y, rfl⟩ := List.length_eq_one_iff.mp hl
    obtain rfl : y = x := by simpa using hx
    exact ⟨0, y, rfl, h.pos_of_mem List.mem_cons_self, le_rfl⟩

/-- Piece `i` starts at `i • s`. -/
theorem Uniform.sum_take {s : M} {l : List M} (h : Uniform s l) {i : ℕ} (hi : i < l.length) :
    (l.take i).sum = i • s := by
  obtain ⟨k, r, rfl, -⟩ := h
  have hik : i ≤ k := by simpa [Nat.lt_succ_iff] using hi
  rw [List.take_append_of_le_length (by simpa using hik), List.take_replicate, List.sum_replicate, min_eq_left hik]

variable [IsOrderedAddMonoid M]

/-- Piece `i` lies inside the whole. -/
theorem Uniform.nsmul_add_le_sum {s x : M} {l : List M} (h : Uniform s l) {i : ℕ} (hx : l[i]? = some x) :
    i • s + x ≤ l.sum := by
  obtain ⟨hi, rfl⟩ := List.getElem?_eq_some_iff.mp hx
  have hs : (l.take (i + 1)).sum = i • s + l[i] := by rw [List.sum_take_succ l i hi, h.sum_take hi]
  rw [← hs, ← List.sum_take_add_sum_drop l (i + 1)]
  exact le_add_of_nonneg_right (List.sum_nonneg fun y hy => (h.pos_of_mem (List.mem_of_mem_drop hy)).le)

/-- A piece ends before a later one starts. -/
theorem Uniform.nsmul_add_le {s x : M} {l : List M} (h : Uniform s l) {i j : ℕ} (hij : i < j)
    (hx : l[i]? = some x) : i • s + x ≤ j • s := by
  have hmem := List.mem_of_getElem? hx
  calc i • s + x ≤ i • s + s := by gcongr; exact h.le_of_mem hmem
    _ = (i + 1) • s := (succ_nsmul s i).symm
    _ ≤ j • s := nsmul_le_nsmul_left ((h.pos_of_mem hmem).le.trans (h.le_of_mem hmem)) hij

end Uniform

/-! ### The cutting loop -/

/-- Pieces `[start, start + s)` while `start + s < stop`, then `[start, stop)`. -/
def cut (s start stop : ℕ) : List (ℕ × ℕ) :=
  if 0 < s ∧ start + s < stop then (start, start + s) :: cut s (start + s) stop else [(start, stop)]
termination_by stop - start

/-- The closed form of the cutting loop: `k` full pieces, then the rest. -/
theorem cut_eq {s start stop k : ℕ} (h : start + k * s < stop) (h' : stop ≤ start + (k + 1) * s) :
    cut s start stop =
      (List.range k).map (fun i => (start + i * s, start + (i + 1) * s)) ++ [(start + k * s, stop)] := by
  induction k generalizing start with
  | zero =>
    rw [cut, if_neg (by omega)]
    simp
  | succ k ih =>
    have hs : 0 < s := by
      rcases Nat.eq_zero_or_pos s with rfl | hs
      · omega
      · exact hs
    have hk : (k + 1) * s = k * s + s := by ring
    have hk' : (k + 1 + 1) * s = (k + 1) * s + s := by ring
    have hle : 0 ≤ k * s := Nat.zero_le _
    rw [cut, if_pos ⟨hs, by omega⟩, ih (by omega) (by omega), List.range_succ_eq_map, List.map_cons,
      List.cons_append, List.map_map]
    simp only [Nat.zero_mul, Nat.add_zero, Nat.zero_add, Nat.one_mul, List.cons.injEq, true_and]
    congr 1
    · refine List.map_congr_left fun i _ => ?_
      simp only [Function.comp, Nat.succ_eq_add_one, Prod.mk.injEq]
      constructor <;> ring
    · simp only [List.cons.injEq, Prod.mk.injEq, and_true]
      omega

/-- Piece `i` starts after `i` full pieces. -/
theorem fst_of_getElem?_cut {s start stop i : ℕ} {r : ℕ × ℕ} (h : (cut s start stop)[i]? = some r) :
    r.1 = start + i * s := by
  induction i generalizing start with
  | zero =>
    rw [cut] at h
    split_ifs at h <;> (obtain rfl := Option.some.inj h; simp)
  | succ i ih =>
    rw [cut] at h
    split_ifs at h with hlt
    · rw [ih h, Nat.succ_mul]
      omega
    · cases h

/-- The lengths of the pieces sum to that of the range. -/
theorem sum_length_cut (s : ℕ) {start stop : ℕ} (h : start ≤ stop) :
    ((cut s start stop).map fun r => r.2 - r.1).sum = stop - start := by
  induction start using cut.induct s stop with
  | case1 start hlt ih =>
    rw [cut, if_pos hlt, List.map_cons, List.sum_cons, ih (by omega)]
    omega
  | case2 start hlt =>
    rw [cut, if_neg hlt]
    simp

/-- The number of full pieces is `(stop - start - 1) / s`. -/
theorem cut_bounds {s start stop : ℕ} (hs : 0 < s) (h : start < stop) :
    start + (stop - start - 1) / s * s < stop ∧ stop ≤ start + ((stop - start - 1) / s + 1) * s := by
  have hdm := Nat.div_add_mod (stop - start - 1) s
  have hlt := Nat.mod_lt (stop - start - 1) hs
  rw [Nat.mul_comm] at hdm
  rw [Nat.succ_mul]
  omega

/-- The lengths of the pieces. -/
theorem map_length_cut {s start stop k : ℕ} (h : start + k * s < stop) (h' : stop ≤ start + (k + 1) * s) :
    (cut s start stop).map (fun r => r.2 - r.1) = List.replicate k s ++ [stop - start - k * s] := by
  rw [cut_eq h h', List.map_append, List.map_map]
  congr 1
  · refine List.eq_replicate_iff.mpr ⟨by simp, fun b hb => ?_⟩
    obtain ⟨i, -, rfl⟩ := List.mem_map.mp hb
    have hi : (i + 1) * s = i * s + s := by ring
    simp only [Function.comp]
    omega
  · simp [Nat.sub_add_eq]

/-- The pieces lie inside the range. -/
theorem bounds_of_mem_cut {s start stop : ℕ} (hle : start ≤ stop) {r : ℕ × ℕ} (h : r ∈ cut s start stop) :
    start ≤ r.1 ∧ r.1 ≤ r.2 ∧ r.2 ≤ stop := by
  induction start using cut.induct s stop with
  | case1 start hlt ih =>
    rw [cut, if_pos hlt] at h
    rcases List.mem_cons.mp h with rfl | h
    · exact ⟨le_rfl, Nat.le_add_right _ _, hlt.2.le⟩
    · obtain ⟨hfrom, hto⟩ := ih hlt.2.le h
      exact ⟨(Nat.le_add_right _ _).trans hfrom, hto⟩
  | case2 start hlt =>
    rw [cut, if_neg hlt] at h
    obtain rfl := List.mem_singleton.mp h
    exact ⟨le_rfl, hle, le_rfl⟩

/-- Two lists that agree on every piece from `start` on agree from there on. -/
theorem drop_eq_of_forall_cut {α : Type*} {l l' : List α} {s start : ℕ} (hlen : l.length = l'.length)
    (h : ∀ r ∈ cut s start l.length, slice l r.1 (r.2 - r.1) = slice l' r.1 (r.2 - r.1)) : l.drop start = l'.drop start := by
  induction start using cut.induct s l.length with
  | case1 start hlt ih =>
    rw [cut, if_pos hlt] at h
    obtain ⟨hfirst, hrest⟩ := List.forall_mem_cons.mp h
    have hnext := ih hrest
    rw [Nat.add_sub_cancel_left] at hfirst
    rw [← List.take_append_drop s (l.drop start), ← List.take_append_drop s (l'.drop start), List.drop_drop,
      List.drop_drop, hnext]
    exact congrArg (· ++ _) hfirst
  | case2 start hlt =>
    rw [cut, if_neg hlt] at h
    have hlast := List.forall_mem_singleton.mp h
    rwa [slice, slice, List.take_of_length_le (by rw [List.length_drop]),
      List.take_of_length_le (by rw [List.length_drop, hlen])] at hlast

/-- Piece `k` of a range of length `n`, from `k * s` on. -/
def pieceAt (s n k : ℕ) : ℕ × ℕ := (k * s, min ((k + 1) * s) n)

/-- The pieces of a range that is not empty, one after another: as many as the length over `s`, rounded up. -/
theorem cut_eq_map_pieceAt {s n : ℕ} (hs : 0 < s) (hn : 0 < n) :
    cut s 0 n = (List.range (n ⌈/⌉ s)).map (pieceAt s n) := by
  obtain ⟨hk, hk'⟩ := cut_bounds hs hn
  rw [Nat.sub_zero, Nat.zero_add] at hk hk'
  have hcount : n ⌈/⌉ s = (n - 1) / s + 1 := by
    rw [Nat.ceilDiv_eq_add_pred_div, show n + s - 1 = n - 1 + s by omega, Nat.add_div_right _ hs]
  rw [cut_eq (k := (n - 1) / s) (by omega) (by omega), hcount, List.range_succ, List.map_append, List.map_singleton]
  congr 1
  · refine List.map_congr_left fun i hi => ?_
    have hle : (i + 1) * s ≤ (n - 1) / s * s := Nat.mul_le_mul_right s (List.mem_range.mp hi)
    simp only [pieceAt, Nat.zero_add]
    rw [min_eq_left (by omega)]
  · simp only [pieceAt, Nat.zero_add]
    rw [min_eq_right hk']

theorem lt_ceilDiv_iff {s n k : ℕ} (hs : 0 < s) : k < n ⌈/⌉ s ↔ k * s < n := by
  rw [← not_le, ceilDiv_le_iff_le_mul hs, not_le, Nat.mul_comm]

/-- No piece is empty. -/
theorem pieceAt_pos {s n k : ℕ} (hs : 0 < s) (hk : k < n ⌈/⌉ s) : (pieceAt s n k).1 < (pieceAt s n k).2 := by
  have hnext : k * s < (k + 1) * s := by
    rw [Nat.succ_mul]
    omega
  exact lt_min hnext ((lt_ceilDiv_iff hs).mp hk)

/-- A piece ends where the next begins. -/
theorem pieceAt_succ {s n k : ℕ} (hs : 0 < s) (hk : k + 1 < n ⌈/⌉ s) :
    (pieceAt s n k).2 = (pieceAt s n (k + 1)).1 :=
  min_eq_left ((lt_ceilDiv_iff hs).mp hk).le

/-- Each place in the range is in just one piece. -/
theorem existsUnique_pieceAt {s n i : ℕ} (hs : 0 < s) (hi : i < n) :
    ∃! k, k < n ⌈/⌉ s ∧ (pieceAt s n k).1 ≤ i ∧ i < (pieceAt s n k).2 := by
  have hle : i / s * s ≤ i := Nat.div_mul_le_self i s
  have hlt : i < (i / s + 1) * s := by
    rw [Nat.mul_comm]
    exact Nat.lt_mul_div_succ i hs
  refine ⟨i / s, ⟨(lt_ceilDiv_iff hs).mpr (by omega), hle, lt_min hlt hi⟩, ?_⟩
  rintro k ⟨-, hfrom, hto⟩
  exact (Nat.div_eq_of_lt_le hfrom (lt_min_iff.mp hto).1).symm

end Library

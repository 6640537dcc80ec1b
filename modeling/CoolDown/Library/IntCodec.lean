import Mathlib.Algebra.Ring.Nat
import Mathlib.Data.Nat.Notation
import Mathlib.Tactic.SplitIfs

/-!
# Numbers as bytes

Two ways to write a number as bytes: in `k` bytes with the high one first
(`bigEndian`), and in as many groups of seven bits as it takes, low group first, with
the top bit of a byte set when another one follows (`varint`). Both are read back:
`ofBigEndian_bigEndian` and `readVarint_varint`, the latter from the front of a longer
stream.
-/

namespace Library

/-! ### Lengths in 32 bits -/

/-- A length that fits is read as it was written. -/
theorem toNatClampNeg_ofNat {n : ℕ} (h : n < 2 ^ 31) : (Int32.ofNat n).toNatClampNeg = n := by
  simp [Int32.toNatClampNeg, Int32.toInt_ofNat_of_lt h]

/-- A length that fits is not negative. -/
theorem not_ofNat_lt_zero {n : ℕ} (h : n < 2 ^ 31) : ¬Int32.ofNat n < 0 := by
  rw [Int32.lt_iff_toInt_lt, Int32.toInt_ofNat_of_lt h]
  simp

/-! ### High byte first -/

/-- `n` in `k` bytes, the high one first. -/
def bigEndian : ℕ → ℕ → List UInt8
  | 0, _ => []
  | k + 1, n => bigEndian k (n / 256) ++ [UInt8.ofNat n]

/-- The number that such bytes stand for. -/
def ofBigEndian (bs : List UInt8) : ℕ := bs.foldl (fun n b => n * 256 + b.toNat) 0

@[simp] theorem length_bigEndian (k n : ℕ) : (bigEndian k n).length = k := by
  induction k generalizing n with
  | zero => rfl
  | succ k ih => rw [bigEndian, List.length_append, ih, List.length_singleton]

theorem ofBigEndian_append_singleton (bs : List UInt8) (b : UInt8) :
    ofBigEndian (bs ++ [b]) = ofBigEndian bs * 256 + b.toNat := by
  simp [ofBigEndian]

theorem ofBigEndian_bigEndian {k n : ℕ} (h : n < 256 ^ k) : ofBigEndian (bigEndian k n) = n := by
  induction k generalizing n with
  | zero =>
    rw [Nat.pow_zero, Nat.lt_one_iff] at h
    subst h
    rfl
  | succ k ih =>
    have hdiv : n / 256 < 256 ^ k := Nat.div_lt_of_lt_mul (by rw [Nat.mul_comm, ← Nat.pow_succ]; exact h)
    rw [bigEndian, ofBigEndian_append_singleton, ih hdiv, UInt8.toNat_ofNat']
    omega

/-! ### Groups of seven bits -/

/-- `n` in groups of seven bits, at most `k` of them. -/
def groups : ℕ → ℕ → List UInt8
  | 0, _ => []
  | k + 1, n => if n < 128 then [UInt8.ofNat n] else UInt8.ofNat (n % 128 + 128) :: groups k (n / 128)

/-- `n` in as many groups as it takes. -/
def varint (n : ℕ) : List UInt8 := groups (n.log2 + 1) n

/-- Reads a number; returns it and what follows. -/
def readVarint : List UInt8 → Option (ℕ × List UInt8)
  | [] => none
  | b :: bs =>
    if b.toNat < 128 then some (b.toNat, bs)
    else (readVarint bs).map fun r => (b.toNat % 128 + 128 * r.1, r.2)

theorem readVarint_groups {k n : ℕ} (hk : 0 < k) (h : n < 128 ^ k) (rest : List UInt8) :
    readVarint (groups k n ++ rest) = some (n, rest) := by
  induction k generalizing n with
  | zero => omega
  | succ k ih =>
    rw [groups]
    split
    · next hn =>
      have hb : (UInt8.ofNat n).toNat = n := by rw [UInt8.toNat_ofNat']; omega
      simp [readVarint, hb, hn]
    · next hn =>
      have hb : (UInt8.ofNat (n % 128 + 128)).toNat = n % 128 + 128 := by rw [UInt8.toNat_ofNat']; omega
      have hdiv : n / 128 < 128 ^ k := Nat.div_lt_of_lt_mul (by rw [Nat.mul_comm, ← Nat.pow_succ]; exact h)
      have hk' : 0 < k := by
        apply Nat.pos_of_ne_zero
        intro hk0
        subst hk0
        omega
      rw [List.cons_append, readVarint, if_neg (by omega), ih hk' hdiv, Option.map_some, hb]
      congr 2
      omega

/-- A number is read back from the front of a stream. -/
theorem readVarint_varint (n : ℕ) (rest : List UInt8) : readVarint (varint n ++ rest) = some (n, rest) := by
  apply readVarint_groups (Nat.succ_pos _)
  calc n < 2 ^ (n.log2 + 1) := Nat.lt_log2_self
    _ ≤ 128 ^ (n.log2 + 1) := Nat.pow_le_pow_left (by decide) _

theorem length_groups_le (k n : ℕ) : (groups k n).length ≤ k := by
  induction k generalizing n with
  | zero => simp [groups]
  | succ k ih =>
    rw [groups]
    split_ifs
    · simp
    · simpa using ih (n / 128)

/-- A number takes no more groups than it has bits. -/
theorem length_varint_le {n b : ℕ} (hb : 0 < b) (h : n < 2 ^ b) : (varint n).length ≤ b := by
  have hlog : n.log2 + 1 ≤ b := by
    by_cases hn : n = 0
    · subst hn
      exact hb
    · exact (Nat.log2_lt hn).mpr h
  exact Nat.le_trans (length_groups_le _ n) hlog

theorem varint_ne_nil (n : ℕ) : varint n ≠ [] := by
  rw [varint, groups]
  split_ifs
  · exact List.cons_ne_nil _ _
  · exact List.cons_ne_nil _ _

end Library

import Mathlib.Data.List.GetD
import Mathlib.Data.Nat.Notation
import Mathlib.Data.Nat.Init

/-!
# Bits in blocks

A list of bits as a list of blocks of `w` bits: bit `w * k + j` is bit `j` of block `k`,
and what is left of the last block is clear (`toBlocks`). The blocks alone do not say how
many bits there were. With that number they give the bits back (`resize_ofBlocks_toBlocks`),
and the bits give the blocks back (`toBlocks_resize_ofBlocks`).
-/

namespace Library

variable {w : ℕ}

/-- Block `k` of the bits; where the bits end, it is filled up with clear ones. -/
def block (w : ℕ) (bits : List Bool) (k : ℕ) : BitVec w :=
  BitVec.ofNat w (Nat.ofBits fun j : Fin w => bits.getD (w * k + j) false)

/-- The bits in blocks of `w`. -/
def toBlocks (w : ℕ) (bits : List Bool) : List (BitVec w) :=
  (List.range ((bits.length + w - 1) / w)).map (block w bits)

/-- All the bits of the blocks. -/
def ofBlocks (blocks : List (BitVec w)) : List Bool :=
  (List.range (w * blocks.length)).map fun i => (blocks.getD (i / w) 0).getLsbD (i % w)

/-- The first `n` bits, with clear ones added where there are fewer. -/
def resize (bits : List Bool) (n : ℕ) : List Bool := bits.take n ++ List.replicate (n - bits.length) false

@[simp] theorem length_toBlocks (bits : List Bool) : (toBlocks w bits).length = (bits.length + w - 1) / w := by
  simp [toBlocks]

@[simp] theorem length_ofBlocks (blocks : List (BitVec w)) : (ofBlocks blocks).length = w * blocks.length := by
  simp [ofBlocks]

@[simp] theorem length_resize (bits : List Bool) (n : ℕ) : (resize bits n).length = n := by
  simp [resize]
  omega

/-- There are enough blocks. -/
theorem length_le_mul_length_toBlocks (hw : 0 < w) (bits : List Bool) :
    bits.length ≤ w * (toBlocks w bits).length := by
  have hlt := Nat.lt_mul_div_succ (bits.length + w - 1) hw
  rw [Nat.mul_add] at hlt
  rw [length_toBlocks]
  omega

theorem getElem_toBlocks {bits : List Bool} {k : ℕ} (hk : k < (toBlocks w bits).length) :
    (toBlocks w bits)[k] = block w bits k := by
  simp [toBlocks]

/-- Bit `w * k + j` is bit `j` of block `k`. -/
theorem getLsbD_block (bits : List Bool) (k : ℕ) {j : ℕ} (hj : j < w) :
    (block w bits k).getLsbD j = bits.getD (w * k + j) false := by
  rw [block, BitVec.getLsbD_ofNat, Nat.testBit_ofBits_lt _ _ hj]
  simp [hj]

/-- Bit `i` of the blocks is bit `i` of what was put in them, and clear past its end. -/
theorem getLsbD_toBlocks (hw : 0 < w) (bits : List Bool) (i : ℕ) :
    ((toBlocks w bits).getD (i / w) 0).getLsbD (i % w) = bits.getD i false := by
  by_cases hk : i / w < (toBlocks w bits).length
  · rw [List.getD_eq_getElem _ _ hk, getElem_toBlocks hk, getLsbD_block _ _ (Nat.mod_lt i hw), Nat.div_add_mod]
  · have hle : bits.length ≤ i :=
      calc bits.length ≤ w * (toBlocks w bits).length := length_le_mul_length_toBlocks hw bits
        _ ≤ w * (i / w) := Nat.mul_le_mul_left w (Nat.le_of_not_lt hk)
        _ ≤ i := Nat.mul_div_le i w
    rw [List.getD_eq_default _ _ (Nat.le_of_not_lt hk), List.getD_eq_default _ _ hle]
    exact BitVec.getLsbD_zero

/-- With more bits than the blocks have, the rest is clear; with fewer, the rest is lost. -/
theorem getElem_resize_ofBlocks (hw : 0 < w) (blocks : List (BitVec w)) {n i : ℕ}
    (hi : i < (resize (ofBlocks blocks) n).length) :
    (resize (ofBlocks blocks) n)[i] = (blocks.getD (i / w) 0).getLsbD (i % w) := by
  rw [length_resize] at hi
  by_cases hlt : i < w * blocks.length
  · have htake : i < ((ofBlocks blocks).take n).length := by
      rw [List.length_take, length_ofBlocks]
      exact Nat.lt_min.mpr ⟨hi, hlt⟩
    simp only [resize]
    rw [List.getElem_append_left htake, List.getElem_take]
    simp [ofBlocks]
  · have hk : blocks.length ≤ i / w := (Nat.le_div_iff_mul_le hw).mpr (by rw [Nat.mul_comm]; omega)
    have htake : ((ofBlocks blocks).take n).length ≤ i := by
      rw [List.length_take, length_ofBlocks]
      omega
    simp only [resize]
    rw [List.getElem_append_right htake, List.getElem_replicate, List.getD_eq_default _ _ hk]
    exact BitVec.getLsbD_zero.symm

/-- Blocks and number together give the bits back. -/
theorem resize_ofBlocks_toBlocks (hw : 0 < w) (bits : List Bool) :
    resize (ofBlocks (toBlocks w bits)) bits.length = bits := by
  apply List.ext_getElem (length_resize _ _)
  intro i hi hi'
  rw [getElem_resize_ofBlocks hw, getLsbD_toBlocks hw, List.getD_eq_getElem _ _ hi']

/-- Blocks come back from the first `n` bits in them, if there are just enough of them and the
rest of the last one is clear. -/
theorem toBlocks_resize_ofBlocks (hw : 0 < w) {blocks : List (BitVec w)} {n : ℕ}
    (hlen : blocks.length = (n + w - 1) / w)
    (hclear : ∀ i, n ≤ i → (blocks.getD (i / w) 0).getLsbD (i % w) = false) :
    toBlocks w (resize (ofBlocks blocks) n) = blocks := by
  apply List.ext_getElem
  · rw [length_toBlocks, length_resize, hlen]
  · intro k hk hk'
    rw [getElem_toBlocks hk]
    refine BitVec.eq_of_getLsbD_eq fun j hj => ?_
    have hdiv : (w * k + j) / w = k := by rw [Nat.mul_add_div hw, Nat.div_eq_of_lt hj, Nat.add_zero]
    have hmod : (w * k + j) % w = j := by rw [Nat.mul_add_mod, Nat.mod_eq_of_lt hj]
    have hblock : (blocks.getD ((w * k + j) / w) 0).getLsbD ((w * k + j) % w) = (blocks[k]).getLsbD j := by
      rw [hdiv, hmod, List.getD_eq_getElem _ _ hk']
    rw [getLsbD_block _ _ hj, ← hblock]
    by_cases hlt : w * k + j < n
    · rw [List.getD_eq_getElem _ _ (by rwa [length_resize]), getElem_resize_ofBlocks hw]
    · rw [List.getD_eq_default _ _ (by rw [length_resize]; omega), hclear _ (Nat.le_of_not_lt hlt)]

end Library

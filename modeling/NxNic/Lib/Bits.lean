import Mathlib.Data.List.FinRange
import Mathlib.Data.Nat.BitIndices

/-! # Words as sets of indices

A word of `w` bits is the set of the indices whose bits are one.  An index is put into it and
taken out of it, and `x & (x - 1)` leaves out the lowest one.

`indices x` is that set as a list, in order and without repetition, and the operations are said by
membership (`getLsbD_or_bit`, `getLsbD_and_not_bit`, `indices_and_sub_one`), so that a word that
serves as a bitmap can be followed as a set.
-/
namespace NxNic
namespace Bits

variable {w : Nat}

/-- `1 << i`. -/
def bit (w i : Nat) : BitVec w := 1#w <<< i

theorem getLsbD_bit {i : Nat} (hi : i < w) (j : Nat) : (bit w i).getLsbD j = decide (j = i) := by
  rw [bit, BitVec.getLsbD_shiftLeft, BitVec.getLsbD_one]
  by_cases hj : j = i
  · subst hj
    simp [hi]
    omega
  · simp only [hj, decide_false]
    by_cases hlt : j < i
    · simp [hlt]
    · have hsub : j - i ≠ 0 := by omega
      simp [hsub]

/-- An index is put into the set. -/
theorem getLsbD_or_bit (x : BitVec w) {i : Nat} (hi : i < w) (j : Nat) :
    (x ||| bit w i).getLsbD j = (x.getLsbD j || decide (j = i)) := by
  rw [BitVec.getLsbD_or, getLsbD_bit hi]

/-- An index is taken out of the set. -/
theorem getLsbD_and_not_bit (x : BitVec w) {i : Nat} (hi : i < w) (j : Nat) :
    (x &&& ~~~bit w i).getLsbD j = (x.getLsbD j && !decide (j = i)) := by
  rw [BitVec.getLsbD_and, BitVec.getLsbD_not, getLsbD_bit hi]
  by_cases hj : j < w
  · simp [hj]
  · rw [BitVec.getLsbD_of_ge x j (by omega)]
    rfl

/-- The indices in the set, in order. -/
def indices (x : BitVec w) : List Nat := x.toNat.bitIndices

theorem mem_indices {x : BitVec w} {i : Nat} : i ∈ indices x ↔ x.getLsbD i = true := by
  rw [indices, Nat.mem_bitIndices]
  rfl

theorem nodup_indices (x : BitVec w) : (indices x).Nodup := Nat.bitIndices_nodup

theorem indices_eq_nil {x : BitVec w} : indices x = [] ↔ x = 0 := by
  constructor
  · intro h
    apply BitVec.eq_of_getLsbD_eq
    intro i _
    have hnot : i ∉ indices x := h ▸ List.not_mem_nil
    rw [mem_indices, Bool.not_eq_true] at hnot
    rw [hnot]
    exact BitVec.getLsbD_zero.symm
  · rintro rfl
    exact Nat.bitIndices_zero

theorem bitIndices_and_sub_one {n : Nat} (hn : n ≠ 0) :
    (n &&& (n - 1)).bitIndices = n.bitIndices.tail := by
  induction n using Nat.strongRecOn with
  | ind n ih =>
    obtain ⟨m, rfl | rfl⟩ : ∃ m, n = 2 * m ∨ n = 2 * m + 1 := ⟨n / 2, by omega⟩
    · have hm : m ≠ 0 := by omega
      have hand : 2 * m &&& (2 * m - 1) = 2 * (m &&& (m - 1)) := by
        apply Nat.eq_of_testBit_eq
        intro i
        cases i with
        | zero => simp [Nat.testBit_zero]
        | succ i =>
          rw [Nat.testBit_and, Nat.testBit_succ, Nat.testBit_succ, Nat.testBit_succ,
            Nat.mul_div_cancel_left _ (by decide), Nat.mul_div_cancel_left _ (by decide),
            show (2 * m - 1) / 2 = m - 1 by omega, Nat.testBit_and]
      rw [hand, Nat.bitIndices_two_mul, Nat.bitIndices_two_mul, ih m (by omega) hm, List.map_tail]
    · have hand : 2 * m + 1 &&& 2 * m = 2 * m := by
        apply Nat.eq_of_testBit_eq
        intro i
        cases i with
        | zero => simp [Nat.testBit_zero]
        | succ i =>
          rw [Nat.testBit_and, Nat.testBit_succ, Nat.testBit_succ (2 * m),
            show (2 * m + 1) / 2 = m by omega, Nat.mul_div_cancel_left m (by decide), Bool.and_self]
      rw [Nat.add_sub_cancel]
      rw [hand, Nat.bitIndices_two_mul, Nat.bitIndices_two_mul_add_one, List.tail_cons]

/-- **The lowest index is left out.** -/
theorem indices_and_sub_one {x : BitVec w} (hx : x ≠ 0) :
    indices (x &&& (x - 1)) = (indices x).tail := by
  have hpos : x.toNat ≠ 0 := fun h => hx (BitVec.eq_of_toNat_eq h)
  have hsub : (x - 1).toNat = x.toNat - 1 := by
    have hlt := x.isLt
    have hone : (1 : BitVec w).toNat = 1 := by
      show (1#w).toNat = 1
      rw [BitVec.toNat_ofNat]
      exact Nat.mod_eq_of_lt (by omega)
    rw [BitVec.toNat_sub_of_le (by rw [BitVec.le_def, hone]; omega), hone]
  rw [indices, BitVec.toNat_and, hsub, bitIndices_and_sub_one hpos]
  rfl

/-- The first `m` of all indices are those below `m`. -/
theorem mem_take_finRange {n m : Nat} {i : Fin n} : i ∈ (List.finRange n).take m ↔ i.val < m := by
  rw [List.mem_take_iff_getElem]
  constructor
  · rintro ⟨j, hj, hget⟩
    rw [List.getElem_finRange] at hget
    rw [← hget]
    exact Nat.lt_of_lt_of_le hj (Nat.min_le_left _ _)
  · intro hi
    refine ⟨i.val, ?_, List.getElem_finRange _⟩
    rw [List.length_finRange]
    exact Nat.lt_min.mpr ⟨hi, i.isLt⟩

end Bits
end NxNic

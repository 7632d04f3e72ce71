import NxNic.Lib.Endian

/-! # The Internet checksum

The words of 16 bits of a header are added with the carries brought back, and the
complement of the sum is put into the header; what comes out over the whole header is
then zero (`valid_store_fold`).

`Valid` is what a receiver tests.  `fold` brings the carries back, and is zero only for a sum that
is (`fold_eq_zero_iff`); `wordSum_store` says what a store into one word does to the sum.
-/
namespace NxNic
namespace Checksum
open Words

section
variable {m : Bytes} {a b : Nat} {x : BitVec 16} (e : Endian)

theorem load_store : e.load 16 (e.store m a x) a = x := by
  rw [Endian.load_eq (by decide), Endian.store_eq, Words.load_store (by decide),
    Endian.cpuToLe_cpuToLe (by decide)]

theorem load_store_of_ne (h : b + 2 ≤ a ∨ a + 2 ≤ b) :
    e.load 16 (e.store m a x) b = e.load 16 m b := by
  rw [Endian.load_eq (by decide), Endian.load_eq (by decide), Endian.store_eq,
    Words.load_store_of_ne h]

end

/-- The sum of `n` words. -/
def wordSum (e : Endian) (m : Bytes) (a : Nat) : Nat → Nat
  | 0 => 0
  | n + 1 => wordSum e m a n + (e.load 16 m (a + 2 * n)).toNat

/-- `csum_fold`: the carries are added twice, and the sum is complemented. -/
def fold (s : Nat) : BitVec 16 :=
  let s := s % 65536 + s / 65536
  let s := s % 65536 + s / 65536
  ~~~BitVec.ofNat 16 s

/-- What a receiver computes over the whole header is zero. -/
def Valid (e : Endian) (m : Bytes) (a n : Nat) : Prop := fold (wordSum e m a n) = 0

/-- The sum with its carries. -/
theorem toNat_fold {s : Nat} (hs : s < 2 ^ 32) :
    ∃ r, (fold s).toNat = 65535 - r ∧ r ≤ 65535 ∧ r % 65535 = s % 65535 ∧ (r = 0 ↔ s = 0) := by
  refine ⟨(s % 65536 + s / 65536) % 65536 + (s % 65536 + s / 65536) / 65536, ?_, ?_, ?_, ?_⟩
  · rw [fold, BitVec.toNat_not, BitVec.toNat_ofNat, Nat.mod_eq_of_lt (by omega)]
  · omega
  · omega
  · omega

theorem fold_eq_zero_iff {s : Nat} (hs : s < 2 ^ 32) : fold s = 0 ↔ 0 < s ∧ s % 65535 = 0 := by
  obtain ⟨r, hfold, hle, hmod, hzero⟩ := toNat_fold hs
  have hnat : fold s = 0 ↔ (fold s).toNat = 0 := by
    rw [← BitVec.toNat_inj]
    rfl
  rw [hnat, hfold]
  omega

theorem wordSum_le (e : Endian) (m : Bytes) (a n : Nat) : wordSum e m a n ≤ 65535 * n := by
  induction n with
  | zero => exact Nat.le_refl 0
  | succ n ih =>
    have hword := (e.load 16 m (a + 2 * n)).isLt
    rw [wordSum]
    omega

theorem wordSum_congr {e : Endian} {m m' : Bytes} {a n : Nat}
    (h : ∀ i, i < n → e.load 16 m (a + 2 * i) = e.load 16 m' (a + 2 * i)) :
    wordSum e m a n = wordSum e m' a n := by
  induction n with
  | zero => rfl
  | succ n ih =>
    rw [wordSum, wordSum, ih fun i hi => h i (Nat.lt_succ_of_lt hi), h n (Nat.lt_succ_self n)]

/-- A word of the header that is stored over. -/
theorem wordSum_store (e : Endian) (m : Bytes) (a : Nat) {n j : Nat} (hj : j < n) (x : BitVec 16) :
    wordSum e (e.store m (a + 2 * j) x) a n =
      wordSum e (e.store m (a + 2 * j) 0#16) a n + x.toNat := by
  induction n with
  | zero => exact absurd hj (Nat.not_lt_zero j)
  | succ n ih =>
    rw [wordSum, wordSum]
    by_cases hlast : j = n
    · subst hlast
      have hrest : wordSum e (e.store m (a + 2 * j) x) a j =
          wordSum e (e.store m (a + 2 * j) 0#16) a j := by
        refine wordSum_congr fun i hi => ?_
        rw [load_store_of_ne e (by omega),
          load_store_of_ne e (by omega)]
      rw [hrest, load_store, load_store]
      rfl
    · rw [ih (by omega), load_store_of_ne e (by omega),
        load_store_of_ne e (by omega)]
      exact Nat.add_right_comm _ _ _

/-- **The checksum that is put in** makes the header valid, whatever was there. -/
theorem valid_store_fold (e : Endian) (m : Bytes) (a : Nat) {n j : Nat} (hj : j < n)
    (hn : n ≤ 65536) :
    Valid e (e.store m (a + 2 * j) (fold (wordSum e (e.store m (a + 2 * j) 0#16) a n))) a n := by
  have hle := wordSum_le e (e.store m (a + 2 * j) 0#16) a n
  obtain ⟨r, hfold, hr, hmod, hzero⟩ :=
    toNat_fold (s := wordSum e (e.store m (a + 2 * j) 0#16) a n) (by omega)
  have hle' := wordSum_le e
    (e.store m (a + 2 * j) (fold (wordSum e (e.store m (a + 2 * j) 0#16) a n))) a n
  rw [Valid, fold_eq_zero_iff (by omega), wordSum_store e m a hj, hfold]
  omega

end Checksum
end NxNic

import Mathlib.Data.BitVec
import Mathlib.Logic.Function.Basic

/-! # Words and their bytes

The bytes of a word, the lowest first, and words in a memory of bytes.  The
operations that programs build words with (shifts by whole bytes, masks, bitwise
and, or) are given byte by byte, and a word is the word of its bytes
(`Words.ext`).  Fields of a number that are cut out by masks are given by division
(`Words.and_field`).
-/
namespace NxNic

/-- A memory of bytes. -/
abbrev Bytes := Nat → BitVec 8

namespace Words
variable {w : Nat}

/-- Byte `i` of a word. -/
def byte (x : BitVec w) (i : Nat) : BitVec 8 := x.extractLsb' (8 * i) 8

/-- The word of the first `n` bytes. -/
def ofBytes (w : Nat) (b : Bytes) : Nat → BitVec w
  | 0 => 0#w
  | n + 1 => ofBytes w b n ||| (b n).setWidth w <<< (8 * n)

/-- The mask of the first `n` bytes. -/
def low (w n : Nat) : BitVec w := ~~~(BitVec.allOnes w <<< (8 * n))

/-- The word of `n` bytes at `a`. -/
def load (w : Nat) (m : Bytes) (a n : Nat) : BitVec w := ofBytes w (fun i => m (a + i)) n

/-- The first `n` bytes of a word are put at `a`. -/
def store (m : Bytes) (a n : Nat) (x : BitVec w) : Bytes := fun k =>
  if a ≤ k ∧ k < a + n then byte x (k - a) else m k

/-- `n` bytes are copied to `a`. -/
def copy (m : Bytes) (a n : Nat) (src : Bytes) : Bytes := fun k =>
  if a ≤ k ∧ k < a + n then src (k - a) else m k

theorem copy_of_mem {m src : Bytes} {a n k : Nat} (hle : a ≤ k) (hlt : k < a + n) :
    copy m a n src k = src (k - a) := if_pos ⟨hle, hlt⟩

theorem copy_of_not_mem {m src : Bytes} {a n k : Nat} (h : k < a ∨ a + n ≤ k) :
    copy m a n src k = m k := if_neg (by omega)

/-- Two copies one after the other are one, of what both have. -/
theorem copy_copy {m src : Bytes} {a n k : Nat} {src' : Bytes}
    (h : ∀ i, i < k → src' i = src (n + i)) :
    copy (copy m a n src) (a + n) k src' = copy m a (n + k) src := by
  funext i
  by_cases hup : a + n ≤ i ∧ i < a + n + k
  · have hsrc : n + (i - (a + n)) = i - a := by omega
    rw [copy_of_mem hup.1 hup.2, copy_of_mem (by omega) (by omega), h _ (by omega), hsrc]
  · rw [copy_of_not_mem (by omega), copy, copy]
    exact if_congr (by omega) rfl rfl

@[simp] theorem copy_zero {m src : Bytes} {a : Nat} : copy m a 0 src = m := by
  funext i
  exact copy_of_not_mem (by omega)

/-- `n` bytes are moved from `b` to `a`; the two ranges may overlap. -/
def move (m : Bytes) (a b n : Nat) : Bytes := copy m a n fun i => m (b + i)

/-- **A move up in two parts**, the upper one first: nothing of the lower part has been
overwritten when it is moved. -/
theorem move_move {m : Bytes} {a b n k : Nat} (h : b ≤ a) :
    move (move m (a + n) (b + n) k) a b n = move m a b (n + k) := by
  funext i
  by_cases hin : a ≤ i ∧ i < a + n
  · have hlow : b + (i - a) < a + n := by omega
    rw [move, copy_of_mem hin.1 hin.2, move, copy_of_not_mem (.inl hlow), move,
      copy_of_mem hin.1 (by omega)]
  · rw [move, copy_of_not_mem (by omega), move, move]
    by_cases hup : a + n ≤ i ∧ i < a + n + k
    · have hsrc : b + n + (i - (a + n)) = b + (i - a) := by omega
      rw [copy_of_mem hup.1 hup.2, copy_of_mem (by omega) (by omega), hsrc]
    · rw [copy_of_not_mem (by omega), copy_of_not_mem (by omega)]

theorem getLsbD_byte (x : BitVec w) (i k : Nat) :
    (byte x i).getLsbD k = (decide (k < 8) && x.getLsbD (8 * i + k)) :=
  BitVec.getLsbD_extractLsb' ..

/-- Two bytes are the same if their bits are. -/
theorem byte_ext {b c : BitVec 8} (h : ∀ k, k < 8 → b.getLsbD k = c.getLsbD k) : b = c :=
  BitVec.eq_of_getLsbD_eq fun k hk => h k hk

/-- **A word is its bytes.** -/
theorem ext {x y : BitVec w} (h : ∀ i, 8 * i < w → byte x i = byte y i) : x = y := by
  refine BitVec.eq_of_getLsbD_eq fun i hi => ?_
  have hbit := congrArg (fun b => b.getLsbD (i % 8)) (h (i / 8) (by omega))
  simp only [getLsbD_byte, Nat.mod_lt i (by decide : 0 < 8), decide_true, Bool.true_and] at hbit
  rwa [Nat.div_add_mod] at hbit

/-! ## Bytes of an operation's result -/

@[simp] theorem byte_zero (i : Nat) : byte 0#w i = 0#8 := by
  refine byte_ext fun k hk => ?_
  rw [getLsbD_byte, BitVec.getLsbD_zero, Bool.and_false, BitVec.getLsbD_zero]

@[simp] theorem byte_or (x y : BitVec w) (i : Nat) : byte (x ||| y) i = byte x i ||| byte y i := by
  refine byte_ext fun k hk => ?_
  simp only [getLsbD_byte, BitVec.getLsbD_or, Bool.and_or_distrib_left]

@[simp] theorem byte_and (x y : BitVec w) (i : Nat) : byte (x &&& y) i = byte x i &&& byte y i := by
  refine byte_ext fun k hk => ?_
  simp only [getLsbD_byte, BitVec.getLsbD_and, decide_eq_true hk, Bool.true_and]

theorem byte_not (x : BitVec w) {i : Nat} (hi : 8 * i + 8 ≤ w) : byte (~~~x) i = ~~~byte x i := by
  refine byte_ext fun k hk => ?_
  have hlt : 8 * i + k < w := by omega
  simp only [getLsbD_byte, BitVec.getLsbD_not, decide_eq_true hk, decide_eq_true hlt,
    Bool.true_and]

theorem byte_shiftLeft (x : BitVec w) (n : Nat) {i : Nat} (hi : 8 * i + 8 ≤ w) :
    byte (x <<< (8 * n)) i = if i < n then 0#8 else byte x (i - n) := by
  refine byte_ext fun k hk => ?_
  have hlt : 8 * i + k < w := by omega
  rw [getLsbD_byte, BitVec.getLsbD_shiftLeft, decide_eq_true hk, decide_eq_true hlt]
  split
  · rw [decide_eq_true (by omega : 8 * i + k < 8 * n), BitVec.getLsbD_zero]
    rfl
  · have heq : 8 * i + k - 8 * n = 8 * (i - n) + k := by omega
    rw [decide_eq_false (by omega : ¬ 8 * i + k < 8 * n), heq, getLsbD_byte, decide_eq_true hk]
    rfl

@[simp] theorem byte_shiftRight (x : BitVec w) (n i : Nat) :
    byte (x >>> (8 * n)) i = byte x (n + i) := by
  refine byte_ext fun k hk => ?_
  have heq : 8 * n + (8 * i + k) = 8 * (n + i) + k := by omega
  rw [getLsbD_byte, getLsbD_byte, BitVec.getLsbD_ushiftRight, heq]

/-- A change of the width keeps the bytes that both words have. -/
theorem byte_setWidth {v : Nat} (x : BitVec w) {i : Nat} (hi : 8 * i + 8 ≤ v) :
    byte (x.setWidth v) i = byte x i := by
  refine byte_ext fun k hk => ?_
  have hlt : 8 * i + k < v := by omega
  rw [getLsbD_byte, getLsbD_byte, BitVec.getLsbD_setWidth, decide_eq_true hlt, Bool.true_and]

theorem byte_of_le (x : BitVec w) {i : Nat} (hi : w ≤ 8 * i) : byte x i = 0#8 := by
  refine byte_ext fun k hk => ?_
  rw [getLsbD_byte, BitVec.getLsbD_of_ge x (8 * i + k) (by omega), Bool.and_false,
    BitVec.getLsbD_zero]

@[simp] theorem byte_self (b : BitVec 8) : byte b 0 = b := by
  refine byte_ext fun k hk => ?_
  rw [getLsbD_byte, decide_eq_true hk, Bool.true_and, Nat.mul_zero, Nat.zero_add]

theorem byte_low (n : Nat) {i : Nat} (hi : 8 * i + 8 ≤ w) :
    byte (low w n) i = if i < n then BitVec.allOnes 8 else 0#8 := by
  rw [low, byte_not _ hi, byte_shiftLeft _ _ hi]
  split
  · exact BitVec.not_zero
  · refine byte_ext fun k hk => ?_
    have hlt : 8 * (i - n) + k < w := by omega
    rw [BitVec.getLsbD_not, getLsbD_byte, BitVec.getLsbD_allOnes, decide_eq_true hk,
      decide_eq_true hlt, BitVec.getLsbD_zero]
    rfl

/-- A word of bytes has these bytes. -/
theorem byte_ofBytes (b : Bytes) (n : Nat) {i : Nat} (hi : 8 * i + 8 ≤ w) :
    byte (ofBytes w b n) i = if i < n then b i else 0#8 := by
  induction n with
  | zero => rw [ofBytes, byte_zero, if_neg (Nat.not_lt_zero i)]
  | succ n ih =>
    rw [ofBytes, byte_or, ih, byte_shiftLeft _ _ hi]
    rcases Nat.lt_trichotomy i n with hlt | rfl | hgt
    · rw [if_pos hlt, if_pos hlt, if_pos (by omega), BitVec.or_zero]
    · rw [if_neg (by omega), if_neg (by omega), if_pos (by omega), Nat.sub_self,
        byte_setWidth _ (by omega), byte_self, BitVec.zero_or]
    · rw [if_neg (by omega), if_neg (by omega), if_neg (by omega), byte_setWidth _ (by omega),
        byte_of_le _ (by omega), BitVec.zero_or]

theorem byte_load (m : Bytes) (a n : Nat) {i : Nat} (hi : 8 * i + 8 ≤ w) :
    byte (load w m a n) i = if i < n then m (a + i) else 0#8 := byte_ofBytes _ _ hi

/-- A word that is stored keeps its bytes. -/
theorem store_apply (m : Bytes) (a n k : Nat) (x : BitVec w) :
    store m a n x k = if a ≤ k ∧ k < a + n then byte x (k - a) else m k := rfl

/-! ## Fields of a number -/

/-- A mask of `k` bits from bit `j` on. -/
theorem and_field (n j k : Nat) : n &&& 2 ^ j * (2 ^ k - 1) = 2 ^ j * (n / 2 ^ j % 2 ^ k) := by
  refine Nat.eq_of_testBit_eq fun i => ?_
  rw [Nat.testBit_and, Nat.testBit_two_pow_mul, Nat.testBit_two_pow_mul,
    Nat.testBit_two_pow_sub_one, Nat.testBit_mod_two_pow, Nat.testBit_div_two_pow]
  by_cases hi : j ≤ i
  · rw [decide_eq_true hi, Nat.sub_add_cancel hi, Bool.true_and, Bool.true_and, Bool.and_comm]
  · rw [decide_eq_false hi, Bool.false_and, Bool.and_false, Bool.false_and]

/-- Fields that do not overlap are added. -/
theorem or_field {a b j : Nat} (hb : b < 2 ^ j) : 2 ^ j * a ||| b = 2 ^ j * a + b :=
  (Nat.two_pow_add_eq_or_of_lt hb a).symm

end Words
end NxNic

import NxNic.Lib.Words

/-! # The order of bytes of a host

A host keeps a word in memory with its lowest byte first or with its highest byte first.
Programs convert words to the first order, or from it, by `cpuToLe`: what is stored after one
conversion is the same on both (`Endian.store_cpuToLe`).  Records of one size that are put one
after the other stay apart (`Words.fill_spec`).
-/
namespace NxNic

/-- Which byte of a word comes first in memory. -/
inductive Endian where
  | little
  | big
deriving DecidableEq

namespace Words
variable {w v : Nat} {m m' : Bytes}

theorem load_congr {a n : Nat} (h : ∀ k, a ≤ k → k < a + n → m k = m' k) :
    load w m a n = load w m' a n := by
  induction n with
  | zero => rfl
  | succ n ih =>
    have hlast : m (a + n) = m' (a + n) := h (a + n) (by omega) (by omega)
    have hrest : load w m a n = load w m' a n := ih fun k hk hlt => h k hk (by omega)
    rw [load, load] at hrest ⊢
    rw [ofBytes, ofBytes, hrest, hlast]

theorem load_store {a n : Nat} {x : BitVec w} (hw : w = 8 * n) :
    load w (store m a n x) a n = x := by
  refine ext fun i hi => ?_
  rw [byte_load _ _ _ (by omega), if_pos (by omega), store_apply, if_pos (by omega),
    Nat.add_sub_cancel_left]

theorem load_store_of_ne {a b n k : Nat} {x : BitVec v} (h : b + k ≤ a ∨ a + n ≤ b) :
    load w (store m a n x) b k = load w m b k :=
  load_congr fun i hi hlt => by rw [store_apply, if_neg (by omega)]

/-- A word with no bytes but zeros. -/
theorem load_zeros {a n : Nat} (h : ∀ k, a ≤ k → k < a + n → m k = 0) : load w m a n = 0 := by
  induction n with
  | zero => rfl
  | succ n ih =>
    have hrest : load w m a n = 0 := ih fun k hk hlt => h k hk (by omega)
    rw [load] at hrest ⊢
    rw [ofBytes, hrest, h (a + n) (by omega) (by omega)]
    exact (BitVec.zero_or).trans (by simp)

/-! ## Records one after the other -/

/-- The memory is changed within `n` bytes from `a` on only. -/
def Frames (f : Bytes → Bytes) (a n : Nat) : Prop :=
  ∀ m k, ¬(a ≤ k ∧ k < a + n) → f m k = m k

/-- `n` records, each put by its own number. -/
def fill (f : Nat → Bytes → Bytes) : Nat → Bytes → Bytes
  | 0, m => m
  | n + 1, m => f n (fill f n m)

section
variable {f : Nat → Bytes → Bytes} {p s n : Nat}

theorem frames_fill (hf : ∀ i, Frames (f i) (p + s * i) s) : Frames (fill f n) p (s * n) := by
  induction n with
  | zero => exact fun _ _ _ => rfl
  | succ n ih =>
    intro m k hk
    rw [Nat.mul_succ] at hk
    rw [fill, hf n _ k (by omega), ih m k (by omega)]

/-- **Records** have what each of them has when it is put, if that is about the bytes of the
record only. -/
theorem fill_spec {Q : Nat → Bytes → Prop} (hf : ∀ i, Frames (f i) (p + s * i) s)
    (hlocal : ∀ i m m', (∀ k, p + s * i ≤ k → k < p + s * i + s → m k = m' k) → Q i m → Q i m')
    (hput : ∀ i m, Q i (f i m)) (m : Bytes) {i : Nat} (hi : i < n) : Q i (fill f n m) := by
  induction n with
  | zero => exact absurd hi (Nat.not_lt_zero i)
  | succ n ih =>
    rw [fill]
    rcases Nat.lt_succ_iff_lt_or_eq.mp hi with hlt | rfl
    · refine hlocal i _ _ (fun k hk hend => ?_) (ih hlt)
      have hle : s * i + s ≤ s * n := by
        rw [← Nat.mul_succ]
        exact Nat.mul_le_mul_left s hlt
      exact (hf n _ k (by omega)).symm
    · exact hput i _

end

end Words

namespace Endian
variable {w : Nat} {m : Bytes} {a : Nat} {x : BitVec w}
open Words

/-- A word with its bytes in the opposite order. -/
def swap (x : BitVec w) : BitVec w := ofBytes w (fun i => byte x (w / 8 - 1 - i)) (w / 8)

/-- `cpu_to_le16`, `cpu_to_le32`, `cpu_to_le64`, which are `le16_to_cpu` and so on as well. -/
def cpuToLe : Endian → BitVec w → BitVec w
  | .little, x => x
  | .big, x => swap x

/-- The host stores a word. -/
def store : Endian → Bytes → Nat → BitVec w → Bytes
  | .little, m, a, x => Words.store m a (w / 8) x
  | .big, m, a, x => fun k =>
    if a ≤ k ∧ k < a + w / 8 then byte x (w / 8 - 1 - (k - a)) else m k

/-- The host loads a word. -/
def load (w : Nat) : Endian → Bytes → Nat → BitVec w
  | .little, m, a => Words.load w m a (w / 8)
  | .big, m, a => ofBytes w (fun i => m (a + (w / 8 - 1 - i))) (w / 8)

theorem byte_swap (x : BitVec w) {i : Nat} (hi : i < w / 8) :
    byte (swap x) i = byte x (w / 8 - 1 - i) := by
  rw [swap, byte_ofBytes _ _ (by omega), if_pos hi]

theorem swap_swap (hw : 8 ∣ w) (x : BitVec w) : swap (swap x) = x := by
  refine ext fun i hi => ?_
  rw [byte_swap _ (by omega), byte_swap _ (by omega)]
  congr 1
  omega

theorem cpuToLe_cpuToLe (hw : 8 ∣ w) (e : Endian) (x : BitVec w) :
    e.cpuToLe (e.cpuToLe x) = x := by
  cases e with
  | little => rfl
  | big => exact swap_swap hw x

/-- The host stores what has the bytes in the one order after the conversion. -/
theorem store_eq (e : Endian) : e.store m a x = Words.store m a (w / 8) (e.cpuToLe x) := by
  cases e with
  | little => rfl
  | big =>
    funext k
    rw [store, store_apply, cpuToLe]
    refine if_ctx_congr Iff.rfl (fun hk => ?_) fun _ => rfl
    rw [byte_swap _ (by omega)]

/-- **What is stored after a conversion** is the same on all hosts. -/
theorem store_cpuToLe (hw : 8 ∣ w) (e : Endian) :
    e.store m a (e.cpuToLe x) = Words.store m a (w / 8) x := by
  rw [store_eq, cpuToLe_cpuToLe hw]

theorem load_eq (hw : 8 ∣ w) (e : Endian) :
    e.load w m a = e.cpuToLe (Words.load w m a (w / 8)) := by
  cases e with
  | little => rfl
  | big =>
    refine ext fun i hi => ?_
    rw [cpuToLe, byte_swap _ (by omega), byte_load _ _ _ (by omega), if_pos (by omega), load,
      byte_ofBytes _ _ (by omega), if_pos (by omega)]

/-- A word that is loaded and stored is moved, on every host. -/
theorem store_load (hw : 8 ∣ w) (e : Endian) {b : Nat} :
    e.store m a (e.load w m b) = move m a b (w / 8) := by
  rw [store_eq, load_eq hw, cpuToLe_cpuToLe hw]
  funext k
  rw [store_apply, move, copy]
  refine if_ctx_congr Iff.rfl (fun hk => ?_) fun _ => rfl
  rw [byte_load _ _ _ (by omega), if_pos (by omega)]

/-- `htons`, which is `ntohs` as well. -/
def htons : Endian → BitVec 16 → BitVec 16
  | .little, x => swap x
  | .big, x => x

theorem htons_htons (e : Endian) (x : BitVec 16) : e.htons (e.htons x) = x := by
  cases e with
  | little => exact swap_swap (by decide) x
  | big => rfl

theorem toNat_append (x y : BitVec 8) : (x ++ y : BitVec 16).toNat = 256 * x.toNat + y.toNat := by
  rw [BitVec.toNat_append, Nat.shiftLeft_eq, Nat.mul_comm, or_field y.isLt]
  rfl

theorem byte_append (x y : BitVec 8) {i : Nat} (hi : i < 2) :
    byte (x ++ y) i = if i = 0 then y else x := by
  refine byte_ext fun k hk => ?_
  rw [getLsbD_byte, BitVec.getLsbD_append, decide_eq_true hk, Bool.true_and]
  obtain rfl | rfl : i = 0 ∨ i = 1 := by omega
  · rw [if_pos (by omega), Nat.mul_zero, Nat.zero_add]
    rfl
  · rw [if_neg (by omega), Nat.mul_one, Nat.add_sub_cancel_left]
    rfl

/-- The number in the order of the network is that of its two bytes, on every host. -/
theorem htons_load (e : Endian) : e.htons (e.load 16 m a) = m a ++ m (a + 1) := by
  have hbig : swap (Words.load 16 m a 2) = m a ++ m (a + 1) := by
    refine ext fun i hi => ?_
    rw [byte_swap _ (by omega), byte_load _ _ _ (by omega), if_pos (by omega),
      byte_append _ _ (by omega)]
    obtain rfl | rfl : i = 0 ∨ i = 1 := by omega
    · rfl
    · rfl
  cases e with
  | little => exact hbig
  | big => exact (load_eq (by decide) .big).trans hbig

end Endian
end NxNic

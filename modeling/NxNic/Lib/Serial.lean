import Mathlib.Logic.Function.Basic
import Mathlib.Data.List.Basic
import Mathlib.Algebra.GroupWithZero.Nat

/-! # Management frames on a clocked line

Words go over the line bit by bit, the highest first (`msbFirst`), one bit at each
rising edge of the clock.  A management frame is 32 bits after a preamble of at
least 32 ones: a start of two bits, an opcode of two bits, a port and a device of
five bits each, a turnaround of two bits, and a word of sixteen bits, which the
host sends or, in a reading frame, the device answers with.

A `Device` is anything with registers of some kind; a `Station` puts it on the
line.  What a station makes of a whole frame is `clocks_frame` where the host
drives all of it, and `echoes_word` where the host lets go of the line for the
word.
-/
namespace NxNic
namespace Serial

/-! ## Words -/

/-- The low `n` bits of a word, the highest first. -/
def msbFirst (x : Nat) : Nat → List Bool
  | 0 => []
  | n + 1 => x.testBit n :: msbFirst x n

/-- The number that bits spell, the highest first. -/
def value : List Bool → Nat
  | [] => 0
  | b :: l => 2 ^ l.length * b.toNat + value l

@[simp] theorem msbFirst_zero (x : Nat) : msbFirst x 0 = [] := rfl

@[simp] theorem length_msbFirst (x n : Nat) : (msbFirst x n).length = n := by
  induction n with
  | zero => rfl
  | succ n ih => rw [msbFirst, List.length_cons, ih]

/-- The bits of a word spell it. -/
@[simp] theorem value_msbFirst (x n : Nat) : value (msbFirst x n) = x % 2 ^ n := by
  induction n with
  | zero => rw [msbFirst_zero, pow_zero, Nat.mod_one, value]
  | succ n ih =>
    rw [msbFirst, value, length_msbFirst, ih, Nat.mod_pow_succ, Nat.toNat_testBit, Nat.add_comm]

theorem value_lt (l : List Bool) : value l < 2 ^ l.length := by
  induction l with
  | nil => exact Nat.one_pos
  | cons b l ih =>
    rw [value, List.length_cons, Nat.pow_succ]
    cases b <;> simp only [Bool.toNat_false, Bool.toNat_true] <;> omega

/-! ## Frames -/

/-- What a frame says before its turnaround. -/
structure Header where
  start : Nat
  opcode : Nat
  port : Nat
  dev : Nat
deriving DecidableEq

structure Frame extends Header where
  turnaround : Nat
  word : Nat
deriving DecidableEq

/-- The header, from the bits after the preamble. -/
def Header.ofBits (l : List Bool) : Header where
  start := value (l.take 2)
  opcode := value ((l.drop 2).take 2)
  port := value ((l.drop 4).take 5)
  dev := value ((l.drop 9).take 5)

def Frame.ofBits (l : List Bool) : Frame where
  toHeader := .ofBits l
  turnaround := value ((l.drop 14).take 2)
  word := value (l.drop 16)

/-- The bits of a header. -/
def Header.bits (h : Header) : List Bool :=
  msbFirst h.start 2 ++ (msbFirst h.opcode 2 ++ (msbFirst h.port 5 ++ msbFirst h.dev 5))

/-- What there is of a header in its bits. -/
def Header.cut (h : Header) : Header where
  start := h.start % 4
  opcode := h.opcode % 4
  port := h.port % 32
  dev := h.dev % 32

@[simp] theorem Header.length_bits (h : Header) : h.bits.length = 14 := by
  simp [Header.bits]

/-- A header is read back from the bits that begin with its own. -/
theorem Header.ofBits_bits_append (h : Header) (l : List Bool) :
    Header.ofBits (h.bits ++ l) = h.cut := by
  simp [Header.ofBits, Header.bits, Header.cut, List.drop_append, List.drop_eq_nil_of_le]

/-- A frame is read back from its header, its turnaround and its word. -/
theorem Frame.ofBits_append (h : Header) {ta data : List Bool} (hta : ta.length = 2) :
    Frame.ofBits (h.bits ++ (ta ++ data)) = ⟨h.cut, value ta, value data⟩ := by
  rw [Frame.ofBits, h.ofBits_bits_append]
  simp [List.drop_append, List.drop_eq_nil_of_le, hta]

/-! ## Devices and stations -/

/-- What is at the far end of the line: the word it sends in a frame with this
header, if it sends one, and what a whole frame makes of it. -/
structure Device (ρ : Type) where
  answer : ρ → Header → Option Nat
  accept : ρ → Frame → ρ

/-- Where a station is: before a frame, with the ones it has seen in a row, or in
one, with its bits so far. -/
inductive Phase where
  | waiting (ones : Nat)
  | receiving (bits : List Bool)
deriving DecidableEq

structure Station (ρ : Type) where
  regs : ρ
  phase : Phase

variable {ρ : Type} (D : Device ρ)

/-- A rising edge of the clock, with this level on the line. -/
def Station.clock (s : Station ρ) (b : Bool) : Station ρ :=
  match s.phase with
  | .waiting ones =>
    if b then { s with phase := .waiting (ones + 1) }
    else if 32 ≤ ones then { s with phase := .receiving [false] }
    else { s with phase := .waiting 0 }
  | .receiving bits =>
    if bits.length < 31 then { s with phase := .receiving (bits ++ [b]) }
    else ⟨D.accept s.regs (Frame.ofBits (bits ++ [b])), .waiting 0⟩

/-- What the station puts on the line between two edges: the low half of the
turnaround and then the word it answers with, if it does. -/
def Station.drives (s : Station ρ) : Option Bool :=
  match s.phase with
  | .waiting _ => none
  | .receiving bits =>
    if bits.length < 15 then none
    else (D.answer s.regs (.ofBits bits)).map fun word =>
      decide (15 < bits.length) && word.testBit (31 - bits.length)

/-- The edges with these levels on the line. -/
def Station.clocks (s : Station ρ) (l : List Bool) : Station ρ := l.foldl (Station.clock D) s

/-- The station is before a frame. -/
def Station.AtRest (s : Station ρ) : Prop := ∃ ones, s.phase = .waiting ones

@[simp] theorem Station.clocks_nil (s : Station ρ) : s.clocks D [] = s := rfl

@[simp] theorem Station.clocks_cons (s : Station ρ) (b : Bool) (l : List Bool) :
    s.clocks D (b :: l) = (s.clock D b).clocks D l := rfl

theorem Station.clocks_append (s : Station ρ) (l₁ l₂ : List Bool) :
    s.clocks D (l₁ ++ l₂) = (s.clocks D l₁).clocks D l₂ := List.foldl_append

/-- Ones before a frame are counted. -/
theorem clocks_ones (regs : ρ) (ones n : Nat) :
    Station.clocks D ⟨regs, .waiting ones⟩ (List.replicate n true) =
      ⟨regs, .waiting (ones + n)⟩ := by
  induction n generalizing ones with
  | zero => rfl
  | succ n ih =>
    rw [List.replicate_succ, Station.clocks_cons]
    show Station.clocks D ⟨regs, .waiting (ones + 1)⟩ _ = _
    rw [ih, Nat.add_right_comm, Nat.add_assoc]

/-- Bits short of a whole frame are kept. -/
theorem clocks_bits (regs : ρ) (bits l : List Bool) (h : bits.length + l.length < 32) :
    Station.clocks D ⟨regs, .receiving bits⟩ l = ⟨regs, .receiving (bits ++ l)⟩ := by
  induction l generalizing bits with
  | nil => rw [List.append_nil, Station.clocks_nil]
  | cons b l ih =>
    rw [List.length_cons] at h
    have hshort : bits.length < 31 := by omega
    have hstep : Station.clock D ⟨regs, .receiving bits⟩ b = ⟨regs, .receiving (bits ++ [b])⟩ := by
      simp only [Station.clock, if_pos hshort]
    rw [Station.clocks_cons, hstep, ih (bits ++ [b]) (by simp; omega), List.append_assoc]
    rfl

/-- The last bits of a frame. -/
theorem clocks_rest (regs : ρ) (bits l : List Bool) (hne : l ≠ [])
    (h : bits.length + l.length = 32) :
    Station.clocks D ⟨regs, .receiving bits⟩ l =
      ⟨D.accept regs (Frame.ofBits (bits ++ l)), .waiting 0⟩ := by
  have hsplit : l = l.dropLast ++ [l.getLast hne] := (List.dropLast_append_getLast hne).symm
  have hlen : l.dropLast.length = l.length - 1 := List.length_dropLast
  have hpos : 0 < l.length := List.length_pos_iff.mpr hne
  have hlast : ¬ (bits ++ l.dropLast).length < 31 := by
    rw [List.length_append, hlen]
    omega
  rw [hsplit, Station.clocks_append, clocks_bits D regs bits _ (by omega), Station.clocks_cons,
    Station.clocks_nil, Station.clock]
  simp only [if_neg hlast, List.append_assoc]

/-- **A preamble and a header** with the start of a frame: the station has the
bits of the header, whatever it had seen before. -/
theorem clocks_header {s : Station ρ} (hs : s.AtRest) {h : Header} (hstart : h.start = 0) :
    s.clocks D (List.replicate 32 true ++ h.bits) = ⟨s.regs, .receiving h.bits⟩ := by
  obtain ⟨regs, phase⟩ := s
  obtain ⟨ones, rfl⟩ := hs
  have hbits : h.bits = false :: h.bits.tail := by
    simp [Header.bits, msbFirst, hstart]
  have hlen : h.bits.tail.length = 13 := by rw [List.length_tail, h.length_bits]
  have hlong : 32 ≤ ones + 32 := Nat.le_add_left 32 ones
  rw [Station.clocks_append, clocks_ones, hbits, Station.clocks_cons]
  have hfirst : Station.clock D ⟨regs, .waiting (ones + 32)⟩ false =
      ⟨regs, .receiving [false]⟩ := by
    simp only [Station.clock, if_pos hlong, Bool.false_eq_true, if_false]
  rw [hfirst, clocks_bits D regs [false] _ (by rw [hlen]; decide)]
  rfl

/-- **A whole frame of the host's** reaches the device as it was sent, and the
station waits for the next one. -/
theorem clocks_frame {s : Station ρ} (hs : s.AtRest) {h : Header} (hstart : h.start = 0)
    (ta word : Nat) :
    s.clocks D (List.replicate 32 true ++ (h.bits ++ (msbFirst ta 2 ++ msbFirst word 16))) =
      ⟨D.accept s.regs ⟨h.cut, ta % 4, word % 65536⟩, .waiting 0⟩ := by
  rw [← List.append_assoc, Station.clocks_append, clocks_header D hs hstart,
    clocks_rest D s.regs h.bits _ (by simp [msbFirst]) (by simp), Frame.ofBits_append h (by simp)]
  simp

/-! ## Reading -/

/-- `n` edges with the line let go: its levels are the station's, or `pull` where
nobody drives it. -/
def Station.echoes (pull : Bool) (s : Station ρ) : Nat → Station ρ × List Bool
  | 0 => (s, [])
  | n + 1 =>
    let b := (s.drives D).getD pull
    let r := (s.clock D b).echoes pull n
    (r.1, b :: r.2)

/-- The word on a line that is let go. -/
def Device.readWord (pull : Bool) (regs : ρ) (h : Header) : Nat :=
  (D.answer regs h).getD (if pull then 65535 else 0) % 65536

variable {D} {pull : Bool}

/-- The line has the bits of that word on it. -/
theorem drives_word {regs : ρ} {h : Header} {ta l : List Bool} {n : Nat} (hta : ta.length = 2)
    (hl : l.length + (n + 1) = 16) :
    (Station.drives D ⟨regs, .receiving (h.bits ++ (ta ++ l))⟩).getD pull =
      (D.readWord pull regs h.cut).testBit n := by
  have hlen : (h.bits ++ (ta ++ l)).length = 16 + l.length := by
    simp only [List.length_append, h.length_bits, hta]
    omega
  have hword : ¬ (16 + l.length < 15) := by omega
  have hlate : 15 < 16 + l.length := by omega
  have hbit : 31 - (16 + l.length) = n := by omega
  have hn : n < 16 := by omega
  have hmod : ∀ x : Nat, (x % 65536).testBit n = x.testBit n := by
    intro x
    rw [show 65536 = 2 ^ 16 from rfl, Nat.testBit_mod_two_pow, decide_eq_true hn, Bool.true_and]
  simp only [Station.drives, hlen, if_neg hword, h.ofBits_bits_append, hbit, hlate, decide_true,
    Bool.true_and, Device.readWord, hmod]
  cases D.answer regs h.cut with
  | some word => rfl
  | none =>
    cases pull with
    | false => exact (Nat.zero_testBit n).symm
    | true =>
      show true = (2 ^ 16 - 1).testBit n
      rw [Nat.testBit_two_pow_sub_one, decide_eq_true hn]

/-- What the station makes of an echo is what it makes of its bits. -/
theorem Station.echoes_fst (s : Station ρ) (n : Nat) :
    (s.echoes D pull n).1 = s.clocks D (s.echoes D pull n).2 := by
  induction n generalizing s with
  | zero => rfl
  | succ n ih => exact ih _

@[simp] theorem Station.length_echoes (s : Station ρ) (n : Nat) :
    (s.echoes D pull n).2.length = n := by
  induction n generalizing s with
  | zero => rfl
  | succ n ih => exact congrArg Nat.succ (ih _)

theorem echoes_bits {regs : ρ} {h : Header} {ta l : List Bool} {n : Nat} (hta : ta.length = 2)
    (hl : l.length + n = 16) :
    (Station.echoes D pull ⟨regs, .receiving (h.bits ++ (ta ++ l))⟩ n).2 =
      msbFirst (D.readWord pull regs h.cut) n := by
  induction n generalizing l with
  | zero => rfl
  | succ n ih =>
    rw [Station.echoes, drives_word hta hl, msbFirst]
    set b := (D.readWord pull regs h.cut).testBit n
    cases n with
    | zero => rfl
    | succ n =>
      have hshort : (h.bits ++ (ta ++ l)).length < 31 := by
        simp only [List.length_append, h.length_bits, hta]
        omega
      have hstep : Station.clock D ⟨regs, .receiving (h.bits ++ (ta ++ l))⟩ b =
          ⟨regs, .receiving (h.bits ++ (ta ++ (l ++ [b])))⟩ := by
        simp only [Station.clock, if_pos hshort, List.append_assoc]
      rw [hstep]
      exact congrArg _ (ih (l := l ++ [b]) (by simp; omega))

/-- **A reading frame**: with the line let go after the turnaround, its levels are
the word of the device, the highest bit first, and the device sees a whole frame. -/
theorem echoes_word {s : Station ρ} (hs : s.AtRest) {h : Header} (hstart : h.start = 0)
    (ta : Nat) :
    (s.clocks D (List.replicate 32 true ++ (h.bits ++ msbFirst ta 2))).echoes D pull 16 =
      (⟨D.accept s.regs ⟨h.cut, ta % 4, D.readWord pull s.regs h.cut⟩, .waiting 0⟩,
        msbFirst (D.readWord pull s.regs h.cut) 16) := by
  have hta : (msbFirst ta 2).length = 2 := length_msbFirst ta 2
  have hready : s.clocks D (List.replicate 32 true ++ (h.bits ++ msbFirst ta 2)) =
      ⟨s.regs, .receiving (h.bits ++ (msbFirst ta 2 ++ []))⟩ := by
    rw [← List.append_assoc, Station.clocks_append, clocks_header D hs hstart,
      clocks_bits D s.regs h.bits _ (by rw [h.length_bits, hta]; decide), List.append_nil]
  have hbits : (Station.echoes D pull
      ⟨s.regs, .receiving (h.bits ++ (msbFirst ta 2 ++ []))⟩ 16).2 =
        msbFirst (D.readWord pull s.regs h.cut) 16 := echoes_bits hta rfl
  have hword : D.readWord pull s.regs h.cut % 2 ^ 16 = D.readWord pull s.regs h.cut :=
    Nat.mod_eq_of_lt (Nat.mod_lt _ (by decide))
  rw [hready]
  refine Prod.ext ?_ hbits
  rw [Station.echoes_fst, hbits, List.append_nil,
    clocks_rest D s.regs _ _ (by simp [msbFirst]) (by simp), List.append_assoc,
    Frame.ofBits_append h hta, value_msbFirst, value_msbFirst, hword]
  rfl

end Serial
end NxNic

import NxNic.Lib.Serial
import Mathlib.Data.BitVec

/-! # The management port of the transceiver

The driver clocks the frames of the management port out of two GPIO lines, one for
the clock and one for the data, which are other lines on P3 than on P2.  Bit 1 of
a GPIO register is the output enable and bit 0 the level.

The board has a station at the far end of the data line, over an arbitrary device.
It takes a bit at each rising edge of the clock line, whichever write made it rise.
-/
namespace NxNic
namespace Phy
open Serial

/-! ## The board -/

/-- What the two lines are connected to: the device, and the level of a line that
nobody drives. -/
structure Wiring (ρ : Type) where
  revisionId : BitVec 8
  device : Device ρ
  pull : Bool

/-- The levels that the two sides drive the data line to at an edge of the clock. -/
structure Edge where
  host : Option Bool
  far : Option Bool

/-- The GPIO registers, the station, and the edges of the clock so far. -/
structure Board (ρ : Type) where
  gpio : Nat → BitVec 32
  station : Station ρ
  edges : List Edge

/-- `NX_IS_REVISION_P3` -/
def isRevisionP3 (revision : BitVec 8) : Prop := 0x30#8 ≤ revision

instance isRevisionP3Decidable (revision : BitVec 8) : Decidable (isRevisionP3 revision) :=
  inferInstanceAs (Decidable (_ ≤ _))

/-- The offset of a GPIO register in its block. -/
def romusbGpio (n : Nat) : Nat :=
  if n ≤ 15 then 0x60 + 4 * n else if n ≤ 18 then 0x70 + 4 * n else 0x70 + 4 * 19

def mdcGpio (revision : BitVec 8) : Nat := if isRevisionP3 revision then 16 else 7

def mdioGpio (revision : BitVec 8) : Nat := if isRevisionP3 revision then 17 else 8

/-- The two registers are not one. -/
theorem romusbGpio_ne (revision : BitVec 8) :
    romusbGpio (mdcGpio revision) ≠ romusbGpio (mdioGpio revision) := by
  rw [mdcGpio, mdioGpio]
  split <;> decide

namespace Board
variable {ρ : Type} (W : Wiring ρ) (b : Board ρ)

/-- The level the host drives a line to. -/
def driven (n : Nat) : Option Bool :=
  if (b.gpio (romusbGpio n)).getLsbD 1 then some ((b.gpio (romusbGpio n)).getLsbD 0) else none

/-- The level the far end drives a line to. -/
def far (n : Nat) : Option Bool :=
  if n = mdioGpio W.revisionId then b.station.drives W.device else none

def level (n : Nat) : Bool := (b.driven n).getD ((b.far W n).getD W.pull)

/-- A line that the driver has written to. -/
def write (n : Nat) (data : BitVec 32) : Board ρ :=
  { b with gpio := Function.update b.gpio (romusbGpio n) data }

/-- A rising edge of the clock line. -/
def edge : Board ρ where
  gpio := b.gpio
  station := b.station.clock W.device (b.level W (mdioGpio W.revisionId))
  edges := b.edges ++ [⟨b.driven (mdioGpio W.revisionId), b.far W (mdioGpio W.revisionId)⟩]

/-- `UNM_ROMUSB_GLB_PAD_GPIO_I`: the levels of the lines. -/
def padGpioI : BitVec 32 := (BitVec.ofBoolListLE ((List.range 32).map (b.level W))).setWidth 32

end Board

/-! ## The routines -/

/-- The routines work on the board. -/
abbrev Mdio (ρ : Type) := StateM (Board ρ)

section Routines
variable {ρ : Type} (W : Wiring ρ)

/-- `NXWR32` to a GPIO register. -/
def nxwr32Gpio (n : Nat) (data : BitVec 32) : Mdio ρ Unit :=
  modify fun b =>
    if b.level W (mdcGpio W.revisionId) = false ∧
        (b.write n data).level W (mdcGpio W.revisionId) = true then (b.write n data).edge W
    else b.write n data

def gpioOe : BitVec 32 := 2
def gpioLo : BitVec 32 := 0
def gpioHi : BitVec 32 := 1

def mdcLow : Mdio ρ Unit := nxwr32Gpio W (mdcGpio W.revisionId) (gpioOe ||| gpioLo)

def mdcHi : Mdio ρ Unit := nxwr32Gpio W (mdcGpio W.revisionId) (gpioOe ||| gpioHi)

def setMdio (bit : BitVec 64) : Mdio ρ Unit :=
  nxwr32Gpio W (mdioGpio W.revisionId) (gpioOe ||| bit.setWidth 32)

def getBit : Mdio ρ (BitVec 32) := do
  let b ← get
  return (b.padGpioI W >>> mdioGpio W.revisionId) &&& 1

/-- "The preamble is 32 clocks of high data": the loop, from its end. -/
def preambleClocks : Nat → Mdio ρ Unit
  | 0 => return
  | n + 1 => do
    mdcLow W
    setMdio W 1
    mdcHi W
    preambleClocks n

def preamble : Mdio ρ Unit := preambleClocks W 32

/-- After its first round, the loop does what it does for one bit less. -/
def clockInBits (data : BitVec 64) : Nat → Mdio ρ Unit
  | 0 => return
  | n + 1 => do
    mdcLow W
    setMdio W (data.sshiftRight n &&& 1)
    mdcHi W
    clockInBits data n

/-- The loop of `CLOCK_OUT_BITS`, with `n` bits left: the next one is bit `n - 1`. -/
def clockOutLoop (result : BitVec 64) : Nat → Mdio ρ (BitVec 64)
  | 0 => return result
  | n + 1 => do
    mdcLow W
    let bit ← getBit W
    mdcHi W
    clockOutLoop (result ||| (bit <<< n).signExtend 64) n

def clockOutBits : Mdio ρ (BitVec 64) := do
  nxwr32Gpio W (mdioGpio W.revisionId) 0
  clockOutLoop W 0 16

def opcodeAddr : BitVec 64 := 0
def opcodeWrite : BitVec 64 := 1
def opcodeRead : BitVec 64 := 3

/-- What the two cycles begin with: the preamble, `SOF`, `OPCODE`, `PORT_ADDRESS`,
`DEV_ADDRESS` and `TURNAROUND`. -/
def cycleStart (opcode port dev : BitVec 64) : Mdio ρ Unit := do
  preamble W
  clockInBits W 0 2
  clockInBits W opcode 2
  clockInBits W port 5
  clockInBits W dev 5
  clockInBits W 2 2

def mdioWrCycle (opcode port dev addrData : BitVec 64) : Mdio ρ Unit := do
  cycleStart W opcode port dev
  clockInBits W addrData 16

def mdioRdCycle (opcode port dev : BitVec 64) : Mdio ρ (BitVec 64) := do
  cycleStart W opcode port dev
  clockOutBits W

def unmXgeMdioWrPort (port devaddr addr data : BitVec 64) : Mdio ρ Unit := do
  mdioWrCycle W opcodeAddr port devaddr addr
  mdioWrCycle W opcodeWrite port devaddr data

def unmXgeMdioRdPort (port devaddr addr : BitVec 64) : Mdio ρ (BitVec 64) := do
  mdioWrCycle W opcodeAddr port devaddr addr
  mdioRdCycle W opcodeRead port devaddr

def unmXgeMdioWr (portnum : BitVec 16) (devaddr addr data : BitVec 64) : Mdio ρ Unit := do
  mdioWrCycle W opcodeAddr (portnum.setWidth 64) devaddr addr
  mdioWrCycle W opcodeWrite (portnum.setWidth 64) devaddr data

def unmXgeMdioRd (portnum : BitVec 16) (devaddr addr : BitVec 64) : Mdio ρ (BitVec 64) := do
  mdioWrCycle W opcodeAddr (portnum.setWidth 64) devaddr addr
  mdioRdCycle W opcodeRead (portnum.setWidth 64) devaddr

end Routines

/-! ## One line at a time -/

section Lines
variable {ρ : Type} (W : Wiring ρ) (b : Board ρ)

theorem Board.driven_write_self (n : Nat) (data : BitVec 32) :
    (b.write n data).driven n = if data.getLsbD 1 then some (data.getLsbD 0) else none := by
  simp [Board.driven, Board.write]

theorem Board.driven_write_of_ne {n m : Nat} (h : romusbGpio m ≠ romusbGpio n)
    (data : BitVec 32) : (b.write n data).driven m = b.driven m := by
  simp [Board.driven, Board.write, Function.update_of_ne h]

theorem Board.level_of_driven {n : Nat} {x : Bool} (h : b.driven n = some x) :
    b.level W n = x := by
  rw [Board.level, h, Option.getD_some]

theorem Board.far_mdio : b.far W (mdioGpio W.revisionId) = b.station.drives W.device := if_pos rfl

/-- The level of the data line where the host has let go of it. -/
theorem Board.level_mdio (h : b.driven (mdioGpio W.revisionId) = none) :
    b.level W (mdioGpio W.revisionId) = (b.station.drives W.device).getD W.pull := by
  rw [Board.level, h, Option.getD_none, b.far_mdio]

theorem nxwr32Gpio_run (n : Nat) (data : BitVec 32) :
    nxwr32Gpio W n data b =
      ((), if b.level W (mdcGpio W.revisionId) = false ∧
          (b.write n data).level W (mdcGpio W.revisionId) = true then (b.write n data).edge W
        else b.write n data) := rfl

/-- The clock line goes low: no edge, whatever it was before. -/
theorem mdcLow_run : mdcLow W b = ((), b.write (mdcGpio W.revisionId) (gpioOe ||| gpioLo)) := by
  have hlow : (b.write (mdcGpio W.revisionId) (gpioOe ||| gpioLo)).level W
      (mdcGpio W.revisionId) = false := by
    rw [Board.level_of_driven W _ (b.driven_write_self _ _)]
    rfl
  rw [mdcLow, nxwr32Gpio_run, hlow, if_neg]
  simp

/-- A write to the data line does not move the clock line. -/
theorem mdio_run (data : BitVec 32) :
    nxwr32Gpio W (mdioGpio W.revisionId) data b =
      ((), b.write (mdioGpio W.revisionId) data) := by
  have hsame : (b.write (mdioGpio W.revisionId) data).level W (mdcGpio W.revisionId) =
      b.level W (mdcGpio W.revisionId) := by
    rw [Board.level, Board.level, b.driven_write_of_ne (romusbGpio_ne W.revisionId)]
    rfl
  rw [nxwr32Gpio_run, hsame, if_neg]
  rintro ⟨hlow, hhigh⟩
  exact Bool.false_ne_true (hlow.symm.trans hhigh)

/-- The clock line goes high after it was low: an edge. -/
theorem mdcHi_run (h : b.driven (mdcGpio W.revisionId) = some false) :
    mdcHi W b = ((), (b.write (mdcGpio W.revisionId) (gpioOe ||| gpioHi)).edge W) := by
  have hhigh : (b.write (mdcGpio W.revisionId) (gpioOe ||| gpioHi)).level W
      (mdcGpio W.revisionId) = true := by
    rw [Board.level_of_driven W _ (b.driven_write_self _ _)]
    rfl
  rw [mdcHi, nxwr32Gpio_run, if_pos ⟨b.level_of_driven W h, hhigh⟩]

end Lines

/-- One routine after another. -/
theorem bind_run {ρ α β : Type} (m : Mdio ρ α) (f : α → Mdio ρ β) (b : Board ρ) :
    (m >>= f) b = f (m b).1 (m b).2 := rfl

theorem pure_run {ρ α : Type} (a : α) (b : Board ρ) : (pure a : Mdio ρ α) b = (a, b) := rfl

/-! ## Bits that are sent -/

section Sent
variable {ρ : Type} (W : Wiring ρ)

/-- The edges at which the host drives the line to these levels. -/
def hostEdges (s : Station ρ) : List Bool → List Edge
  | [] => []
  | x :: l => ⟨some x, s.drives W.device⟩ :: hostEdges (s.clock W.device x) l

theorem hostEdges_append (s : Station ρ) (l₁ l₂ : List Bool) :
    hostEdges W s (l₁ ++ l₂) = hostEdges W s l₁ ++ hostEdges W (s.clocks W.device l₁) l₂ := by
  induction l₁ generalizing s with
  | nil => rfl
  | cons x l ih => exact congrArg _ (ih _)

/-- The routine clocks these bits out, wherever the lines stand before it. -/
def Sends (m : Mdio ρ Unit) (l : List Bool) : Prop :=
  ∀ b, ∃ gpio, m b = ((), ⟨gpio, b.station.clocks W.device l, b.edges ++ hostEdges W b.station l⟩)

theorem sends_nil : Sends W (return) [] := by
  intro b
  exact ⟨b.gpio, by rw [hostEdges, List.append_nil]; rfl⟩

variable {W}

theorem Sends.bind {m m' : Mdio ρ Unit} {l l' : List Bool} (h : Sends W m l)
    (h' : Sends W m' l') : Sends W (do m; m') (l ++ l') := by
  intro b
  obtain ⟨gpio, hm⟩ := h b
  obtain ⟨gpio', hm'⟩ := h' ⟨gpio, b.station.clocks W.device l, b.edges ++ hostEdges W b.station l⟩
  refine ⟨gpio', ?_⟩
  rw [bind_run, hm, hm', Station.clocks_append, hostEdges_append, List.append_assoc]

variable (W)

/-- **One round of the loops**: data changes while the clock is low, and the edge
that follows is the only one. -/
theorem sends_bit (bit : BitVec 64) :
    Sends W (do mdcLow W; setMdio W bit; mdcHi W) [bit.getLsbD 0] := by
  intro b
  have hne := romusbGpio_ne W.revisionId
  set b₁ := b.write (mdcGpio W.revisionId) (gpioOe ||| gpioLo) with hb₁
  set b₂ := b₁.write (mdioGpio W.revisionId) (gpioOe ||| bit.setWidth 32) with hb₂
  have hlow : b₂.driven (mdcGpio W.revisionId) = some false := by
    rw [hb₂, b₁.driven_write_of_ne hne, hb₁, b.driven_write_self]
    rfl
  have hdata : (b₂.write (mdcGpio W.revisionId) (gpioOe ||| gpioHi)).driven
      (mdioGpio W.revisionId) = some (bit.getLsbD 0) := by
    rw [b₂.driven_write_of_ne hne.symm, hb₂, b₁.driven_write_self]
    simp [gpioOe]
  refine ⟨(b₂.write (mdcGpio W.revisionId) (gpioOe ||| gpioHi)).gpio, ?_⟩
  rw [bind_run, bind_run, mdcLow_run, setMdio, mdio_run, mdcHi_run W b₂ hlow, Board.edge,
    Board.level_of_driven W _ hdata, hdata, Board.far_mdio]
  rfl

theorem sends_preambleClocks (n : Nat) : Sends W (preambleClocks W n) (List.replicate n true) := by
  induction n with
  | zero => exact sends_nil W
  | succ n ih => exact (sends_bit W 1).bind ih

theorem getLsbD_sshiftRight_and_one (data : BitVec 64) {n : Nat} (hn : n < 64) :
    (data.sshiftRight n &&& 1).getLsbD 0 = data.toNat.testBit n := by
  rw [BitVec.getLsbD_and, BitVec.getLsbD_sshiftRight]
  simp [hn, BitVec.testBit_toNat]

/-- `CLOCK_IN_BITS` sends the low bits of its argument, the highest first. -/
theorem sends_clockInBits (data : BitVec 64) {n : Nat} (hn : n ≤ 64) :
    Sends W (clockInBits W data n) (msbFirst data.toNat n) := by
  induction n with
  | zero => exact sends_nil W
  | succ n ih =>
    have hbit := sends_bit W (data.sshiftRight n &&& 1)
    rw [getLsbD_sshiftRight_and_one data (Nat.lt_of_succ_le hn)] at hbit
    exact hbit.bind (ih (Nat.le_of_succ_le hn))

end Sent

/-! ## Bits that are read -/

section Read
variable {ρ : Type} (W : Wiring ρ)

/-- The edges at which the host has let go of the line. -/
def echoEdges (s : Station ρ) : Nat → List Edge
  | 0 => []
  | n + 1 =>
    ⟨none, s.drives W.device⟩ ::
      echoEdges (s.clock W.device ((s.drives W.device).getD W.pull)) n

theorem mdioGpio_lt (revision : BitVec 8) : mdioGpio revision < 32 := by
  rw [mdioGpio]
  split <;> decide

theorem getLsbD_padGpioI (b : Board ρ) {n : Nat} (hn : n < 32) :
    (b.padGpioI W).getLsbD n = b.level W n := by
  rw [Board.padGpioI, BitVec.getLsbD_setWidth, BitVec.getLsbD_ofBoolListLE]
  simp [hn, List.getD]

/-- `GET_BIT` is the level of the data line. -/
theorem getBit_run (b : Board ρ) :
    getBit W b = (BitVec.setWidth 32 (BitVec.ofBool (b.level W (mdioGpio W.revisionId))), b) := by
  have hlevel := getLsbD_padGpioI W b (mdioGpio_lt W.revisionId)
  have hbit : (b.padGpioI W >>> mdioGpio W.revisionId) &&& 1 =
      BitVec.setWidth 32 (BitVec.ofBool (b.level W (mdioGpio W.revisionId))) := by
    apply BitVec.eq_of_getLsbD_eq
    intro i hi
    rw [BitVec.getLsbD_and, BitVec.getLsbD_ushiftRight]
    cases i with
    | zero => simp [hlevel]
    | succ i => simp [BitVec.getLsbD_one]
  exact congrArg (·, b) hbit

theorem signExtend_bit (x : Bool) {n : Nat} (hn : n < 16) :
    ((BitVec.ofBool x).setWidth 32 <<< n).signExtend 64 = BitVec.ofNat 64 (2 ^ n * x.toNat) := by
  revert n
  cases x <;> decide

/-- A bit and the ones after it. -/
theorem bit_or_value (x : Bool) {l : List Bool} (hl : l.length < 16) :
    ((BitVec.ofBool x).setWidth 32 <<< l.length).signExtend 64 ||| BitVec.ofNat 64 (value l) =
      BitVec.ofNat 64 (value (x :: l)) := by
  rw [signExtend_bit x hl, ← BitVec.ofNat_or, value, Nat.two_pow_add_eq_or_of_lt (value_lt l)]

/-- The loop of `CLOCK_OUT_BITS` collects the levels of a line that is let go. -/
theorem clockOutLoop_run {n : Nat} (hn : n ≤ 16) (b : Board ρ) (result : BitVec 64)
    (hfree : b.driven (mdioGpio W.revisionId) = none) :
    ∃ gpio, clockOutLoop W result n b =
      (result ||| BitVec.ofNat 64 (value (b.station.echoes W.device W.pull n).2),
        ⟨gpio, (b.station.echoes W.device W.pull n).1, b.edges ++ echoEdges W b.station n⟩) := by
  induction n generalizing b result with
  | zero =>
    refine ⟨b.gpio, ?_⟩
    rw [clockOutLoop, pure_run]
    simp [Station.echoes, echoEdges, value]
  | succ n ih =>
    have hne := romusbGpio_ne W.revisionId
    set x := (b.station.drives W.device).getD W.pull with hx
    set b₁ := b.write (mdcGpio W.revisionId) (gpioOe ||| gpioLo) with hb₁
    have hfree₁ : b₁.driven (mdioGpio W.revisionId) = none := by
      rw [hb₁, b.driven_write_of_ne hne.symm, hfree]
    have hlow : b₁.driven (mdcGpio W.revisionId) = some false := by
      rw [hb₁, b.driven_write_self]
      rfl
    set b₂ := (b₁.write (mdcGpio W.revisionId) (gpioOe ||| gpioHi)).edge W with hb₂
    have hfree₂ : (b₁.write (mdcGpio W.revisionId) (gpioOe ||| gpioHi)).driven
        (mdioGpio W.revisionId) = none := by
      rw [b₁.driven_write_of_ne hne.symm, hfree₁]
    have hstation : b₂.station = b.station.clock W.device x := by
      rw [hb₂, Board.edge, Board.level_mdio W _ hfree₂]
      rfl
    have hedges : b₂.edges = b.edges ++ [⟨none, b.station.drives W.device⟩] := by
      rw [hb₂, Board.edge, hfree₂, Board.far_mdio]
      rfl
    obtain ⟨gpio, hrest⟩ := ih (Nat.le_of_succ_le hn) b₂
      (result ||| ((BitVec.ofBool x).setWidth 32 <<< n).signExtend 64) hfree₂
    refine ⟨gpio, ?_⟩
    rw [clockOutLoop, bind_run, bind_run, bind_run, mdcLow_run, getBit_run, mdcHi_run W b₁ hlow,
      Board.level_mdio W b₁ hfree₁]
    have hlen : (Station.echoes W.device W.pull (b.station.clock W.device x) n).2.length = n :=
      Station.length_echoes _ n
    have hbits := bit_or_value x (l := (Station.echoes W.device W.pull
      (b.station.clock W.device x) n).2) (by omega)
    rw [hlen] at hbits
    refine hrest.trans ?_
    rw [hstation, hedges, BitVec.or_assoc, hbits, List.append_assoc]
    rfl

/-- `CLOCK_OUT_BITS` lets the line go and reads the sixteen bits on it. -/
theorem clockOutBits_run (b : Board ρ) :
    ∃ gpio, clockOutBits W b =
      (BitVec.ofNat 64 (value (b.station.echoes W.device W.pull 16).2),
        ⟨gpio, (b.station.echoes W.device W.pull 16).1, b.edges ++ echoEdges W b.station 16⟩) := by
  have hfree : (b.write (mdioGpio W.revisionId) 0).driven (mdioGpio W.revisionId) = none := by
    rw [b.driven_write_self]
    rfl
  obtain ⟨gpio, hloop⟩ := clockOutLoop_run W (Nat.le_refl 16)
    (b.write (mdioGpio W.revisionId) 0) 0#64 hfree
  refine ⟨gpio, ?_⟩
  rw [clockOutBits, bind_run, mdio_run]
  refine hloop.trans ?_
  rw [BitVec.zero_or]
  rfl

end Read

/-! ## Cycles -/

section Cycles
variable {ρ : Type} (W : Wiring ρ)

/-- The header of a cycle. -/
def cycleHeader (opcode port dev : BitVec 64) : Header := ⟨0, opcode.toNat, port.toNat, dev.toNat⟩

/-- A cycle begins with the preamble, the header and the turnaround "high, then
low". -/
theorem sends_cycleStart (opcode port dev : BitVec 64) :
    Sends W (cycleStart W opcode port dev)
      (List.replicate 32 true ++ ((cycleHeader opcode port dev).bits ++ msbFirst 2 2)) := by
  have hbits : List.replicate 32 true ++ ((cycleHeader opcode port dev).bits ++ msbFirst 2 2) =
      List.replicate 32 true ++ (msbFirst 0 2 ++ (msbFirst opcode.toNat 2 ++
        (msbFirst port.toNat 5 ++ (msbFirst dev.toNat 5 ++ msbFirst 2 2)))) := by
    simp only [cycleHeader, Header.bits, List.append_assoc]
  rw [hbits]
  exact (sends_preambleClocks W 32).bind
    ((sends_clockInBits W 0 (by decide)).bind
      ((sends_clockInBits W opcode (by decide)).bind
        ((sends_clockInBits W port (by decide)).bind
          ((sends_clockInBits W dev (by decide)).bind
            (sends_clockInBits W 2 (by decide))))))

theorem sends_wrCycle (opcode port dev addrData : BitVec 64) :
    Sends W (mdioWrCycle W opcode port dev addrData)
      (List.replicate 32 true ++
        ((cycleHeader opcode port dev).bits ++ (msbFirst 2 2 ++ msbFirst addrData.toNat 16))) := by
  have h := (sends_cycleStart W opcode port dev).bind
    (sends_clockInBits W addrData (n := 16) (by decide))
  rw [List.append_assoc, List.append_assoc] at h
  exact h

/-- The header at the far end. -/
def farHeader (opcode : Nat) (port dev : BitVec 64) : Header :=
  ⟨0, opcode, port.toNat % 32, dev.toNat % 32⟩

theorem cut_cycleHeader {opcode port dev : BitVec 64} (h : opcode.toNat < 4) :
    (cycleHeader opcode port dev).cut = farHeader opcode.toNat port dev := by
  simp only [Header.cut, cycleHeader, farHeader, Nat.mod_eq_of_lt h, Nat.zero_mod]

/-- **A writing cycle** is one frame to the device. -/
theorem mdioWrCycle_run {b : Board ρ} (hrest : b.station.AtRest) (opcode : BitVec 64)
    (hop : opcode.toNat < 4) (port dev addrData : BitVec 64) :
    ∃ gpio, mdioWrCycle W opcode port dev addrData b =
      ((), ⟨gpio, ⟨W.device.accept b.station.regs
            ⟨farHeader opcode.toNat port dev, 2, addrData.toNat % 65536⟩, .waiting 0⟩,
        b.edges ++ hostEdges W b.station (List.replicate 32 true ++
          ((cycleHeader opcode port dev).bits ++
            (msbFirst 2 2 ++ msbFirst addrData.toNat 16)))⟩) := by
  obtain ⟨gpio, hrun⟩ := sends_wrCycle W opcode port dev addrData b
  refine ⟨gpio, ?_⟩
  rw [hrun, clocks_frame W.device hrest rfl, cut_cycleHeader hop]

/-- **A reading cycle** brings back the word of the device. -/
theorem mdioRdCycle_run {b : Board ρ} (hrest : b.station.AtRest) (opcode : BitVec 64)
    (hop : opcode.toNat < 4) (port dev : BitVec 64) :
    ∃ gpio, mdioRdCycle W opcode port dev b =
      (BitVec.ofNat 64 (W.device.readWord W.pull b.station.regs (farHeader opcode.toNat port dev)),
        ⟨gpio, ⟨W.device.accept b.station.regs ⟨farHeader opcode.toNat port dev, 2,
            W.device.readWord W.pull b.station.regs (farHeader opcode.toNat port dev)⟩,
          .waiting 0⟩,
        b.edges ++ (hostEdges W b.station (List.replicate 32 true ++
          ((cycleHeader opcode port dev).bits ++ msbFirst 2 2)) ++
            echoEdges W (b.station.clocks W.device (List.replicate 32 true ++
              ((cycleHeader opcode port dev).bits ++ msbFirst 2 2))) 16)⟩) := by
  obtain ⟨gpio, hstart⟩ := sends_cycleStart W opcode port dev b
  obtain ⟨gpio', hout⟩ := clockOutBits_run W ⟨gpio, b.station.clocks W.device
    (List.replicate 32 true ++ ((cycleHeader opcode port dev).bits ++ msbFirst 2 2)),
    b.edges ++ hostEdges W b.station
      (List.replicate 32 true ++ ((cycleHeader opcode port dev).bits ++ msbFirst 2 2))⟩
  have hword : W.device.readWord W.pull b.station.regs (farHeader opcode.toNat port dev) % 2 ^ 16 =
      W.device.readWord W.pull b.station.regs (farHeader opcode.toNat port dev) :=
    Nat.mod_eq_of_lt (Nat.mod_lt _ (by decide))
  refine ⟨gpio', ?_⟩
  rw [mdioRdCycle, bind_run, hstart, hout, echoes_word hrest rfl, cut_cycleHeader hop,
    value_msbFirst, hword, List.append_assoc]

end Cycles

/-! ## Calls -/

inductive MdioCall where
  | wr (devaddr addr data : BitVec 64)
  | rd (devaddr addr : BitVec 64)
  | wrPort (port devaddr addr data : BitVec 64)
  | rdPort (port devaddr addr : BitVec 64)
deriving DecidableEq

section Calls
variable {ρ : Type} (W : Wiring ρ) (portnum : BitVec 16)

/-- A call, with what it returns. -/
def MdioCall.exec : MdioCall → Mdio ρ (Option (BitVec 64))
  | .wr devaddr addr data => do
    unmXgeMdioWr W portnum devaddr addr data
    return none
  | .rd devaddr addr => do
    let data ← unmXgeMdioRd W portnum devaddr addr
    return some data
  | .wrPort port devaddr addr data => do
    unmXgeMdioWrPort W port devaddr addr data
    return none
  | .rdPort port devaddr addr => do
    let data ← unmXgeMdioRdPort W port devaddr addr
    return some data

def execAll : List MdioCall → Mdio ρ (List (Option (BitVec 64)))
  | [] => return []
  | c :: l => do
    let r ← c.exec W portnum
    let rs ← execAll l
    return r :: rs

/-- What a write is to the device: a frame with the address and one with the word. -/
def deviceWr (regs : ρ) (port devaddr addr data : BitVec 64) : ρ :=
  W.device.accept
    (W.device.accept regs ⟨farHeader 0 port devaddr, 2, addr.toNat % 65536⟩)
    ⟨farHeader 1 port devaddr, 2, data.toNat % 65536⟩

/-- What a read is to the device, and the word it brings back. -/
def deviceRd (regs : ρ) (port devaddr addr : BitVec 64) : BitVec 64 × ρ :=
  let regs' := W.device.accept regs ⟨farHeader 0 port devaddr, 2, addr.toNat % 65536⟩
  let word := W.device.readWord W.pull regs' (farHeader 3 port devaddr)
  (BitVec.ofNat 64 word, W.device.accept regs' ⟨farHeader 3 port devaddr, 2, word⟩)

/-- What a call is to the device. -/
def MdioCall.onDevice (regs : ρ) : MdioCall → Option (BitVec 64) × ρ
  | .wr devaddr addr data => (none, deviceWr W regs (portnum.setWidth 64) devaddr addr data)
  | .rd devaddr addr =>
    let r := deviceRd W regs (portnum.setWidth 64) devaddr addr
    (some r.1, r.2)
  | .wrPort port devaddr addr data => (none, deviceWr W regs port devaddr addr data)
  | .rdPort port devaddr addr =>
    let r := deviceRd W regs port devaddr addr
    (some r.1, r.2)

def allOnDevice (regs : ρ) : List MdioCall → List (Option (BitVec 64)) × ρ
  | [] => ([], regs)
  | c :: l =>
    let r := c.onDevice W portnum regs
    let rs := allOnDevice r.2 l
    (r.1 :: rs.1, rs.2)

theorem unmXgeMdioWrPort_run {b : Board ρ} (hrest : b.station.AtRest)
    (port devaddr addr data : BitVec 64) :
    ((unmXgeMdioWrPort W port devaddr addr data b).2).station =
      ⟨deviceWr W b.station.regs port devaddr addr data, .waiting 0⟩ := by
  obtain ⟨gpio, haddr⟩ := mdioWrCycle_run W hrest opcodeAddr (by decide) port devaddr addr
  rw [unmXgeMdioWrPort, bind_run, haddr]
  set b' : Board ρ := ⟨gpio, _, _⟩ with hb'
  have hrest' : b'.station.AtRest := ⟨0, rfl⟩
  obtain ⟨gpio', hdata⟩ :=
    mdioWrCycle_run W hrest' opcodeWrite (by decide) port devaddr data
  rw [hdata]
  rfl

theorem unmXgeMdioRdPort_run {b : Board ρ} (hrest : b.station.AtRest)
    (port devaddr addr : BitVec 64) :
    (unmXgeMdioRdPort W port devaddr addr b).1 =
        (deviceRd W b.station.regs port devaddr addr).1 ∧
      ((unmXgeMdioRdPort W port devaddr addr b).2).station =
        ⟨(deviceRd W b.station.regs port devaddr addr).2, .waiting 0⟩ := by
  obtain ⟨gpio, haddr⟩ := mdioWrCycle_run W hrest opcodeAddr (by decide) port devaddr addr
  rw [unmXgeMdioRdPort, bind_run, haddr]
  set b' : Board ρ := ⟨gpio, _, _⟩ with hb'
  have hrest' : b'.station.AtRest := ⟨0, rfl⟩
  obtain ⟨gpio', hdata⟩ := mdioRdCycle_run W hrest' opcodeRead (by decide) port devaddr
  rw [hdata]
  exact ⟨rfl, rfl⟩

/-- The routines for the adapter's own port are those for any port. -/
theorem unmXgeMdioWr_eq (devaddr addr data : BitVec 64) :
    unmXgeMdioWr W portnum devaddr addr data =
      unmXgeMdioWrPort W (portnum.setWidth 64) devaddr addr data := by
  rw [unmXgeMdioWr, unmXgeMdioWrPort]

theorem unmXgeMdioRd_eq (devaddr addr : BitVec 64) :
    unmXgeMdioRd W portnum devaddr addr =
      unmXgeMdioRdPort W (portnum.setWidth 64) devaddr addr := by
  rw [unmXgeMdioRd, unmXgeMdioRdPort]

/-- **One call**: what it returns and what it does to the device are what the call
is to the device. -/
theorem MdioCall.exec_run {b : Board ρ} (hrest : b.station.AtRest) (c : MdioCall) :
    (c.exec W portnum b).1 = (c.onDevice W portnum b.station.regs).1 ∧
      ((c.exec W portnum b).2).station =
        ⟨(c.onDevice W portnum b.station.regs).2, .waiting 0⟩ := by
  cases c with
  | wr devaddr addr data =>
    rw [MdioCall.exec, bind_run, pure_run, unmXgeMdioWr_eq, MdioCall.onDevice]
    dsimp only
    exact ⟨rfl, unmXgeMdioWrPort_run W hrest _ devaddr addr data⟩
  | rd devaddr addr =>
    obtain ⟨hret, hstation⟩ := unmXgeMdioRdPort_run W hrest (portnum.setWidth 64) devaddr addr
    rw [MdioCall.exec, bind_run, pure_run, unmXgeMdioRd_eq, hret, MdioCall.onDevice]
    dsimp only
    exact ⟨rfl, hstation⟩
  | wrPort port devaddr addr data =>
    rw [MdioCall.exec, bind_run, pure_run, MdioCall.onDevice]
    dsimp only
    exact ⟨rfl, unmXgeMdioWrPort_run W hrest port devaddr addr data⟩
  | rdPort port devaddr addr =>
    obtain ⟨hret, hstation⟩ := unmXgeMdioRdPort_run W hrest port devaddr addr
    rw [MdioCall.exec, bind_run, pure_run, hret, MdioCall.onDevice]
    dsimp only
    exact ⟨rfl, hstation⟩

/-- **The two lines carry the calls to the device.**  Whatever the lines and the
device are, a run of calls returns what the calls return on the device itself and
leaves the device as they leave it. -/
theorem execAll_eq_allOnDevice {b : Board ρ} (hrest : b.station.AtRest) (calls : List MdioCall) :
    (execAll W portnum calls b).1 = (allOnDevice W portnum b.station.regs calls).1 ∧
      ((execAll W portnum calls b).2).station.regs =
        (allOnDevice W portnum b.station.regs calls).2 ∧
      ((execAll W portnum calls b).2).station.AtRest := by
  induction calls generalizing b with
  | nil => exact ⟨rfl, rfl, hrest⟩
  | cons c l ih =>
    obtain ⟨hret, hstation⟩ := c.exec_run W portnum hrest
    have hrest' : ((c.exec W portnum b).2).station.AtRest := ⟨0, by rw [hstation]⟩
    obtain ⟨hrets, hregs, hlast⟩ := ih hrest'
    have hregs' : ((c.exec W portnum b).2).station.regs =
        (c.onDevice W portnum b.station.regs).2 := by rw [hstation]
    rw [hregs'] at hrets hregs
    refine ⟨?_, hregs, hlast⟩
    rw [execAll, bind_run, bind_run, pure_run, hret, hrets]
    rfl

end Calls

end Phy
end NxNic

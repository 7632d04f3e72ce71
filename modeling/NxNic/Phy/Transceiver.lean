import NxNic.Phy.Contention

/-! # The registers of the transceiver

A transceiver has, at each port and device address, registers of 16 bits and an
address register, which an address frame sets and the other frames use: it is the
device at the far end of the board of `Phy/Mdio`, and a step is a rising edge of the
clock, with the bit that is on the line.

Through the port the driver sees a memory (`Memory`): a read brings back what the last
write to the register left there, and no call touches any other register.  What a call
is to the memory is `MdioCall.onMemory`.

One call clocks whole frames, by the lemmas on frames of `Phy/Mdio`, and leaves the lines
at rest for the next; `execAll_eq_allOnMemory` is the induction over the calls.
-/
namespace NxNic
namespace Phy
open Serial

/-- The words of the registers, by port, device and address. -/
abbrev Memory := Nat → Nat → Nat → Nat

structure PhyRegs where
  address : Nat → Nat → Nat
  word : Memory

def setWord (m : Memory) (port dev addr word : Nat) : Memory :=
  fun p d a => if p = port ∧ d = dev ∧ a = addr then word else m p d a

/-- A transceiver with the devices that `present` says. -/
def transceiver (present : Nat → Nat → Bool) : Device PhyRegs where
  answer r h :=
    if h.start = 0 ∧ present h.port h.dev ∧ 2 ≤ h.opcode then
      some (r.word h.port h.dev (r.address h.port h.dev))
    else none
  accept r f :=
    if f.start = 0 ∧ present f.port f.dev then
      match f.opcode with
      | 0 =>
        { r with
          address := fun p d => if p = f.port ∧ d = f.dev then f.word else r.address p d }
      | 1 => { r with word := setWord r.word f.port f.dev (r.address f.port f.dev) f.word }
      | 2 =>
        { r with
          address := fun p d =>
            if p = f.port ∧ d = f.dev then (r.address f.port f.dev + 1) % 65536
            else r.address p d }
      | _ => r
    else r

theorem transceiver_answersReads (present : Nat → Nat → Bool) :
    AnswersReads (transceiver present) := by
  intro regs h word hanswer
  simp only [transceiver] at hanswer
  split at hanswer
  · rename_i hread
    exact hread.2.2
  · cases hanswer

section OnMemory
variable (present : Nat → Nat → Bool) (pull : Bool) (portnum : BitVec 16)

/-- A register that is not there reads as the level of the line, and takes nothing. -/
def memoryRd (m : Memory) (port devaddr addr : BitVec 64) : BitVec 64 :=
  BitVec.ofNat 64
    ((if present (port.toNat % 32) (devaddr.toNat % 32) then
        m (port.toNat % 32) (devaddr.toNat % 32) (addr.toNat % 65536)
      else if pull then 65535 else 0) % 65536)

def memoryWr (m : Memory) (port devaddr addr data : BitVec 64) : Memory :=
  if present (port.toNat % 32) (devaddr.toNat % 32) then
    setWord m (port.toNat % 32) (devaddr.toNat % 32) (addr.toNat % 65536) (data.toNat % 65536)
  else m

/-- What a call is to the memory. -/
def MdioCall.onMemory (m : Memory) : MdioCall → Option (BitVec 64) × Memory
  | .wr devaddr addr data => (none, memoryWr present m (portnum.setWidth 64) devaddr addr data)
  | .rd devaddr addr => (some (memoryRd present pull m (portnum.setWidth 64) devaddr addr), m)
  | .wrPort port devaddr addr data => (none, memoryWr present m port devaddr addr data)
  | .rdPort port devaddr addr => (some (memoryRd present pull m port devaddr addr), m)

def allOnMemory (m : Memory) : List MdioCall → List (Option (BitVec 64)) × Memory
  | [] => ([], m)
  | c :: l =>
    let r := c.onMemory present pull portnum m
    let rs := allOnMemory r.2 l
    (r.1 :: rs.1, rs.2)

end OnMemory

section Refines
variable {present : Nat → Nat → Bool} {W : Wiring PhyRegs}

theorem deviceWr_word (hW : W.device = transceiver present) (r : PhyRegs)
    (port devaddr addr data : BitVec 64) :
    (deviceWr W r port devaddr addr data).word =
      memoryWr present r.word port devaddr addr data := by
  rw [deviceWr, memoryWr, hW]
  by_cases hpresent : present (port.toNat % 32) (devaddr.toNat % 32) = true
  · simp [transceiver, farHeader, hpresent]
  · simp [transceiver, farHeader, hpresent]

theorem deviceRd_word (hW : W.device = transceiver present) (r : PhyRegs)
    (port devaddr addr : BitVec 64) :
    (deviceRd W r port devaddr addr).1 = memoryRd present W.pull r.word port devaddr addr ∧
      (deviceRd W r port devaddr addr).2.word = r.word := by
  rw [deviceRd, memoryRd, hW]
  by_cases hpresent : present (port.toNat % 32) (devaddr.toNat % 32) = true
  · simp [transceiver, farHeader, Device.readWord, hpresent]
  · simp [transceiver, farHeader, Device.readWord, hpresent]

/-- One call on the device is the call on the memory. -/
theorem MdioCall.onDevice_eq (hW : W.device = transceiver present) (portnum : BitVec 16)
    (r : PhyRegs) (c : MdioCall) :
    (c.onDevice W portnum r).1 = (c.onMemory present W.pull portnum r.word).1 ∧
      (c.onDevice W portnum r).2.word = (c.onMemory present W.pull portnum r.word).2 := by
  cases c with
  | wr devaddr addr data => exact ⟨rfl, deviceWr_word hW r _ devaddr addr data⟩
  | rd devaddr addr =>
    obtain ⟨hret, hword⟩ := deviceRd_word hW r (portnum.setWidth 64) devaddr addr
    exact ⟨congrArg some hret, hword⟩
  | wrPort port devaddr addr data => exact ⟨rfl, deviceWr_word hW r port devaddr addr data⟩
  | rdPort port devaddr addr =>
    obtain ⟨hret, hword⟩ := deviceRd_word hW r port devaddr addr
    exact ⟨congrArg some hret, hword⟩

theorem allOnDevice_eq (hW : W.device = transceiver present) (portnum : BitVec 16) (r : PhyRegs)
    (calls : List MdioCall) :
    (allOnDevice W portnum r calls).1 = (allOnMemory present W.pull portnum r.word calls).1 ∧
      (allOnDevice W portnum r calls).2.word =
        (allOnMemory present W.pull portnum r.word calls).2 := by
  induction calls generalizing r with
  | nil => exact ⟨rfl, rfl⟩
  | cons c l ih =>
    obtain ⟨hret, hword⟩ := MdioCall.onDevice_eq hW portnum r c
    obtain ⟨hrets, hwords⟩ := ih (c.onDevice W portnum r).2
    rw [hword] at hrets hwords
    exact ⟨congrArg₂ List.cons hret hrets, hwords⟩

end Refines

/-- The board of a transceiver, with the lines at rest. -/
structure PhyBoard where
  revisionId : BitVec 8
  present : Nat → Nat → Bool
  pull : Bool
  board : Board PhyRegs
  atRest : board.station.AtRest

namespace PhyBoard
variable (b : PhyBoard)

def wiring : Wiring PhyRegs := ⟨b.revisionId, transceiver b.present, b.pull⟩

/-- **The port is a memory.**  Over a run of calls that goes out and comes back bit
by bit, with any arguments, a read returns the low 16 bits of what was last written
to its register, and no register changes but by a write to it. -/
theorem execAll_eq_allOnMemory (portnum : BitVec 16) (calls : List MdioCall) :
    (execAll b.wiring portnum calls b.board).1 =
        (allOnMemory b.present b.pull portnum b.board.station.regs.word calls).1 ∧
      (execAll b.wiring portnum calls b.board).2.station.regs.word =
        (allOnMemory b.present b.pull portnum b.board.station.regs.word calls).2 := by
  obtain ⟨hret, hregs, -⟩ := execAll_eq_allOnDevice b.wiring portnum b.atRest calls
  obtain ⟨hret', hword⟩ := allOnDevice_eq (W := b.wiring) rfl portnum b.board.station.regs calls
  exact ⟨hret.trans hret', (congrArg PhyRegs.word hregs).trans hword⟩

end PhyBoard

end Phy
end NxNic

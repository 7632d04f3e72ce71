import Mathlib.Data.BitVec
import NxNic.Lib.Ledger
import NxNic.Lib.Words

/-! # Registers through the 128M BAR

The BAR shows one of two windows on the CRB space.  `CrbWindow` is the adapter's own note of which
one it is, `curr_window`, beside the bit that the window register holds.

The four accessors, `unm_nic_hw_read_wx_128M`, `unm_nic_hw_write_wx_128M` and the two for the
ioctl, take `adapter_lock` for reading when the register is in window 1, where the window rests,
and for writing when it is in window 0, which they move to and back from.  Which of the two it is
they compute again on the way out, from an address that the way in may have changed.

A call is run as an `Exec`: the window, and the trace of what it does, the lock taken and let go of
and each access in the window in which it is made.  What the bytes are is `pieces`, from the switch
over the length.

`Disciplined` is the property of a call: it lets go of just what it took, it makes each access in
the window of the register it was asked for, and leaves the window at rest where it found it so.
`accessor_disciplined_iff` has the two ways to break it: the address that changes its side on the
way (`CrbCall.Slips`), and the window that is not 1 when an access in window 1 begins.
-/
namespace NxNic
namespace Crb

def unmPciCrbspace : BitVec 64 := 0x06000000
def unmCrbPcixHost : BitVec 64 := 0x06000000
def unmCrbPcixHost2 : BitVec 64 := 0x08000000
def unmCrbMax : BitVec 64 := 0x0a000000
def pageSize : BitVec 64 := 0x1000
def secondPageGroupStart : BitVec 64 := 0x6000000
def secondPageGroupEnd : BitVec 64 := 0x68bc000
def thirdPageGroupStart : BitVec 64 := 0x70e4000
def thirdPageGroupEnd : BitVec 64 := 0x8000000

/-- `adapter->ahw`, what it says of the BAR, and the address of the BAR. -/
structure Bars where
  pciBase0 : BitVec 64
  pciBase1 : BitVec 64
  pciBase2 : BitVec 64
  pciLen0 : BitVec 64
  firstPageGroupStart : BitVec 64
  firstPageGroupEnd : BitVec 64
  resourceStart : BitVec 64

/-- `ADDR_IN_WINDOW1`. -/
def AddrInWindow1 (off : BitVec 64) : Prop := unmCrbPcixHost2 < off ∧ off < unmCrbMax

instance (off : BitVec 64) : Decidable (AddrInWindow1 off) := inferInstanceAs (Decidable (_ ∧ _))

/-- The window that an address belongs to. -/
def windowOf (off : BitVec 64) : BitVec 32 := if AddrInWindow1 off then 1 else 0

/-- `pci_base_offset`: where an address is mapped, 0 if it is not. -/
def pciBaseOffset (b : Bars) (off : BitVec 64) : BitVec 64 :=
  if off < b.firstPageGroupEnd ∧ b.firstPageGroupStart ≤ off then b.pciBase0 + off
  else if off < secondPageGroupEnd ∧ secondPageGroupStart ≤ off then
    b.pciBase1 + off - secondPageGroupStart
  else if off < thirdPageGroupEnd ∧ thirdPageGroupStart ≤ off then
    b.pciBase2 + off - thirdPageGroupStart
  else 0

/-- `CRB_NORMAL` and `CRB_NORMALIZE`. -/
def crbNormal (reg : BitVec 64) : BitVec 64 := reg - unmCrbPcixHost2 + unmCrbPcixHost

def crbNormalize (b : Bars) (reg : BitVec 64) : BitVec 64 := pciBaseOffset b (crbNormal reg)

/-! ## The window, the lock and the accesses -/

/-- `curr_window` of the adapter, and `addrbit` of the window register. -/
structure CrbWindow where
  currWindow : BitVec 32
  hwWindow : BitVec 1
deriving DecidableEq

/-- `unm_nic_pci_change_crbwindow_128M`. -/
def CrbWindow.change (w : CrbWindow) (wndw : BitVec 32) : CrbWindow :=
  if w.currWindow = wndw then w else ⟨wndw, wndw.setWidth 1⟩

/-- Sides of `adapter_lock`. -/
inductive AdapterLock where
  | read
  | write
deriving DecidableEq

/-- What a call does, in order: the lock, and accesses to registers through a mapped
address with the bytes that they move. -/
inductive Event where
  | lock (e : Entry AdapterLock)
  | read (window : CrbWindow) (addr : BitVec 64) (bytes : List (BitVec 8))
  | write (window : CrbWindow) (addr : BitVec 64) (bytes : List (BitVec 8))
deriving DecidableEq

/-- A call on its way. -/
structure Exec where
  window : CrbWindow
  trace : List Event
deriving DecidableEq

namespace Exec

def lock (x : Exec) (e : Entry AdapterLock) : Exec := { x with trace := x.trace ++ [.lock e] }

def changeCrbwindow (x : Exec) (wndw : BitVec 32) : Exec :=
  { x with window := x.window.change wndw }

/-- The way in, by the address: the window-1 side does not look at the window. -/
def enter (x : Exec) (off : BitVec 64) : Exec :=
  if AddrInWindow1 off then x.lock (.acquire .read)
  else (x.lock (.acquire .write)).changeCrbwindow 0

/-- The way out. -/
def leave (x : Exec) (off : BitVec 64) : Exec :=
  if AddrInWindow1 off then x.lock (.release .read)
  else (x.changeCrbwindow 1).lock (.release .write)

/-- Accesses, one after the other. -/
def touch (x : Exec) (events : List Event) : Exec := { x with trace := x.trace ++ events }

end Exec

/-- The pieces, by place and width, that the switch over `len` moves: one register, or
`len >> 3` words. -/
def pieces (len : BitVec 32) : List (Nat × Nat) :=
  if len = 1 ∨ len = 2 ∨ len = 4 ∨ len = 8 then [(0, len.toNat)]
  else (List.range (len.sshiftRight 3).toInt.toNat).map fun i => (8 * i, 8)

/-- How many bytes of the buffer that is. -/
def bytesMoved (len : BitVec 32) : Nat := ((pieces len).map Prod.snd).sum

/-- What the registers read, in each window. -/
abbrev Registers := BitVec 1 → BitVec 64 → BitVec 8

def chunk (m : Nat → BitVec 8) (p : Nat × Nat) : List (BitVec 8) :=
  (List.range p.2).map fun k => m (p.1 + k)

def readPiece (regs : Registers) (w : CrbWindow) (addr : BitVec 64) (p : Nat × Nat) : Event :=
  .read w (addr + BitVec.ofNat 64 p.1)
    (chunk (fun k => regs w.hwWindow (addr + BitVec.ofNat 64 k)) p)

def writePiece (data : Bytes) (w : CrbWindow) (addr : BitVec 64) (p : Nat × Nat) : Event :=
  .write w (addr + BitVec.ofNat 64 p.1) (chunk data p)

/-- The buffer after a read. -/
def filled (regs : Registers) (w : CrbWindow) (addr : BitVec 64) (len : BitVec 32) (data : Bytes) :
    Bytes := fun k =>
  if k < bytesMoved len then regs w.hwWindow (addr + BitVec.ofNat 64 k)
  else data k

theorem bytesMoved_eq (len : BitVec 32) :
    bytesMoved len =
      if len = 1 ∨ len = 2 ∨ len = 4 ∨ len = 8 then len.toNat else 8 * (len.toInt / 8).toNat := by
  rw [bytesMoved, pieces]
  split
  · simp
  · have hshift : (len.sshiftRight 3).toInt = len.toInt / 8 := by
      rw [BitVec.toInt_sshiftRight, Int.shiftRight_eq_div_pow]
      rfl
    have hwords : ∀ n : Nat,
        (((List.range n).map fun i => (8 * i, 8)).map Prod.snd).sum = 8 * n := by
      intro n
      rw [List.map_map]
      show ((List.range n).map fun _ => 8).sum = 8 * n
      rw [List.map_const', List.sum_replicate_nat, List.length_range, Nat.mul_comm]
    rw [hwords, hshift]

/-- Eight words at most are 64 bytes at most. -/
theorem bytesMoved_le_iff {len : BitVec 32} : bytesMoved len ≤ 64 ↔ len.toInt < 72 := by
  rw [bytesMoved_eq]
  split
  · rename_i h
    rcases h with rfl | rfl | rfl | rfl <;> decide
  · omega

/-! ## The accessors -/

/-- Where the register is mapped. -/
def crbAddr (b : Bars) (off : BitVec 64) : BitVec 64 :=
  if AddrInWindow1 off then crbNormalize b off else pciBaseOffset b off

/-- `unm_nic_hw_write_wx_128M`. -/
def unmNicHwWriteWx128M (b : Bars) (w : CrbWindow) (off : BitVec 64) (data : BitVec 32) :
    Exec × Int :=
  let x := Exec.enter ⟨w, []⟩ off
  if crbAddr b off = 0 then (x.leave off, 1)
  else ((x.touch [writePiece (Words.byte data) x.window (crbAddr b off) (0, 4)]).leave off, 0)

/-- `unm_nic_hw_read_wx_128M`. -/
def unmNicHwReadWx128M (b : Bars) (regs : Registers) (w : CrbWindow) (off : BitVec 64) :
    Exec × BitVec 32 :=
  let x := Exec.enter ⟨w, []⟩ off
  if crbAddr b off = 0 then (x.leave off, 1)
  else
    ((x.touch [readPiece regs x.window (crbAddr b off) (0, 4)]).leave off,
      Words.ofBytes 32 (fun k => regs x.window.hwWindow (crbAddr b off + BitVec.ofNat 64 k)) 4)

/-- `ioremap` of the one or two pages of an access; 0 is `NULL`. -/
def remapPages (b : Bars) (ioremap : BitVec 64 → Nat → BitVec 64) (offset : BitVec 64)
    (len : BitVec 32) : BitVec 64 :=
  let memPage := offset &&& ~~~(pageSize - 1)
  if memPage ≠ (offset + len.signExtend 64 - 1) &&& ~~~(pageSize - 1) then
    ioremap (b.resourceStart + memPage) (2 * pageSize.toNat)
  else ioremap (b.resourceStart + memPage) pageSize.toNat

/-- What `off` is after the address is found, and the address, `none` where `ioremap` fails.
In window 1 the offset in the BAR is kept apart from `off`, in window 0 it is `off`. -/
def ioctlAddr (b : Bars) (ioremap : BitVec 64 → Nat → BitVec 64) (off : BitVec 64)
    (len : BitVec 32) : Option (BitVec 64 × BitVec 64) :=
  if crbAddr b off ≠ 0 then some (off, crbAddr b off)
  else if AddrInWindow1 off then
    let offset := if b.pciLen0 = 0 then crbNormal off - unmPciCrbspace else crbNormal off
    let memPtr := remapPages b ioremap offset len
    if memPtr = 0 then none else some (off, memPtr + (offset &&& (pageSize - 1)))
  else
    let off := if b.pciLen0 = 0 then off - unmPciCrbspace else off
    let memPtr := remapPages b ioremap off len
    if memPtr = 0 then none else some (off, memPtr + (off &&& (pageSize - 1)))

/-- `unm_nic_hw_write_ioctl_128M`. -/
def unmNicHwWriteIoctl128M (b : Bars) (ioremap : BitVec 64 → Nat → BitVec 64) (w : CrbWindow)
    (off : BitVec 64) (data : Bytes) (len : BitVec 32) : Exec × Int :=
  match ioctlAddr b ioremap off len with
  | none => (⟨w, []⟩, 1)
  | some (off', addr) =>
    let x := Exec.enter ⟨w, []⟩ off
    ((x.touch ((pieces len).map (writePiece data x.window addr))).leave off', 0)

/-- `unm_nic_hw_read_ioctl_128M`. -/
def unmNicHwReadIoctl128M (b : Bars) (ioremap : BitVec 64 → Nat → BitVec 64) (regs : Registers)
    (w : CrbWindow) (off : BitVec 64) (data : Bytes) (len : BitVec 32) : Exec × Bytes × Int :=
  match ioctlAddr b ioremap off len with
  -- only the window-1 side clears the first byte
  | none => (⟨w, []⟩, if AddrInWindow1 off then Function.update data 0 0 else data, 1)
  | some (off', addr) =>
    let x := Exec.enter ⟨w, []⟩ off
    ((x.touch ((pieces len).map (readPiece regs x.window addr))).leave off',
      filled regs x.window addr len data, 0)

/-! ## The discipline -/

/-- The entries of the lock in a trace. -/
def locks (t : List Event) : List (Entry AdapterLock) :=
  t.filterMap fun
    | .lock e => some e
    | _ => none

/-- The windows that the accesses of a trace are made in. -/
def windows (t : List Event) : List CrbWindow :=
  t.filterMap fun
    | .lock _ => none
    | .read w _ _ => some w
    | .write w _ _ => some w

/-- **The discipline of a call** for `off`: it lets go of just what it took, each access is
made in the window of `off`, and a window at rest is at rest again. -/
structure Disciplined (off : BitVec 64) (w : CrbWindow) (x : Exec) : Prop where
  settled : Ledger.settle 0 (locks x.trace) = some 0
  inWindow : ∀ v ∈ windows x.trace, v.currWindow = windowOf off
  rests : w = ⟨1, 1⟩ → x.window = ⟨1, 1⟩

/-! ### One critical section -/

/-- The side of the lock that an address asks for. -/
def side (off : BitVec 64) : AdapterLock := if AddrInWindow1 off then .read else .write

theorem side_inj {off off' : BitVec 64} :
    side off = side off' ↔ (AddrInWindow1 off' ↔ AddrInWindow1 off) := by
  rw [side, side]
  by_cases h : AddrInWindow1 off <;> by_cases h' : AddrInWindow1 off' <;> simp [h, h']

/-- What is taken once and let go of once is the same. -/
theorem settle_pair {k l : AdapterLock} :
    Ledger.settle 0 [.acquire k, .release l] = some 0 ↔ k = l := by
  have hreleases : Ledger.settle {k} ([l].map .release) = some 0 ↔ ([l] : Multiset _) = {k} :=
    Ledger.settle_releases_eq_zero
  rw [Ledger.settle_acquire]
  refine hreleases.trans ?_
  rw [Multiset.coe_singleton, Multiset.singleton_inj, eq_comm]

@[simp] theorem CrbWindow.change_currWindow (w : CrbWindow) (wndw : BitVec 32) :
    (w.change wndw).currWindow = wndw := by
  rw [CrbWindow.change]
  split
  · assumption
  · rfl

namespace Exec

theorem enter_trace (x : Exec) (off : BitVec 64) :
    (x.enter off).trace = x.trace ++ [.lock (.acquire (side off))] := by
  rw [enter, side]
  split <;> rfl

theorem leave_trace (x : Exec) (off : BitVec 64) :
    (x.leave off).trace = x.trace ++ [.lock (.release (side off))] := by
  rw [leave, side]
  split <;> rfl

theorem enter_window (x : Exec) (off : BitVec 64) :
    (x.enter off).window = if AddrInWindow1 off then x.window else x.window.change 0 := by
  rw [enter]
  split <;> rfl

theorem leave_window (x : Exec) (off : BitVec 64) :
    (x.leave off).window = if AddrInWindow1 off then x.window else x.window.change 1 := by
  rw [leave]
  split <;> rfl

/-- Inside, the window is that of the address, unless it was already wrong in window 1. -/
theorem enter_currWindow_iff (x : Exec) (off : BitVec 64) :
    (x.enter off).window.currWindow = windowOf off ↔
      (AddrInWindow1 off → x.window.currWindow = 1) := by
  rw [enter_window, windowOf]
  split
  · rename_i h
    rw [forall_prop_of_true h]
  · rename_i h
    exact iff_of_true (CrbWindow.change_currWindow ..) fun h' => absurd h' h

/-- From rest and back by the same way. -/
theorem leave_enter_window {x : Exec} {off : BitVec 64} {events : List Event}
    (h : x.window = ⟨1, 1⟩) : (((x.enter off).touch events).leave off).window = ⟨1, 1⟩ := by
  have henter : ((x.enter off).touch events).window = (x.enter off).window := rfl
  rw [leave_window, henter, enter_window, h]
  split
  · rfl
  · decide

end Exec

/-- Accesses in one window. -/
def AllIn (w : CrbWindow) (events : List Event) : Prop :=
  locks events = [] ∧ windows events = List.replicate events.length w

theorem allIn_nil (w : CrbWindow) : AllIn w [] := ⟨rfl, rfl⟩

theorem allIn_map_readPiece (regs : Registers) (w : CrbWindow) (addr : BitVec 64)
    (ps : List (Nat × Nat)) : AllIn w (ps.map (readPiece regs w addr)) := by
  induction ps with
  | nil => exact allIn_nil w
  | cons p ps ih => exact ⟨ih.1, congrArg (w :: ·) ih.2⟩

theorem allIn_map_writePiece (data : Bytes) (w : CrbWindow) (addr : BitVec 64)
    (ps : List (Nat × Nat)) : AllIn w (ps.map (writePiece data w addr)) := by
  induction ps with
  | nil => exact allIn_nil w
  | cons p ps ih => exact ⟨ih.1, congrArg (w :: ·) ih.2⟩

/-- **One critical section**, entered by `off` and left by `off'`, keeps the discipline just
if both are on one side and an access in window 1 finds the window there. -/
theorem section_disciplined_iff {w : CrbWindow} {off off' : BitVec 64} {events : List Event}
    (h : AllIn (Exec.enter ⟨w, []⟩ off).window events) :
    Disciplined off w (((Exec.enter ⟨w, []⟩ off).touch events).leave off') ↔
      (AddrInWindow1 off' ↔ AddrInWindow1 off) ∧
        (events ≠ [] → AddrInWindow1 off → w.currWindow = 1) := by
  have htrace : (((Exec.enter ⟨w, []⟩ off).touch events).leave off').trace =
      .lock (.acquire (side off)) :: (events ++ [.lock (.release (side off'))]) := by
    rw [Exec.leave_trace, Exec.touch, Exec.enter_trace]
    rfl
  have hlocks : locks (.lock (.acquire (side off)) :: (events ++ [.lock (.release (side off'))])) =
      [.acquire (side off), .release (side off')] := by
    have happend : locks (events ++ [.lock (.release (side off'))]) =
        locks events ++ [.release (side off')] := List.filterMap_append
    rw [h.1] at happend
    exact congrArg (_ :: ·) happend
  have hwindows : windows (.lock (.acquire (side off)) ::
      (events ++ [.lock (.release (side off'))])) =
        List.replicate events.length (Exec.enter ⟨w, []⟩ off).window := by
    have happend : windows (events ++ [.lock (.release (side off'))]) = windows events ++ [] :=
      List.filterMap_append
    exact happend.trans (by rw [List.append_nil, h.2])
  constructor
  · rintro ⟨hsettled, hin, -⟩
    rw [htrace, hlocks, settle_pair] at hsettled
    refine ⟨side_inj.mp hsettled, fun hne => ?_⟩
    rw [htrace, hwindows] at hin
    have hmem : (Exec.enter ⟨w, []⟩ off).window ∈
        List.replicate events.length (Exec.enter ⟨w, []⟩ off).window :=
      List.mem_replicate.mpr ⟨fun hlen => hne (List.length_eq_zero_iff.mp hlen), rfl⟩
    exact (Exec.enter_currWindow_iff ⟨w, []⟩ off).mp (hin _ hmem)
  · rintro ⟨hside, hcurr⟩
    refine ⟨?_, ?_, ?_⟩
    · rw [htrace, hlocks, settle_pair]
      exact side_inj.mpr hside
    · intro v hv
      rw [htrace, hwindows] at hv
      obtain ⟨hlen, rfl⟩ := List.mem_replicate.mp hv
      have hne : events ≠ [] := fun hnil => hlen (hnil ▸ rfl)
      exact (Exec.enter_currWindow_iff ⟨w, []⟩ off).mpr (hcurr hne)
    · intro hrest
      have hleave : ((Exec.enter ⟨w, []⟩ off).touch events).leave off' =
          ((Exec.enter ⟨w, []⟩ off).touch events).leave off := by
        rw [Exec.leave, Exec.leave, if_congr hside]
        all_goals rfl
      rw [hleave]
      exact Exec.leave_enter_window hrest

/-! ## When the accessors keep it -/

/-- A call of one of the four accessors, with what it is given beside the address. -/
inductive CrbCall where
  | writeWx (data : BitVec 32)
  | readWx
  | writeIoctl (data : Bytes) (len : BitVec 32)
  | readIoctl (data : Bytes) (len : BitVec 32)

/-- The call as it goes. -/
def CrbCall.exec (b : Bars) (ioremap : BitVec 64 → Nat → BitVec 64) (regs : Registers)
    (w : CrbWindow) (off : BitVec 64) : CrbCall → Exec
  | .writeWx data => (unmNicHwWriteWx128M b w off data).1
  | .readWx => (unmNicHwReadWx128M b regs w off).1
  | .writeIoctl data len => (unmNicHwWriteIoctl128M b ioremap w off data len).1
  | .readIoctl data len => (unmNicHwReadIoctl128M b ioremap regs w off data len).1

/-- The place in the BAR of an address that is not mapped. -/
def barOffset (b : Bars) (off : BitVec 64) : BitVec 64 :=
  if b.pciLen0 = 0 then (if AddrInWindow1 off then crbNormal off else off) - unmPciCrbspace
  else if AddrInWindow1 off then crbNormal off else off

/-- The accessor has an address for the register, and moves bytes. -/
def CrbCall.Reaches (b : Bars) (ioremap : BitVec 64 → Nat → BitVec 64) (off : BitVec 64) :
    CrbCall → Prop
  | .writeWx _ | .readWx => crbAddr b off ≠ 0
  | .writeIoctl _ len | .readIoctl _ len =>
    pieces len ≠ [] ∧ (crbAddr b off ≠ 0 ∨ remapPages b ioremap (barOffset b off) len ≠ 0)

/-- An address outside window 1 and outside the mapped pages, which the lack of a first page
group moves into window 1. -/
def CrbCall.Slips (b : Bars) (ioremap : BitVec 64 → Nat → BitVec 64) (off : BitVec 64) :
    CrbCall → Prop
  | .writeWx _ | .readWx => False
  | .writeIoctl _ len | .readIoctl _ len =>
    ¬ AddrInWindow1 off ∧ AddrInWindow1 (off - unmPciCrbspace) ∧ b.pciLen0 = 0 ∧
      crbAddr b off = 0 ∧ remapPages b ioremap (off - unmPciCrbspace) len ≠ 0

section
variable {b : Bars} {ioremap : BitVec 64 → Nat → BitVec 64} {regs : Registers} {w : CrbWindow}
variable {off : BitVec 64} {data : Bytes} {len : BitVec 32}

theorem ioctlAddr_of_mapped (h : crbAddr b off ≠ 0) :
    ioctlAddr b ioremap off len = some (off, crbAddr b off) := if_pos h

/-- An address that is not mapped: outside window 1 its place in the BAR takes its place. -/
theorem ioctlAddr_of_unmapped (h : crbAddr b off = 0) :
    ioctlAddr b ioremap off len =
      if remapPages b ioremap (barOffset b off) len = 0 then none
      else some (if AddrInWindow1 off then off else barOffset b off,
        remapPages b ioremap (barOffset b off) len + (barOffset b off &&& (pageSize - 1))) := by
  rw [ioctlAddr, if_neg (not_not.mpr h), barOffset]
  by_cases hwin : AddrInWindow1 off
  · simp only [if_pos hwin]
  · simp only [if_neg hwin]

/-- Going out by another side is the slip. -/
theorem otherSide_iff {off' addr : BitVec 64}
    (h : ioctlAddr b ioremap off len = some (off', addr)) :
    (AddrInWindow1 off' ↔ AddrInWindow1 off) ↔
      ¬ (¬ AddrInWindow1 off ∧ AddrInWindow1 (off - unmPciCrbspace) ∧ b.pciLen0 = 0 ∧
        crbAddr b off = 0 ∧ remapPages b ioremap (off - unmPciCrbspace) len ≠ 0) := by
  by_cases haddr : crbAddr b off = 0
  · rw [ioctlAddr_of_unmapped haddr] at h
    obtain ⟨hmap, h⟩ := Option.ite_none_left_eq_some.mp h
    obtain ⟨rfl, -⟩ := Prod.mk.inj (Option.some.inj h)
    by_cases hwin : AddrInWindow1 off
    · rw [if_pos hwin]
      exact iff_of_true Iff.rfl fun hslip => hslip.1 hwin
    · by_cases hlen : b.pciLen0 = 0
      · have hplace : barOffset b off = off - unmPciCrbspace := by
          rw [barOffset, if_pos hlen, if_neg hwin]
        rw [hplace] at hmap
        rw [if_neg hwin, hplace]
        exact ⟨fun hside hslip => hwin (hside.mp hslip.2.1),
          fun hslip => iff_of_false (fun h' => hslip ⟨hwin, h', hlen, haddr, hmap⟩) hwin⟩
      · have hplace : barOffset b off = off := by
          rw [barOffset, if_neg hlen, if_neg hwin]
        rw [if_neg hwin, hplace]
        exact iff_of_true Iff.rfl fun hslip => hlen hslip.2.2.1
  · rw [ioctlAddr_of_mapped haddr] at h
    obtain ⟨rfl, -⟩ := Prod.mk.inj (Option.some.inj h)
    exact iff_of_true Iff.rfl fun hslip => haddr hslip.2.2.2.1

/-- Some address just if mapped or remapped. -/
theorem ioctlAddr_eq_none :
    ioctlAddr b ioremap off len = none ↔
      ¬ (crbAddr b off ≠ 0 ∨ remapPages b ioremap (barOffset b off) len ≠ 0) := by
  by_cases haddr : crbAddr b off = 0
  · rw [ioctlAddr_of_unmapped haddr]
    by_cases hmap : remapPages b ioremap (barOffset b off) len = 0
    · exact iff_of_true (if_pos hmap) fun h => h.elim (fun h => h haddr) fun h => h hmap
    · rw [if_neg hmap]
      exact iff_of_false nofun fun h => h (Or.inr hmap)
  · rw [ioctlAddr_of_mapped haddr]
    exact iff_of_false nofun fun h => h (Or.inl haddr)

/-- A call that does nothing keeps the discipline. -/
theorem disciplined_idle : Disciplined off w ⟨w, []⟩ := ⟨rfl, nofun, id⟩

/-- The two plain accessors, by the events of an access. -/
theorem wx_disciplined_iff {event : Event} (h : AllIn (Exec.enter ⟨w, []⟩ off).window [event]) :
    Disciplined off w (if crbAddr b off = 0 then (Exec.enter ⟨w, []⟩ off).leave off
        else ((Exec.enter ⟨w, []⟩ off).touch [event]).leave off) ↔
      (crbAddr b off ≠ 0 → AddrInWindow1 off → w.currWindow = 1) := by
  by_cases haddr : crbAddr b off = 0
  · rw [if_pos haddr]
    have hnone : (Exec.enter ⟨w, []⟩ off).touch [] = Exec.enter ⟨w, []⟩ off := by
      rw [Exec.touch, List.append_nil]
    rw [← hnone]
    refine (section_disciplined_iff (allIn_nil (Exec.enter ⟨w, []⟩ off).window)).trans ?_
    exact iff_of_true ⟨Iff.rfl, fun hne => absurd rfl hne⟩ fun hne => absurd haddr hne
  · rw [if_neg haddr]
    refine (section_disciplined_iff h).trans ⟨fun hkept _ => hkept.2 (List.cons_ne_nil _ _),
      fun hkept => ⟨Iff.rfl, fun _ => hkept haddr⟩⟩

/-- The two accessors of the ioctl, by the events of the pieces. -/
theorem ioctl_disciplined_iff (data : Bytes) (events : BitVec 64 → List Event)
    (h : ∀ addr, AllIn (Exec.enter ⟨w, []⟩ off).window (events addr))
    (hpieces : ∀ addr, events addr ≠ [] ↔ pieces len ≠ []) {x : Exec}
    (hx : x = match ioctlAddr b ioremap off len with
      | none => ⟨w, []⟩
      | some (off', addr) => ((Exec.enter ⟨w, []⟩ off).touch (events addr)).leave off') :
    Disciplined off w x ↔
      ¬ (CrbCall.writeIoctl data len).Slips b ioremap off ∧
        ((CrbCall.writeIoctl data len).Reaches b ioremap off → AddrInWindow1 off →
          w.currWindow = 1) := by
  subst hx
  cases hioctl : ioctlAddr b ioremap off len with
  | none =>
    have hunreached := ioctlAddr_eq_none.mp hioctl
    refine iff_of_true disciplined_idle ⟨fun hslip => hunreached (Or.inr ?_),
      fun hreach => absurd hreach.2 hunreached⟩
    obtain ⟨hwin, -, hlen, -, hmap⟩ := hslip
    rwa [barOffset, if_pos hlen, if_neg hwin]
  | some place =>
    have hreached : crbAddr b off ≠ 0 ∨ remapPages b ioremap (barOffset b off) len ≠ 0 := by
      by_contra hnot
      rw [ioctlAddr_eq_none.mpr hnot] at hioctl
      cases hioctl
    refine (section_disciplined_iff (h place.2)).trans (and_congr (otherSide_iff hioctl) ?_)
    rw [hpieces]
    exact ⟨fun hkept hreach => hkept hreach.1, fun hkept hne => hkept ⟨hne, hreached⟩⟩

/-- **The accessors keep the discipline** just if the address does not slip and an access in
window 1 finds the window there.  Nothing is assumed of the call: any of the four accessors, with
any address, length and buffer, on any of the BARs, whatever `ioremap` answers and the registers
hold. -/
theorem accessor_disciplined_iff (b : Bars) (ioremap : BitVec 64 → Nat → BitVec 64)
    (regs : Registers) (w : CrbWindow) (off : BitVec 64) (c : CrbCall) :
    Disciplined off w (c.exec b ioremap regs w off) ↔
      ¬ c.Slips b ioremap off ∧
        (c.Reaches b ioremap off → AddrInWindow1 off → w.currWindow = 1) := by
  cases c with
  | writeWx data =>
    have hfst : (CrbCall.writeWx data).exec b ioremap regs w off = _ := apply_ite Prod.fst ..
    rw [hfst]
    exact (wx_disciplined_iff (allIn_map_writePiece _ _ _ [(0, 4)])).trans
      (and_iff_right id).symm
  | readWx =>
    have hfst : CrbCall.readWx.exec b ioremap regs w off = _ := apply_ite Prod.fst ..
    rw [hfst]
    exact (wx_disciplined_iff (allIn_map_readPiece _ _ _ [(0, 4)])).trans
      (and_iff_right id).symm
  | writeIoctl data len =>
    refine ioctl_disciplined_iff data (fun addr => (pieces len).map (writePiece data _ addr))
      (fun addr => allIn_map_writePiece ..) (fun addr => not_congr List.map_eq_nil_iff) ?_
    rw [CrbCall.exec, unmNicHwWriteIoctl128M]
    cases ioctlAddr b ioremap off len <;> rfl
  | readIoctl data len =>
    refine ioctl_disciplined_iff data (fun addr => (pieces len).map (readPiece regs _ addr))
      (fun addr => allIn_map_readPiece ..) (fun addr => not_congr List.map_eq_nil_iff) ?_
    rw [CrbCall.exec, unmNicHwReadIoctl128M]
    cases ioctlAddr b ioremap off len <;> rfl

end

/-- A 32 MB BAR, which has no first page group. -/
def bars32M : Bars where
  pciBase0 := 0
  pciBase1 := 0xffffc90000000000
  pciBase2 := 0xffffc90001000000
  pciLen0 := 0
  firstPageGroupStart := 0
  firstPageGroupEnd := 0
  resourceStart := 0xfa000000

/-- A read of four bytes at `0xe001000`, which is in neither window: the lock taken for writing
is let go of as one for reading, and the window stays at 0. -/
theorem readIoctl_slips :
    let x := (CrbCall.readIoctl (fun _ => 0) 4).exec bars32M (fun _ _ => 0xffffc90002000000)
      (fun _ _ => 0) ⟨1, 1⟩ 0xe001000
    locks x.trace = [.acquire .write, .release .read] ∧ x.window = ⟨0, 0⟩ ∧
      ¬ Disciplined 0xe001000 ⟨1, 1⟩ x := by
  have hlocks : locks ((CrbCall.readIoctl (fun _ => 0) 4).exec bars32M
      (fun _ _ => 0xffffc90002000000) (fun _ _ => 0) ⟨1, 1⟩ 0xe001000).trace =
        [.acquire .write, .release .read] := by
    decide +kernel
  refine ⟨hlocks, by decide +kernel, fun h => ?_⟩
  have hsettled := h.settled
  rw [hlocks] at hsettled
  cases settle_pair.mp hsettled

end Crb
end NxNic

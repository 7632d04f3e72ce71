import NxNic.Mem.Agents

/-! # Windows on the card memories

`unm_nic_pci_set_window_128M` and `unm_nic_pci_set_window_2M` move a window so that
an aperture of the BAR shows an address of the card, and return the place in the BAR;
`unm_nic_pci_is_same_window` checks the last byte of the access against the cached
window.

Which of the two moves the window goes by the BAR that the probe finds (`PciBar`), and
so does what the card shows behind it.  A P2 with a BAR of 32 MB gets the functions for
the BAR of 128 MB; its BAR is the larger one from `SECOND_PAGE_GROUP_START` on, where
there are registers and none of the apertures.  `shows` says which address of the card a
byte of the BAR is, by the window registers as they are at the moment.
-/
namespace NxNic
namespace Mem

/-- The functions for the 128M BAR and those for the 2M BAR. -/
inductive BarMode where
  | bar128M
  | bar2M
deriving DecidableEq

/-- The BARs that the probe accepts. -/
inductive PciBar where
  | mb128
  | mb32
  | mb2
deriving DecidableEq

/-- The functions that the probe takes for a BAR. -/
def PciBar.mode : PciBar → BarMode
  | .mb128 => .bar128M
  | .mb32 => .bar128M
  | .mb2 => .bar2M

/-- `mem_len`. -/
def PciBar.memLen : PciBar → Nat
  | .mb128 => 0x8000000
  | .mb32 => 0x2000000
  | .mb2 => 0x200000

def secondPageGroupStart : Nat := 0x6000000

/-- How much of the 128 MB comes before what is in the BAR. -/
def PciBar.skipped : PciBar → Nat
  | .mb128 => 0
  | .mb32 => secondPageGroupStart
  | .mb2 => 0

/-- `qdr_sn_window` and `ddr_mn_window` of the adapter, and what the window registers
of the card hold. -/
structure Windows where
  qdrSnWindow : BitVec 32
  ddrMnWindow : BitVec 32
  snReg : BitVec 32
  mnReg : BitVec 32
deriving DecidableEq

def unmAddrDdrNet : BitVec 64 := 0
def unmAddrOcm0 : BitVec 64 := 0x200000000
def unmAddrOcm0Max : BitVec 64 := 0x2000fffff
def unmAddrOcm1 : BitVec 64 := 0x200400000
def unmAddrOcm1Max : BitVec 64 := 0x2004fffff
def nxP2AddrQdrNetMax : BitVec 64 := 0x3001fffff

/-- Places in the BAR. -/
def unmPciDdrNet : BitVec 64 := 0
def unmPciQdrNet : BitVec 64 := 0x4000000
def unmPciOcm0 : BitVec 64 := 0x5000000
def unmPciOcm1 : BitVec 64 := 0x5100000
def unmPciMs2M : BitVec 64 := 0x80000
def unmPciOcm02M : BitVec 64 := 0xc0000

/-- `ADDR_IN_RANGE`. -/
def AddrInRange (addr low high : BitVec 64) : Prop := addr ≤ high ∧ low ≤ addr

instance (addr low high : BitVec 64) : Decidable (AddrInRange addr low high) :=
  inferInstanceAs (Decidable (_ ∧ _))

/-- `MN_WIN`, `OCM_WIN`, `MS_WIN` and `GET_MEM_OFFS_2M`. -/
def mnWin (addr : BitVec 64) : BitVec 32 :=
  (((addr &&& 0x1fc0000) >>> 1) ||| ((addr >>> 25) &&& 0x3ff)).setWidth 32

def ocmWin (addr : BitVec 64) : BitVec 32 :=
  (((addr &&& 0x1ff0000) >>> 1) ||| ((addr >>> 25) &&& 0x3ff)).setWidth 32

def msWin (addr : BitVec 64) : BitVec 32 := (addr &&& 0x0ffc0000).setWidth 32

def getMemOffs2M (addr : BitVec 64) : BitVec 64 := addr &&& 0x3ffff

/-- `qdr_max`. -/
def qdrMax (p2 : Bool) : BitVec 64 := if p2 then nxP2AddrQdrNetMax else nxP3AddrQdrNetMax

/-- The number of the 4 MB window of an address in the QDR. -/
def qdrWindow (addr : BitVec 64) : BitVec 32 :=
  (((addr - unmAddrQdrNet) >>> 22) &&& 0x3f).setWidth 32

/-- `unm_nic_pci_set_window_128M`; `none` where it calls `BUG`. -/
def unmNicPciSetWindow128M (p2 : Bool) (w : Windows) (addr : BitVec 64) :
    Option (BitVec 64 × Windows) :=
  if AddrInRange addr unmAddrDdrNet unmAddrDdrNetMax then none
  else if AddrInRange addr unmAddrOcm0 unmAddrOcm0Max then
    some (addr - unmAddrOcm0 + unmPciOcm0, w)
  else if AddrInRange addr unmAddrOcm1 unmAddrOcm1Max then
    some (addr - unmAddrOcm1 + unmPciOcm1, w)
  else if AddrInRange addr unmAddrQdrNet (qdrMax p2) then
    let window := qdrWindow addr
    let w :=
      if w.qdrSnWindow ≠ window then { w with qdrSnWindow := window, snReg := window <<< 22 }
      else w
    some (addr - unmAddrQdrNet - window.setWidth 64 * 0x400000 + unmPciQdrNet, w)
  else some (-1, w)

/-- `unm_nic_pci_set_window_2M`. -/
def unmNicPciSetWindow2M (w : Windows) (addr : BitVec 64) : BitVec 64 × Windows :=
  if AddrInRange addr unmAddrDdrNet unmAddrDdrNetMax then
    (getMemOffs2M addr + unmPciDdrNet, { w with ddrMnWindow := mnWin addr, mnReg := mnWin addr })
  else if AddrInRange addr unmAddrOcm0 unmAddrOcm0Max then
    -- the marker for an address that is not handled is an address like others below
    let addr := if addr &&& 0xff800 = 0xff800 then -1 else addr
    (getMemOffs2M addr + unmPciOcm02M, { w with ddrMnWindow := ocmWin addr, mnReg := ocmWin addr })
  else if AddrInRange addr unmAddrQdrNet nxP3AddrQdrNetMax then
    (getMemOffs2M addr + unmPciQdrNet, { w with qdrSnWindow := msWin addr, snReg := msWin addr })
  else (-1, w)

/-- `adapter->unm_nic_pci_set_window`. -/
def setWindow (mode : BarMode) (p2 : Bool) (w : Windows) (addr : BitVec 64) :
    Option (BitVec 64 × Windows) :=
  match mode with
  | .bar128M => unmNicPciSetWindow128M p2 w addr
  | .bar2M => some (unmNicPciSetWindow2M w addr)

/-- `unm_nic_pci_is_same_window`; `none` where it calls `BUG`. -/
def unmNicPciIsSameWindow (p2 : Bool) (w : Windows) (addr : BitVec 64) : Option Bool :=
  if AddrInRange addr unmAddrDdrNet unmAddrDdrNetMax then none
  else if AddrInRange addr unmAddrOcm0 unmAddrOcm0Max then some true
  else if AddrInRange addr unmAddrOcm1 unmAddrOcm1Max then some true
  else if AddrInRange addr unmAddrQdrNet (qdrMax p2) then
    some (decide (w.qdrSnWindow = qdrWindow addr))
  else some false

/-- The places that the driver keeps mapped, for which `pci_base_offset` is not 0. -/
def pciMapped (bar : PciBar) (off : BitVec 64) : Bool :=
  decide (bar = .mb128 ∧ off < 0x100000) || decide (0x6000000 ≤ off ∧ off < 0x68bc000) ||
    decide (0x70e4000 ≤ off ∧ off < 0x8000000)

/-! ## What the apertures show -/

/-- What the MN window register reads back for an OCM window: the number of the 256 KB
that it selects. -/
def ocmWinRead (window : BitVec 32) : BitVec 32 :=
  ((window &&& 0x1ff) <<< 7) ||| ((window &&& 0xfffe0000) >>> 17)

/-- The address of the card that a byte of the 128 MB shows. -/
def shows128M (w : Windows) (place : Nat) : Option Nat :=
  if unmPciQdrNet.toNat ≤ place ∧ place < unmPciQdrNet.toNat + 2 ^ 22 then
    some (unmAddrQdrNet.toNat + w.snReg.toNat + (place - unmPciQdrNet.toNat))
  else if unmPciOcm0.toNat ≤ place ∧ place < unmPciOcm0.toNat + 2 ^ 20 then
    some (unmAddrOcm0.toNat + (place - unmPciOcm0.toNat))
  else if unmPciOcm1.toNat ≤ place ∧ place < unmPciOcm1.toNat + 2 ^ 20 then
    some (unmAddrOcm1.toNat + (place - unmPciOcm1.toNat))
  else none

/-- The same with the functions of the 2M BAR.  The last 2 KB of its OCM aperture are
another one, of the queue manager. -/
def shows2M (w : Windows) (place : Nat) : Option Nat :=
  if unmPciMs2M.toNat ≤ place ∧ place < unmPciMs2M.toNat + 2 ^ 18 then
    some (unmAddrQdrNet.toNat + w.snReg.toNat + (place - unmPciMs2M.toNat))
  else if unmPciOcm02M.toNat ≤ place ∧ place < unmPciOcm02M.toNat + 0x3f800 then
    some ((ocmWinRead w.mnReg).toNat * 2 ^ 18 + (place - unmPciOcm02M.toNat))
  else none

/-- The address of the card that a byte of the BAR shows; behind the end of the BAR there
is none. -/
def shows (bar : PciBar) (w : Windows) (place : Nat) : Option Nat :=
  if place < bar.memLen then
    match bar.mode with
    | .bar128M => shows128M w (place + bar.skipped)
    | .bar2M => shows2M w place
  else none

/-! ## Addresses in numbers -/

theorem addrInRange_iff {addr low high : BitVec 64} :
    AddrInRange addr low high ↔ low.toNat ≤ addr.toNat ∧ addr.toNat ≤ high.toNat := by
  rw [AddrInRange, BitVec.le_def, BitVec.le_def, and_comm]

theorem inDdr_iff {addr : BitVec 64} :
    AddrInRange addr unmAddrDdrNet unmAddrDdrNetMax ↔ addr.toNat ≤ 0x0fffffff :=
  addrInRange_iff.trans (and_iff_right (Nat.zero_le _))

theorem inOcm0_iff {addr : BitVec 64} :
    AddrInRange addr unmAddrOcm0 unmAddrOcm0Max ↔
      0x200000000 ≤ addr.toNat ∧ addr.toNat ≤ 0x2000fffff :=
  addrInRange_iff

theorem inOcm1_iff {addr : BitVec 64} :
    AddrInRange addr unmAddrOcm1 unmAddrOcm1Max ↔
      0x200400000 ≤ addr.toNat ∧ addr.toNat ≤ 0x2004fffff :=
  addrInRange_iff

/-- The QDR of a P2 is the smaller one. -/
theorem inQdr_bounds {p2 : Bool} {addr : BitVec 64}
    (h : AddrInRange addr unmAddrQdrNet (qdrMax p2)) :
    0x300000000 ≤ addr.toNat ∧ addr.toNat ≤ 0x303ffffff := by
  obtain ⟨hlow, hhigh⟩ := addrInRange_iff.mp h
  have hmax : (qdrMax p2).toNat ≤ 0x303ffffff := by
    cases p2 <;> decide
  exact ⟨hlow, hhigh.trans hmax⟩

/-- An address is moved from one base to another. -/
theorem toNat_moved {addr base place : BitVec 64} (h : base.toNat ≤ addr.toNat)
    (hlt : place.toNat + (addr.toNat - base.toNat) < 2 ^ 64) :
    (addr - base + place).toNat = place.toNat + (addr.toNat - base.toNat) := by
  rw [BitVec.toNat_add, BitVec.toNat_sub]
  omega

theorem toNat_qdrWindow (addr : BitVec 64) (h : 0x300000000 ≤ addr.toNat)
    (h' : addr.toNat ≤ 0x303ffffff) :
    (qdrWindow addr).toNat = (addr.toNat - 0x300000000) / 2 ^ 22 := by
  have hnet : unmAddrQdrNet.toNat = 0x300000000 := rfl
  rw [qdrWindow, BitVec.toNat_setWidth, BitVec.toNat_and, BitVec.toNat_ushiftRight,
    Nat.shiftRight_eq_div_pow, BitVec.toNat_sub, hnet]
  have hfield := Nat.and_two_pow_sub_one_eq_mod
    ((2 ^ 64 - 0x300000000 + addr.toNat) % 2 ^ 64 / 2 ^ 22) 6
  change (_ &&& 63) % _ = _
  rw [show (63 : Nat) = 2 ^ 6 - 1 from rfl, hfield]
  omega

theorem toNat_getMemOffs2M (addr : BitVec 64) :
    (getMemOffs2M addr).toNat = addr.toNat % 2 ^ 18 := by
  rw [getMemOffs2M, BitVec.toNat_and]
  exact Nat.and_two_pow_sub_one_eq_mod addr.toNat 18

/-- The test for the queue manager. -/
theorem qm_iff (addr : BitVec 64) :
    addr &&& 0xff800 = 0xff800 ↔ 0xff800 ≤ addr.toNat % 2 ^ 20 := by
  have hfield : addr.toNat &&& 0xff800 = 2 ^ 11 * (addr.toNat / 2 ^ 11 % 2 ^ 9) :=
    Words.and_field addr.toNat 11 9
  constructor
  · intro h
    have hnat := congrArg BitVec.toNat h
    rw [BitVec.toNat_and] at hnat
    change addr.toNat &&& 0xff800 = 0xff800 at hnat
    omega
  · intro h
    refine BitVec.eq_of_toNat_eq ?_
    rw [BitVec.toNat_and]
    change addr.toNat &&& 0xff800 = 0xff800
    omega

/-- The window of an address in the OCM is the 256 KB that it is in. -/
theorem ocmWinRead_ocmWin {addr : BitVec 64} (h : AddrInRange addr unmAddrOcm0 unmAddrOcm0Max) :
    (ocmWinRead (ocmWin addr)).toNat = addr.toNat / 2 ^ 18 := by
  obtain ⟨hlow, hhigh⟩ := inOcm0_iff.mp h
  have hwin : (ocmWin addr).toNat = 2 ^ 15 * (addr.toNat / 2 ^ 16 % 2 ^ 9) + 2 ^ 8 := by
    rw [ocmWin, BitVec.toNat_setWidth, BitVec.toNat_or, BitVec.toNat_ushiftRight,
      BitVec.toNat_and, BitVec.toNat_and, BitVec.toNat_ushiftRight, Nat.shiftRight_eq_div_pow,
      Nat.shiftRight_eq_div_pow]
    change ((addr.toNat &&& 2 ^ 16 * (2 ^ 9 - 1)) / 2 ^ 1 |||
      (addr.toNat / 2 ^ 25 &&& (2 ^ 10 - 1))) % 2 ^ 32 = _
    rw [Words.and_field, Nat.and_two_pow_sub_one_eq_mod]
    have hhalf : 2 ^ 16 * (addr.toNat / 2 ^ 16 % 2 ^ 9) / 2 ^ 1 =
        2 ^ 15 * (addr.toNat / 2 ^ 16 % 2 ^ 9) := by omega
    have hpage : addr.toNat / 2 ^ 25 % 2 ^ 10 = 2 ^ 8 := by omega
    rw [hhalf, hpage, Words.or_field (by decide)]
    omega
  rw [ocmWinRead, BitVec.toNat_or, BitVec.toNat_shiftLeft, BitVec.toNat_ushiftRight,
    BitVec.toNat_and, BitVec.toNat_and, Nat.shiftRight_eq_div_pow, Nat.shiftLeft_eq]
  change ((ocmWin addr).toNat &&& (2 ^ 9 - 1)) * 2 ^ 7 % 2 ^ 32 |||
    ((ocmWin addr).toNat &&& 2 ^ 17 * (2 ^ 15 - 1)) / 2 ^ 17 = _
  rw [Words.and_field, Nat.and_two_pow_sub_one_eq_mod, hwin]
  have hhigh' : (2 ^ 15 * (addr.toNat / 2 ^ 16 % 2 ^ 9) + 2 ^ 8) % 2 ^ 9 * 2 ^ 7 % 2 ^ 32 =
      2 ^ 15 * 1 := by omega
  have hlow' : 2 ^ 17 * ((2 ^ 15 * (addr.toNat / 2 ^ 16 % 2 ^ 9) + 2 ^ 8) / 2 ^ 17 % 2 ^ 15) /
      2 ^ 17 = addr.toNat / 2 ^ 18 % 4 := by omega
  rw [hhigh', hlow', Words.or_field (by omega)]
  omega

/-! ## The check of the last byte -/

/-- Outside the DDR the check gives an answer, and if it is yes the address is in the OCM or
in the cached window. -/
theorem isSameWindow_cases (p2 : Bool) (w : Windows) {addr : BitVec 64}
    (hddr : 0x0fffffff < addr.toNat) :
    unmNicPciIsSameWindow p2 w addr = some false ∨
      unmNicPciIsSameWindow p2 w addr = some true ∧
        (AddrInRange addr unmAddrOcm0 unmAddrOcm0Max ∨
          AddrInRange addr unmAddrOcm1 unmAddrOcm1Max ∨
          AddrInRange addr unmAddrQdrNet (qdrMax p2) ∧ w.qdrSnWindow = qdrWindow addr) := by
  have hnot : ¬ AddrInRange addr unmAddrDdrNet unmAddrDdrNetMax := by
    rw [inDdr_iff]
    omega
  unfold unmNicPciIsSameWindow
  rw [if_neg hnot]
  split
  · rename_i h
    exact Or.inr ⟨rfl, Or.inl h⟩
  · split
    · rename_i h
      exact Or.inr ⟨rfl, Or.inr (Or.inl h)⟩
    · split
      · rename_i h
        by_cases hsame : w.qdrSnWindow = qdrWindow addr
        · exact Or.inr ⟨by rw [decide_eq_true hsame], Or.inr (Or.inr ⟨h, hsame⟩)⟩
        · exact Or.inl (by rw [decide_eq_false hsame])
      · exact Or.inl rfl

/-- The OCM is not windowed, as far as the check goes. -/
theorem isSameWindow_ocm {p2 : Bool} {w : Windows} {addr : BitVec 64}
    (h : AddrInRange addr unmAddrOcm0 unmAddrOcm0Max ∨
      AddrInRange addr unmAddrOcm1 unmAddrOcm1Max) :
    unmNicPciIsSameWindow p2 w addr = some true := by
  have hnot : ¬ AddrInRange addr unmAddrDdrNet unmAddrDdrNetMax := by
    rw [inOcm0_iff, inOcm1_iff] at h
    rw [inDdr_iff]
    omega
  unfold unmNicPciIsSameWindow
  rw [if_neg hnot]
  split
  · rfl
  · rename_i hnot0
    rw [if_pos (h.resolve_left hnot0)]

theorem isSameWindow_qdr {p2 : Bool} {w : Windows} {addr : BitVec 64}
    (h : AddrInRange addr unmAddrQdrNet (qdrMax p2)) :
    unmNicPciIsSameWindow p2 w addr = some true ↔ w.qdrSnWindow = qdrWindow addr := by
  have hlow := (inQdr_bounds h).1
  rw [unmNicPciIsSameWindow, if_neg (by rw [inDdr_iff]; omega), if_neg (by rw [inOcm0_iff]; omega),
    if_neg (by rw [inOcm1_iff]; omega), if_pos h, Option.some.injEq, decide_eq_true_eq]

/-- The apertures of the 128M BAR, in numbers. -/
theorem shows_mb128 (w : Windows) (place : Nat) :
    shows .mb128 w place =
      if 0x4000000 ≤ place ∧ place < 0x4400000 then
        some (0x300000000 + w.snReg.toNat + (place - 0x4000000))
      else if 0x5000000 ≤ place ∧ place < 0x5100000 then some (0x200000000 + (place - 0x5000000))
      else if 0x5100000 ≤ place ∧ place < 0x5200000 then some (0x200400000 + (place - 0x5100000))
      else none := by
  rw [shows]
  by_cases hin : place < PciBar.mb128.memLen
  · rw [if_pos hin]
    rfl
  · have hend : 0x8000000 ≤ place := not_lt.mp hin
    rw [if_neg hin, if_neg (by omega), if_neg (by omega), if_neg (by omega)]

/-- The 32 MB BAR has no apertures. -/
theorem shows_mb32 (w : Windows) (place : Nat) : shows .mb32 w place = none := by
  have hqdr : unmPciQdrNet.toNat = 0x4000000 := rfl
  have hocm0 : unmPciOcm0.toNat = 0x5000000 := rfl
  have hocm1 : unmPciOcm1.toNat = 0x5100000 := rfl
  have hskip : PciBar.mb32.skipped = 0x6000000 := rfl
  rw [shows]
  split
  · show shows128M w (place + PciBar.mb32.skipped) = none
    rw [shows128M, if_neg (by omega), if_neg (by omega), if_neg (by omega)]
  · rfl

/-- What the 2M BAR shows from the OCM aperture on. -/
theorem shows_mb2_iff {w : Windows} {place addr : Nat} (hplace : 0xc0000 ≤ place) :
    shows .mb2 w place = some addr ↔
      place < 0xff800 ∧ (ocmWinRead w.mnReg).toNat * 2 ^ 18 + (place - 0xc0000) = addr := by
  have hms : unmPciMs2M.toNat = 0x80000 := rfl
  have hocm : unmPciOcm02M.toNat = 0xc0000 := rfl
  have hlen : PciBar.mb2.memLen = 0x200000 := rfl
  rw [shows]
  by_cases hin : place < 0xff800
  · rw [if_pos (by omega)]
    show shows2M w place = some addr ↔ _
    rw [shows2M, if_neg (by omega), if_pos (by omega), Option.some.injEq, hocm,
      and_iff_right hin]
  · refine iff_of_false (fun h => ?_) fun h => hin h.1
    split at h
    · change shows2M w place = some addr at h
      rw [shows2M, if_neg (by omega), if_neg (by omega)] at h
      cases h
    · cases h

end Mem
end NxNic

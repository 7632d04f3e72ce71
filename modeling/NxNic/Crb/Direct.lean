import NxNic.Crb.Accessors
import NxNic.Lib.Effects

/-! # Registers through the 2M BAR

`unm_nic_pci_get_crb_addr_2M` finds a register in the 2M BAR: some sub-blocks of the CRB
space are mapped directly, the others are seen through a window under a semaphore of the
card.  For an address outside the space it gives -1, and its callers call `BUG_ON`.

A call is an `Effect` of `Lib/Effects`, which may crash and touches what it accesses.  The rules for
each accessor (`wp_hwAccess2M` and before it the lock and the window) say when it does neither.
-/
namespace NxNic
namespace Crb

def unmPciCamqm : BitVec 64 := 0x04800000
def unmPciCamqm2MEnd : BitVec 64 := 0x04800800
def unmPciCamqm2MBase : BitVec 64 := 0x000ff800

/-- An entry of `crb_128M_2M_map`. -/
structure SubBlock where
  start128M : BitVec 64
  end128M : BitVec 64
  start2M : BitVec 64
deriving DecidableEq

/-- `crb_128M_2M_map`, the valid entries.  Each stands at the block and sub-block of its
start. -/
def crb128M2MMap : List SubBlock :=
  [⟨0x100000, 0x102000, 0x120000⟩, ⟨0x110000, 0x120000, 0x130000⟩,
    ⟨0x120000, 0x122000, 0x124000⟩, ⟨0x130000, 0x132000, 0x126000⟩,
    ⟨0x140000, 0x142000, 0x128000⟩, ⟨0x150000, 0x152000, 0x12a000⟩,
    ⟨0x160000, 0x170000, 0x110000⟩, ⟨0x170000, 0x172000, 0x12e000⟩,
    ⟨0x1e0000, 0x1e0800, 0x122000⟩, ⟨0x200000, 0x210000, 0x180000⟩,
    ⟨0x400000, 0x401000, 0x169000⟩, ⟨0x500000, 0x510000, 0x140000⟩,
    ⟨0x600000, 0x610000, 0x1c0000⟩, ⟨0x700000, 0x704000, 0x1b8000⟩,
    ⟨0x800000, 0x802000, 0x170000⟩, ⟨0x8f0000, 0x8f2000, 0x172000⟩,
    ⟨0x900000, 0x902000, 0x174000⟩, ⟨0x9f0000, 0x9f2000, 0x176000⟩,
    ⟨0xaf0000, 0xaf2000, 0x17a000⟩, ⟨0xbf0000, 0xbf2000, 0x17e000⟩,
    ⟨0xc00000, 0xc04000, 0x1d4000⟩, ⟨0xd00000, 0xd04000, 0x1a4000⟩,
    ⟨0xe00000, 0xe04000, 0x1a0000⟩, ⟨0xf00000, 0xf01000, 0x164000⟩,
    ⟨0x1100000, 0x1101000, 0x160000⟩, ⟨0x1200000, 0x1201000, 0x161000⟩,
    ⟨0x1300000, 0x1301000, 0x162000⟩, ⟨0x1400000, 0x1401000, 0x163000⟩,
    ⟨0x1500000, 0x1501000, 0x165000⟩, ⟨0x1600000, 0x1601000, 0x166000⟩,
    ⟨0x1d00000, 0x1d10000, 0x190000⟩, ⟨0x1e00000, 0x1e01000, 0x16a000⟩,
    ⟨0x1f00000, 0x1f10000, 0x150000⟩, ⟨0x2100000, 0x2102000, 0x120000⟩,
    ⟨0x2110000, 0x2120000, 0x130000⟩, ⟨0x2120000, 0x2122000, 0x124000⟩,
    ⟨0x2130000, 0x2132000, 0x126000⟩, ⟨0x2140000, 0x2142000, 0x128000⟩,
    ⟨0x2150000, 0x2152000, 0x12a000⟩, ⟨0x2160000, 0x2170000, 0x110000⟩,
    ⟨0x2170000, 0x2172000, 0x12e000⟩, ⟨0x2200000, 0x2204000, 0x1b0000⟩,
    ⟨0x2800000, 0x2804000, 0x1a4000⟩, ⟨0x2900000, 0x2901000, 0x16b000⟩,
    ⟨0x2a00000, 0x2a00400, 0x1ac400⟩, ⟨0x2b00000, 0x2b00400, 0x1ac800⟩,
    ⟨0x2c00000, 0x2c00400, 0x1acc00⟩, ⟨0x2d00000, 0x2d00400, 0x1ad000⟩,
    ⟨0x2e00000, 0x2e00400, 0x1ad400⟩, ⟨0x2f00000, 0x2f00400, 0x1ad800⟩,
    ⟨0x3000000, 0x3000400, 0x1adc00⟩, ⟨0x3200000, 0x3204000, 0x1d4000⟩,
    ⟨0x3300000, 0x3304000, 0x1a0000⟩, ⟨0x3500000, 0x3500400, 0x1ac000⟩,
    ⟨0x3600000, 0x3600400, 0x1ae000⟩, ⟨0x3700000, 0x3700400, 0x1ae400⟩,
    ⟨0x3800000, 0x3804000, 0x1d0000⟩, ⟨0x3900000, 0x3904000, 0x1b4000⟩,
    ⟨0x3a00000, 0x3a04000, 0x1d8000⟩, ⟨0x3d00000, 0x3d04000, 0x1dc000⟩,
    ⟨0x3e00000, 0x3e01000, 0x167000⟩, ⟨0x3f00000, 0x3f01000, 0x168000⟩]

/-- The entry at `CRB_BLK(off)` and `CRB_SUBBLK(off)`. -/
def subBlock (off : BitVec 64) : Option SubBlock :=
  crb128M2MMap.find? fun m => (m.start128M >>> 16) &&& 0x3ff = (off >>> 16) &&& 0x3ff

/-- `unm_nic_pci_get_crb_addr_2M`: `none` for -1, else whether the window is needed, and what
`off` is then. -/
def unmNicPciGetCrbAddr2M (b : Bars) (off : BitVec 64) (len : BitVec 32) :
    Option (Bool × BitVec 64) :=
  let end1 := off + len.signExtend 64
  if unmCrbMax ≤ off then none
  else if unmPciCamqm ≤ off ∧ end1 ≤ unmPciCamqm2MEnd then
    some (false, off - unmPciCamqm + unmPciCamqm2MBase + b.pciBase0)
  else if off < unmPciCrbspace then none
  else
    let off := off - unmPciCrbspace
    let end1 := off + len.signExtend 64
    match subBlock off with
    | some m =>
      if m.start128M ≤ off ∧ end1 ≤ m.end128M then
        some (false, off + m.start2M - m.start128M + b.pciBase0)
      else some (true, off)
    | none => some (true, off)

/-- The ways in which a call ends badly: at a `BUG`, or with an index past the end of a local
array. -/
inductive Crash where
  | bug
  | overrun
deriving DecidableEq

section
variable {τ : Type}

/-- The address of a register, `BUG_ON` included. -/
def crbReg2M (b : Bars) (off : BitVec 64) (len : BitVec 32) : Effect τ Crash Bool :=
  match unmNicPciGetCrbAddr2M b off len with
  | none => .crash .bug
  | some (indirect, _) => pure indirect

def pcieSem7Lock : BitVec 64 := 0x611c038
def pcieSem7Unlock : BitVec 64 := 0x611c03c
def unmCrbWinLockId : BitVec 64 := 0x8202124

/-- `crb_win_lock` and `crb_win_unlock`, whose registers are mapped directly. -/
def crbWinLock (b : Bars) : Effect τ Crash Unit := do
  let _ ← crbReg2M b pcieSem7Lock 4
  let _ ← crbReg2M b unmCrbWinLockId 4
  pure ()

def crbWinUnlock (b : Bars) : Effect τ Crash Unit := do
  let _ ← crbReg2M b pcieSem7Unlock 4
  pure ()

/-- The frame of `unm_nic_hw_read_wx_2M`, `unm_nic_hw_write_wx_2M` and the two functions of
the ioctl, around the access. -/
def hwAccess2M (b : Bars) (off : BitVec 64) (len : BitVec 32) (access : Effect τ Crash Unit) :
    Effect τ Crash Unit := do
  let indirect ← crbReg2M b off len
  if indirect then
    crbWinLock b
    access
    crbWinUnlock b
  else access

/-- The address is one that `unm_nic_pci_get_crb_addr_2M` knows. -/
def Known2M (off : BitVec 64) (len : BitVec 32) : Prop :=
  off < unmCrbMax ∧
    (unmPciCrbspace ≤ off ∨ unmPciCamqm ≤ off ∧ off + len.signExtend 64 ≤ unmPciCamqm2MEnd)

instance (off : BitVec 64) (len : BitVec 32) : Decidable (Known2M off len) :=
  inferInstanceAs (Decidable (_ ∧ _))

theorem getCrbAddr2M_eq_none {b : Bars} {off : BitVec 64} {len : BitVec 32} :
    unmNicPciGetCrbAddr2M b off len = none ↔ ¬ Known2M off len := by
  rw [unmNicPciGetCrbAddr2M, Known2M]
  by_cases hmax : unmCrbMax ≤ off
  · rw [if_pos hmax]
    exact iff_of_true rfl fun h => BitVec.not_lt.mpr hmax h.1
  · have hlt : off < unmCrbMax := BitVec.not_le.mp hmax
    rw [if_neg hmax, and_iff_right hlt]
    by_cases hcamqm : unmPciCamqm ≤ off ∧ off + len.signExtend 64 ≤ unmPciCamqm2MEnd
    · rw [if_pos hcamqm]
      exact iff_of_false nofun fun h => h (Or.inr hcamqm)
    · rw [if_neg hcamqm, or_iff_left hcamqm]
      by_cases hspace : off < unmPciCrbspace
      · rw [if_pos hspace]
        exact iff_of_true rfl (BitVec.not_le.mpr hspace)
      · rw [if_neg hspace]
        refine iff_of_false (fun h => ?_) fun h => h (BitVec.not_lt.mp hspace)
        simp only at h
        split at h
        · split at h <;> cases h
        · cases h

variable {P : τ → Prop} {b : Bars} {off : BitVec 64} {len : BitVec 32}

theorem wp_crbReg2M {Q : Bool → Prop} :
    Effect.wp P Q (crbReg2M b off len : Effect τ Crash Bool) ↔
      ∃ r, unmNicPciGetCrbAddr2M b off len = some r ∧ Q r.1 := by
  rw [crbReg2M]
  cases unmNicPciGetCrbAddr2M b off len with
  | none => exact iff_of_false Effect.wp_crash nofun
  | some r => simp

/-- The registers of the semaphore are there. -/
theorem wp_crbReg2M_known {R : Prop} (h : Known2M off len) :
    Effect.wp P (fun _ => R) (crbReg2M b off len : Effect τ Crash Bool) ↔ R := by
  rw [wp_crbReg2M]
  cases haddr : unmNicPciGetCrbAddr2M b off len with
  | none => exact absurd h (getCrbAddr2M_eq_none.mp haddr)
  | some r => simp

theorem wp_crbReg2M_unknown {Q : Bool → Prop} (h : ¬ Known2M off len) :
    ¬ Effect.wp P Q (crbReg2M b off len : Effect τ Crash Bool) := by
  rw [wp_crbReg2M, getCrbAddr2M_eq_none.mpr h]
  exact nofun

theorem wp_crbWinLock {Q : Unit → Prop} :
    Effect.wp P Q (crbWinLock b : Effect τ Crash Unit) ↔ Q () := by
  rw [crbWinLock, Effect.wp_bind]
  simp only [Effect.wp_bind, Effect.wp_pure]
  rw [wp_crbReg2M_known (by decide), wp_crbReg2M_known (by decide)]

theorem wp_crbWinUnlock {Q : Unit → Prop} :
    Effect.wp P Q (crbWinUnlock b : Effect τ Crash Unit) ↔ Q () := by
  rw [crbWinUnlock, Effect.wp_bind]
  simp only [Effect.wp_pure]
  rw [wp_crbReg2M_known (by decide)]

/-- **An access through the 2M BAR** is as good as its address and itself. -/
theorem wp_hwAccess2M {access : Effect τ Crash Unit} {Q : Unit → Prop} :
    Effect.wp P Q (hwAccess2M b off len access) ↔ Known2M off len ∧ Effect.wp P Q access := by
  rw [hwAccess2M, Effect.wp_bind]
  by_cases hknown : Known2M off len
  · rw [and_iff_right hknown]
    have hsame : (fun indirect : Bool => Effect.wp P Q (if indirect then do
        crbWinLock b
        access
        crbWinUnlock b
      else access)) = fun _ => Effect.wp P Q access := by
      funext indirect
      cases indirect with
      | false => rfl
      | true =>
        refine propext ?_
        show Effect.wp P Q (crbWinLock b >>= fun _ => access >>= fun _ => crbWinUnlock b) ↔ _
        rw [Effect.wp_bind, wp_crbWinLock, Effect.wp_bind]
        simp only [wp_crbWinUnlock]
    rw [hsame, wp_crbReg2M_known hknown]
  · exact iff_of_false (wp_crbReg2M_unknown hknown) fun h => hknown h.1

end

end Crb
end NxNic

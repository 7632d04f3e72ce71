import NxNic.Load.InitTable

/-! # The two addresses of a register

A register has an address of the chip's own, which names its hub and agent, and one in the
register space of the PCI functions.  `decode_crb_addr` finds the second for the first, and
`crb_pci_to_internal` the first for the second.

Both use the map of `Load/InitTable`, the one by a search for the hub and agent and the other by
the number of the window.  A window that no agent is mapped to has 0 there, and so has the search
an answer for hub and agent 0.  `Mapped` and `Internal` leave those out, and between the two sets
of addresses the functions are inverse to each other: `crbPciToInternal_iff`.
-/
namespace NxNic
namespace Load

/-- `crb_pci_to_internal` -/
def crbPciToInternal (addr : BitVec 64) : BitVec 64 :=
  let addr := addr - unmPciCrbspace
  crbAddrXform (addr >>> 20 &&& 0x3f).toNat + (addr &&& 0xfffff)

/-- The register is in the window of an agent. -/
def Mapped (off : BitVec 64) : Prop :=
  ∃ t ∈ crbAddrTransforms, ∃ o < 2 ^ 20, off = unmPciCrbWindow t.1 + BitVec.ofNat 64 o

/-- The chip's own address of a register of an agent. -/
def Internal (addr : BitVec 64) : Prop := addr.toNat < 2 ^ 32 ∧ Present addr

/-- Each agent is in the map once, and its window is below 64 and its address a whole number of
windows. -/
theorem crbAddrXform_slot : ∀ t ∈ crbAddrTransforms,
    crbAddrXform t.1 = t.2 ∧ t.1 < 64 ∧ t.2.toNat < 2 ^ 32 ∧ t.2.toNat % 2 ^ 20 = 0 := by
  decide +kernel

theorem toNat_baseAddr (addr : BitVec 64) :
    (baseAddr addr).toNat = 2 ^ 20 * (addr.toNat / 2 ^ 20 % 2 ^ 12) := by
  rw [baseAddr, BitVec.toNat_and]
  exact Words.and_field addr.toNat 20 12

theorem toNat_window_add {w o : Nat} (hw : w < 64) (ho : o < 2 ^ 20) :
    (unmPciCrbWindow w + BitVec.ofNat 64 o).toNat = 0x06000000 + 2 ^ 20 * w + o := by
  rw [unmPciCrbWindow, BitVec.toNat_add, BitVec.toNat_add, BitVec.toNat_ofNat, BitVec.toNat_ofNat]
  show ((0x06000000 + w * 0x100000 % 2 ^ 64) % 2 ^ 64 + o % 2 ^ 64) % 2 ^ 64 = _
  omega

/-- The chip's own address of a register in a window. -/
theorem toNat_crbPciToInternal {t : Nat × BitVec 64} (ht : t ∈ crbAddrTransforms) {o : Nat}
    (ho : o < 2 ^ 20) :
    (crbPciToInternal (unmPciCrbWindow t.1 + BitVec.ofNat 64 o)).toNat = t.2.toNat + o := by
  obtain ⟨hslot, hw, hlt, -⟩ := crbAddrXform_slot t ht
  have hsub : (unmPciCrbWindow t.1 + BitVec.ofNat 64 o - unmPciCrbspace).toNat =
      2 ^ 20 * t.1 + o := by
    rw [BitVec.toNat_sub_of_le, toNat_window_add hw ho]
    · show 0x06000000 + 2 ^ 20 * t.1 + o - 0x06000000 = _
      omega
    · rw [BitVec.le_def, toNat_window_add hw ho]
      show 0x06000000 ≤ _
      omega
  have hwindow : ((unmPciCrbWindow t.1 + BitVec.ofNat 64 o - unmPciCrbspace) >>> 20 &&&
      0x3f).toNat = t.1 := by
    rw [BitVec.toNat_and, BitVec.toNat_ushiftRight, hsub, Nat.shiftRight_eq_div_pow]
    show (2 ^ 20 * t.1 + o) / 2 ^ 20 &&& 2 ^ 6 - 1 = t.1
    rw [Nat.and_two_pow_sub_one_eq_mod]
    omega
  have hoffset : ((unmPciCrbWindow t.1 + BitVec.ofNat 64 o - unmPciCrbspace) &&&
      0xfffff).toNat = o := by
    rw [BitVec.toNat_and, hsub]
    show 2 ^ 20 * t.1 + o &&& 2 ^ 20 - 1 = o
    rw [Nat.and_two_pow_sub_one_eq_mod]
    omega
  rw [crbPciToInternal, hwindow, hslot, BitVec.toNat_add, hoffset]
  omega

/-- Where `decode_crb_addr` puts an address of the agent. -/
theorem decodeCrbAddr_eq {t : Nat × BitVec 64} (ht : t ∈ crbAddrTransforms) {addr : BitVec 64}
    (hbase : t.2 = baseAddr addr) :
    decodeCrbAddr addr + unmPciCrbspace =
      unmPciCrbWindow t.1 + BitVec.ofNat 64 (addr.toNat % 2 ^ 20) := by
  obtain ⟨t', ht', hbase', hoff⟩ := decodeCrbAddr_of_present ⟨t, ht, hbase⟩
  have hslot : t'.1 = t.1 := by
    have hfind := find?_slot t ht
    rw [hbase, ← hbase', find?_slot t' ht'] at hfind
    exact Option.some.inj hfind
  have hw := (crbAddrXform_slot t ht).2.1
  rw [hoff, hslot]
  apply BitVec.eq_of_toNat_eq
  rw [toNat_window_add hw (Nat.mod_lt _ (by decide)), BitVec.toNat_add, BitVec.toNat_add,
    toNat_windowOffset, BitVec.toNat_ofNat, Nat.shiftLeft_eq]
  show ((t.1 * 2 ^ 20 % 2 ^ 64 + addr.toNat % 2 ^ 20) % 2 ^ 64 + 0x06000000) % 2 ^ 64 = _
  omega

/-- **The two addresses**: what `crb_pci_to_internal` makes of the registers of the agents are
the chip's own addresses of them, and `decode_crb_addr` undoes it, and the other way round. -/
theorem crbPciToInternal_iff {off addr : BitVec 64} :
    Mapped off ∧ crbPciToInternal off = addr ↔
      Internal addr ∧ decodeCrbAddr addr + unmPciCrbspace = off := by
  constructor
  · rintro ⟨⟨t, ht, o, ho, rfl⟩, rfl⟩
    obtain ⟨-, hw, hlt, haligned⟩ := crbAddrXform_slot t ht
    have hnat := toNat_crbPciToInternal ht ho
    have hbase : t.2 = baseAddr (crbPciToInternal (unmPciCrbWindow t.1 + BitVec.ofNat 64 o)) := by
      apply BitVec.eq_of_toNat_eq
      rw [toNat_baseAddr, hnat]
      omega
    have hmod : (t.2.toNat + o) % 2 ^ 20 = o := by omega
    refine ⟨⟨by rw [hnat]; omega, t, ht, hbase⟩, ?_⟩
    rw [decodeCrbAddr_eq ht hbase, hnat, hmod]
  · rintro ⟨⟨hlt, t, ht, hbase⟩, rfl⟩
    have ho : addr.toNat % 2 ^ 20 < 2 ^ 20 := Nat.mod_lt _ (by decide)
    rw [decodeCrbAddr_eq ht hbase]
    refine ⟨⟨t, ht, _, ho, rfl⟩, ?_⟩
    apply BitVec.eq_of_toNat_eq
    rw [toNat_crbPciToInternal ht ho, hbase, toNat_baseAddr]
    omega

end Load
end NxNic

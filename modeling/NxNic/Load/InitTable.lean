import NxNic.Tool.Eeprom
import NxNic.Load.Firmware

/-! # The initialisation table of the flash

`pinit_from_rom` reads a table of register addresses and values from the flash and writes it to
the registers.  The addresses are the chip's own; `decode_crb_addr` looks their hub and agent up
in a map from windows of the register space.  A window that no agent is mapped to has 0 in the
map, and an address that is not found is marked by a value that the loop compares with only after
it has added the base of the register space.

A `Chip` is all that a call depends on: the revision, the answer of the flash to each read, what
is in the variable for the number of entries at first, whether there is memory for the table.
What the call does is its writes, before the table, of the table and after it (`Pinit`).

`WritesDecoded` is the property of the table's writes: each is that of an entry at the register
its address stands for, an entry whose address stands for none is not written, and without a valid
header nothing is.  `Present` is the condition on an entry, that its hub and agent are in the map.
A round of the loop is settled by `decode_crb_addr` on present and on other addresses, and
`writesDecoded_iff` follows for the whole table.
-/
namespace NxNic
namespace Load
open Tool

/-! ## Decoding an address -/

/-- The hubs. -/
def hub0 : Nat := 0x05
def hub1 : Nat := 0x0e
def hub2 : Nat := 0x03
def hub3 : Nat := 0x01
def hub4 : Nat := 0x06
def hub5 : Nat := 0x07
def hub6 : Nat := 0x08

/-- `UNM_HW_CRB_HUB_AGT_ADR_*`, shifted to its place in an address. -/
def hubAgtAdr (hub agt : Nat) : BitVec 64 := BitVec.ofNat 64 ((hub <<< 7 ||| agt) <<< 20)

/-- `crb_addr_transform_setup`: the window of each agent. -/
def crbAddrTransforms : List (Nat × BitVec 64) :=
  [ -- XDMA, TIMR, SRE
    (49, hubAgtAdr hub6 0x05), (40, hubAgtAdr hub6 0x17), (5, hubAgtAdr hub3 0x50),
    -- SQN3, SQN2, SQN1
    (11, hubAgtAdr hub3 0x63), (10, hubAgtAdr hub3 0x62), (9, hubAgtAdr hub3 0x61),
    -- SQN0, SQS3, SQS2
    (8, hubAgtAdr hub3 0x60), (16, hubAgtAdr hub1 0x04), (15, hubAgtAdr hub1 0x03),
    -- SQS1, SQS0, RPMX7
    (14, hubAgtAdr hub1 0x02), (13, hubAgtAdr hub1 0x01), (48, hubAgtAdr hub1 0x0f),
    -- RPMX6, RPMX5, RPMX4
    (47, hubAgtAdr hub3 0x0e), (46, hubAgtAdr hub3 0x0d), (45, hubAgtAdr hub1 0x0c),
    -- RPMX3, RPMX2, RPMX1
    (44, hubAgtAdr hub1 0x0b), (43, hubAgtAdr hub1 0x0a), (42, hubAgtAdr hub3 0x09),
    -- RPMX0, ROMUSB, SN
    (53, hubAgtAdr hub3 0x08), (51, hubAgtAdr hub6 0x21), (29, hubAgtAdr hub6 0x10),
    -- QMN, QMS, PGNI
    (7, hubAgtAdr hub3 0x66), (12, hubAgtAdr hub1 0x00), (22, hubAgtAdr hub4 0x44),
    -- PGND, PGN3, PGN2
    (21, hubAgtAdr hub4 0x45), (20, hubAgtAdr hub4 0x43), (19, hubAgtAdr hub4 0x42),
    -- PGN1, PGN0, PGSI
    (18, hubAgtAdr hub4 0x41), (17, hubAgtAdr hub4 0x40), (28, hubAgtAdr hub5 0x44),
    -- PGSD, PGS3, PGS2
    (27, hubAgtAdr hub5 0x45), (26, hubAgtAdr hub5 0x43), (25, hubAgtAdr hub5 0x42),
    -- PGS1, PGS0, PS
    (24, hubAgtAdr hub5 0x41), (23, hubAgtAdr hub5 0x40), (1, hubAgtAdr hub1 0x73),
    -- PH, NIU, I2Q
    (0, hubAgtAdr hub0 0x1a), (6, hubAgtAdr hub2 0x31), (50, hubAgtAdr hub6 0x20),
    -- EG, MN, MS
    (31, hubAgtAdr hub3 0x51), (2, hubAgtAdr hub0 0x15), (3, hubAgtAdr hub0 0x25),
    -- CAS2, CAS1, CAS0
    (37, hubAgtAdr hub3 0x48), (36, hubAgtAdr hub3 0x47), (35, hubAgtAdr hub3 0x46),
    -- CAM, C2C1, C2C0
    (34, hubAgtAdr hub6 0x16), (39, hubAgtAdr hub1 0x59), (38, hubAgtAdr hub1 0x58),
    -- SMB, OCM0, I2C0
    (58, hubAgtAdr hub1 0x18), (56, hubAgtAdr hub6 0x06), (59, hubAgtAdr hub2 0x19)]

/-- `MAX_CRB_XFORM`. -/
def maxCrbXform : Nat := 60

/-- `crb_addr_xform`. -/
def crbAddrXform (i : Nat) : BitVec 64 :=
  match crbAddrTransforms.find? fun t => t.1 = i with
  | some t => t.2
  | none => 0

/-- `ADDR_ERROR`. -/
def addrError : BitVec 64 := 0xffffffff

/-- The hub and agent of an address, and its offset in the agent's window. -/
def baseAddr (addr : BitVec 64) : BitVec 64 := addr &&& 0xfff00000
def windowOffset (addr : BitVec 64) : BitVec 64 := addr &&& 0x000fffff

/-- `decode_crb_addr`. -/
def decodeCrbAddr (addr : BitVec 64) : BitVec 64 :=
  let pciBase :=
    match (List.range maxCrbXform).find? fun i => crbAddrXform i = baseAddr addr with
    | some i => BitVec.ofNat 64 (i <<< 20)
    | none => addrError
  if pciBase = addrError then pciBase else pciBase + windowOffset addr

/-! ## Registers -/

/-- `UNM_PCI_CRBSPACE`. -/
def unmPciCrbspace : BitVec 64 := 0x06000000

/-- `UNM_PCI_CRB_WINDOW`. -/
def unmPciCrbWindow (i : Nat) : BitVec 64 := unmPciCrbspace + BitVec.ofNat 64 (i * 0x100000)

def unmCrbPcie : BitVec 64 := unmPciCrbWindow 1
def unmCrbDdrNet : BitVec 64 := unmPciCrbWindow 2
def unmCrbPegNet1 : BitVec 64 := unmPciCrbWindow 18
def unmCrbCam : BitVec 64 := unmPciCrbWindow 34
def romusbGlb : BitVec 64 := unmPciCrbWindow 51
def unmCrbSmb : BitVec 64 := unmPciCrbWindow 58

/-- `UNM_CAM_RAM(0x1fc)`, for the magic number of a cold reboot. -/
def camRamMagic : BitVec 64 := unmCrbCam + 0x02000 + 0x1fc

def unmRomusbGlbSwReset : BitVec 64 := romusbGlb + 0x0008
def pcieSetupFunction : BitVec 64 := unmCrbPcie + 0x12040
def pcieSetupFunction2 : BitVec 64 := unmCrbPcie + 0x12048

/-! ## The table -/

/-- `struct crb_addr_pair`; both come from an `int`. -/
structure CrbAddrPair where
  addr : BitVec 64
  data : BitVec 64
  deriving DecidableEq

/-- A write to a register. -/
structure RegWrite where
  off : BitVec 64
  data : BitVec 32
  deriving DecidableEq

/-- The registers that the loop leaves alone. -/
def skips (revision : Nat) (off : BitVec 64) : Bool :=
  off = camRamMagic ||
    nxIsRevisionP3 revision &&
      (off = romusbGlb + 0xbc || off = pcieSetupFunction || off = pcieSetupFunction2 ||
        off &&& 0x0ff00000 = unmCrbSmb || off &&& 0x0ff00000 = unmCrbDdrNet) ||
    off = addrError

/-- What is written instead of the table's value. -/
def patched (revision : Nat) (off data : BitVec 64) : BitVec 64 :=
  if nxIsRevisionP3 revision && off = unmCrbPegNet1 + 0x18 then 0x1020
  else if nxIsRevisionP2 revision && off = unmRomusbGlbSwReset then 0x8000ff
  else data

/-- A turn of the loop over the table. -/
def initWrite (revision : Nat) (e : CrbAddrPair) : Option RegWrite :=
  let off := decodeCrbAddr e.addr + unmPciCrbspace
  if skips revision off then none else some ⟨off, (patched revision off e.data).setWidth 32⟩

/-- What the header says, and how many reads that took. -/
structure Header where
  offset : Nat
  n : BitVec 32
  reads : Nat

/-- The header: the answers to the reads of the flash, by their number and address, and what `n`
holds before. -/
def readHeader (rom : Nat → Nat → RomAnswer) (revision : Nat) (n : BitVec 32) : Option Header :=
  let r₀ := romFastRead (rom 0 0) n
  if nxIsRevisionP3 revision then
    if r₀.1 ≠ 0 ∨ r₀.2 ≠ 0xcafecafe then none
    else
      let r₁ := romFastRead (rom 1 4) r₀.2
      if r₁.1 ≠ 0 then none
      else some ⟨(r₁.2 &&& 0xffff).toNat, r₁.2 >>> 16 &&& 0xffff, 2⟩
  else if r₀.1 = 0 ∧ r₀.2.setWidth 64 &&& 0x800000000 ≠ 0#64 then none
  else some ⟨1, r₀.2 &&& ~~~0x80000000#32, 1⟩

/-- The loop that reads the pairs, from pair `i` on, with so many left; nothing if a read fails. -/
def readPairs (rom : Nat → Nat → RomAnswer) (h : Header) : Nat → Nat → Option (List CrbAddrPair)
  | _, 0 => some []
  | i, left + 1 =>
    let val := romFastRead (rom (h.reads + 2 * i) (8 * i + 4 * h.offset)) 0
    let addr := romFastRead (rom (h.reads + 2 * i + 1) (8 * i + 4 * h.offset + 4)) 0
    if val.1 ≠ 0 ∨ addr.1 ≠ 0 then none
    else
      (readPairs rom h (i + 1) left).map fun rest =>
        ⟨addr.2.signExtend 64, val.2.signExtend 64⟩ :: rest

/-- What a call of `pinit_from_rom` depends on: the revision of the chip, the answers of the
flash, what the variable `n` holds at first, whether `kmalloc` succeeds, and the reset register
when it is read. -/
structure Chip where
  revision : Nat
  rom : Nat → Nat → RomAnswer
  n : BitVec 32
  kmalloc : Bool
  swReset : BitVec 32

/-- The table, if it comes to writing it. -/
def initTable (chip : Chip) : Option (List CrbAddrPair) :=
  match readHeader chip.rom chip.revision chip.n with
  | none => none
  | some h =>
    if 1024 ≤ h.n.toNat then none
    else if !chip.kmalloc then none
    else readPairs chip.rom h 0 h.n.toNat

/-- What a call does: its result, and the writes before the table, of the table and after it. -/
structure Pinit where
  rv : Int
  before : List RegWrite
  table : List RegWrite
  after : List RegWrite

/-- The writes after the table. -/
def afterTable (chip : Chip) : List RegWrite :=
  (if nxIsRevisionP2 chip.revision then [⟨unmRomusbGlbSwReset, chip.swReset &&& 0xffffff0f⟩]
    else []) ++
  [⟨unmPciCrbWindow 21 + 0xec, 0x1e⟩, ⟨unmPciCrbWindow 21 + 0x4c, 8⟩,
    ⟨unmPciCrbWindow 22 + 0x4c, 8⟩, ⟨unmPciCrbWindow 17 + 0x8, 0⟩, ⟨unmPciCrbWindow 17 + 0xc, 0⟩,
    ⟨unmPciCrbWindow 18 + 0x8, 0⟩, ⟨unmPciCrbWindow 18 + 0xc, 0⟩, ⟨unmPciCrbWindow 19 + 0x8, 0⟩,
    ⟨unmPciCrbWindow 19 + 0xc, 0⟩, ⟨unmPciCrbWindow 20 + 0x8, 0⟩, ⟨unmPciCrbWindow 20 + 0xc, 0⟩]

/-- `pinit_from_rom`. -/
def pinitFromRom (chip : Chip) : Pinit :=
  let before := [⟨unmRomusbGlbSwReset, 0xffffffff⟩]
  match initTable chip with
  | none => ⟨-1, before, [], []⟩
  | some es => ⟨0, before, es.filterMap (initWrite chip.revision), afterTable chip⟩

/-! ## What the map says -/

/-- The hub and agent of an address are in the map. -/
def Present (addr : BitVec 64) : Prop := ∃ t ∈ crbAddrTransforms, t.2 = baseAddr addr

/-- The register that an address stands for. -/
def DecodesTo (addr off : BitVec 64) : Prop :=
  ∃ t ∈ crbAddrTransforms, t.2 = baseAddr addr ∧
    off = BitVec.ofNat 64 (t.1 <<< 20) + windowOffset addr + unmPciCrbspace

instance decidablePresent (addr : BitVec 64) : Decidable (Present addr) :=
  inferInstanceAs (Decidable (∃ t ∈ crbAddrTransforms, t.2 = baseAddr addr))

theorem find?_slot : ∀ t ∈ crbAddrTransforms,
    ((List.range maxCrbXform).find? fun i => crbAddrXform i = t.2) = some t.1 := by
  decide +kernel

theorem find?_empty :
    ((List.range maxCrbXform).find? fun i => crbAddrXform i = 0) = some 4 := by
  decide +kernel

theorem slot_ne_addrError : ∀ t ∈ crbAddrTransforms, BitVec.ofNat 64 (t.1 <<< 20) ≠ addrError := by
  decide +kernel

/-- What is in a slot is an agent of the map, or the slot is empty. -/
theorem crbAddrXform_cases (i : Nat) :
    (∃ t ∈ crbAddrTransforms, t.2 = crbAddrXform i) ∨ crbAddrXform i = 0 := by
  rw [crbAddrXform]
  cases hf : crbAddrTransforms.find? fun t => t.1 = i with
  | none => exact .inr rfl
  | some t => exact .inl ⟨t, List.mem_of_find?_eq_some hf, rfl⟩

theorem decodeCrbAddr_of_present {addr : BitVec 64} (h : Present addr) :
    DecodesTo addr (decodeCrbAddr addr + unmPciCrbspace) := by
  obtain ⟨t, ht, hb⟩ := h
  refine ⟨t, ht, hb, ?_⟩
  have hf := find?_slot t ht
  rw [hb] at hf
  rw [decodeCrbAddr]
  simp only [hf]
  rw [if_neg (slot_ne_addrError t ht)]

/-- An address that is not in the map comes out as one of the first empty slot, or as the
marker. -/
theorem decodeCrbAddr_of_not_present {addr : BitVec 64} (h : ¬Present addr) :
    decodeCrbAddr addr = 0x400000 + windowOffset addr ∨ decodeCrbAddr addr = addrError := by
  by_cases hb : baseAddr addr = 0
  · left
    rw [decodeCrbAddr, hb]
    simp only [find?_empty]
    rfl
  · right
    have hf : ((List.range maxCrbXform).find? fun i => crbAddrXform i = baseAddr addr) = none := by
      rw [List.find?_eq_none]
      intro i _ hi
      have hi : crbAddrXform i = baseAddr addr := of_decide_eq_true hi
      cases crbAddrXform_cases i with
      | inl ht =>
        obtain ⟨t, ht, he⟩ := ht
        exact h ⟨t, ht, he.trans hi⟩
      | inr h0 => exact hb (hi.symm.trans h0)
    rw [decodeCrbAddr]
    simp only [hf, if_true]

theorem toNat_windowOffset (addr : BitVec 64) :
    (windowOffset addr).toNat = addr.toNat % 2 ^ 20 := by
  rw [windowOffset, BitVec.toNat_and]
  exact Nat.and_two_pow_sub_one_eq_mod addr.toNat 20

/-- The window of a register, which two of the tests look at. -/
theorem toNat_window (off : BitVec 64) :
    (off &&& 0x0ff00000).toNat = 2 ^ 20 * (off.toNat / 2 ^ 20 % 2 ^ 8) := by
  rw [BitVec.toNat_and]
  exact Words.and_field off.toNat 20 8

/-- **What could not be decoded is not left alone**: neither the marker, once the base of the
register space is added to it, nor a register of the empty slot is one of those that the loop
skips. -/
theorem skips_of_not_present (revision : Nat) {addr : BitVec 64} (h : ¬Present addr) :
    skips revision (decodeCrbAddr addr + unmPciCrbspace) = false := by
  have hw : ∀ off : BitVec 64, off.toNat / 2 ^ 20 = 100 ∨ off.toNat = 0x105ffffff →
      skips revision off = false := by
    intro off hoff
    have hne : ∀ r : BitVec 64, r.toNat / 2 ^ 20 ≠ 100 → r.toNat ≠ 0x105ffffff → off ≠ r := by
      intro r h₁ h₂ he
      subst he
      exact hoff.elim h₁ h₂
    have hwin : ∀ r : BitVec 64, r.toNat ≠ 2 ^ 20 * 100 → r.toNat ≠ 2 ^ 20 * 95 →
        off &&& 0x0ff00000 ≠ r := by
      intro r h₁ h₂ he
      have hv := toNat_window off
      rw [he] at hv
      omega
    have h₁ := hne camRamMagic (by decide) (by decide)
    have h₂ := hne (romusbGlb + 0xbc) (by decide) (by decide)
    have h₃ := hne pcieSetupFunction (by decide) (by decide)
    have h₄ := hne pcieSetupFunction2 (by decide) (by decide)
    have h₅ := hwin unmCrbSmb (by decide) (by decide)
    have h₆ := hwin unmCrbDdrNet (by decide) (by decide)
    have h₇ := hne addrError (by decide) (by decide)
    rw [skips, decide_eq_false h₁, decide_eq_false h₂, decide_eq_false h₃, decide_eq_false h₄,
      decide_eq_false h₅, decide_eq_false h₆, decide_eq_false h₇]
    cases nxIsRevisionP3 revision <;> rfl
  apply hw
  cases decodeCrbAddr_of_not_present h with
  | inl he =>
    left
    have hlt := toNat_windowOffset addr
    rw [he, BitVec.toNat_add, BitVec.toNat_add, hlt]
    change ((0x400000 + addr.toNat % 2 ^ 20) % 2 ^ 64 + 0x06000000) % 2 ^ 64 / 2 ^ 20 = 100
    omega
  | inr he =>
    right
    rw [he]
    rfl

/-! ## The writes of the table -/

/-- The entries that come to the loop. -/
def entries (chip : Chip) : List CrbAddrPair := (initTable chip).getD []

theorem pinitFromRom_table (chip : Chip) :
    (pinitFromRom chip).table = (entries chip).filterMap (initWrite chip.revision) := by
  rw [pinitFromRom, entries]
  cases initTable chip <;> rfl

/-- The register of an entry is one that the loop leaves alone. -/
def LeftAlone (revision : Nat) (e : CrbAddrPair) : Prop :=
  skips revision (decodeCrbAddr e.addr + unmPciCrbspace) = true

theorem initWrite_eq_none {revision : Nat} {e : CrbAddrPair} :
    initWrite revision e = none ↔ LeftAlone revision e := by
  simp only [initWrite, LeftAlone]
  cases skips revision (decodeCrbAddr e.addr + unmPciCrbspace) with
  | true => exact ⟨fun _ => rfl, fun _ => rfl⟩
  | false => exact ⟨fun h => absurd h (Option.some_ne_none _), fun h => absurd h Bool.false_ne_true⟩

theorem initWrite_off {revision : Nat} {e : CrbAddrPair} {w : RegWrite}
    (h : initWrite revision e = some w) : w.off = decodeCrbAddr e.addr + unmPciCrbspace := by
  simp only [initWrite] at h
  split at h
  · exact absurd h.symm (Option.some_ne_none _)
  · rw [← Option.some.inj h]

/-- The first word of the flash could be read. -/
def FirstRead (chip : Chip) : Prop := (romFastRead (chip.rom 0 0) chip.n).1 = 0

/-- The header can be read and is valid: the signature and a second word on a P3, and a count
that is not too large. -/
def HeaderOk (chip : Chip) : Prop :=
  FirstRead chip ∧
    if nxIsRevisionP3 chip.revision then
      let n := (romFastRead (chip.rom 0 0) chip.n).2
      n = 0xcafecafe ∧ (romFastRead (chip.rom 1 4) n).1 = 0 ∧
        ((romFastRead (chip.rom 1 4) n).2 >>> 16 &&& 0xffff).toNat < 1024
    else
      -- bit 35, which a word of 32 bits does not have
      let n := (romFastRead (chip.rom 0 0) chip.n).2
      n.setWidth 64 &&& 0x800000000 = 0#64 ∧ (n &&& ~~~0x80000000#32).toNat < 1024

/-- The table's writes are those of the entries that can be decoded. -/
structure WritesDecoded (chip : Chip) : Prop where
  decoded : ∀ w ∈ (pinitFromRom chip).table, ∃ e ∈ entries chip,
    DecodesTo e.addr w.off ∧ initWrite chip.revision e = some w
  skipped : ∀ e ∈ entries chip, ¬Present e.addr → initWrite chip.revision e = none
  header : ¬HeaderOk chip → (pinitFromRom chip).table = []

/-- A word has no bit 35. -/
theorem setWidth_and_bit35 (n : BitVec 32) : n.setWidth 64 &&& 0x800000000 = 0#64 := by
  apply BitVec.eq_of_toNat_eq
  have hn := n.isLt
  have hf := Words.and_field n.toNat 35 1
  rw [BitVec.toNat_and, BitVec.toNat_setWidth_of_le (by decide)]
  change n.toNat &&& 2 ^ 35 * (2 ^ 1 - 1) = 0
  omega

theorem readHeader_p3 {chip : Chip} {h : Header} (hp : nxIsRevisionP3 chip.revision = true)
    (hh : readHeader chip.rom chip.revision chip.n = some h) :
    FirstRead chip ∧ (romFastRead (chip.rom 0 0) chip.n).2 = 0xcafecafe ∧
      (romFastRead (chip.rom 1 4) (romFastRead (chip.rom 0 0) chip.n).2).1 = 0 ∧
      h.n = (romFastRead (chip.rom 1 4) (romFastRead (chip.rom 0 0) chip.n).2).2 >>> 16 &&&
        0xffff := by
  rw [readHeader, hp] at hh
  simp only [if_true] at hh
  split at hh
  · exact absurd hh.symm (Option.some_ne_none _)
  · rename_i hs
    obtain ⟨hr, hs⟩ := not_or.mp hs
    split at hh
    · exact absurd hh.symm (Option.some_ne_none _)
    · rename_i h₁
      exact ⟨not_not.mp hr, not_not.mp hs, not_not.mp h₁, Option.some.inj hh ▸ rfl⟩

theorem readHeader_p2 {chip : Chip} {h : Header} (hp : nxIsRevisionP3 chip.revision = false)
    (hh : readHeader chip.rom chip.revision chip.n = some h) :
    h.n = (romFastRead (chip.rom 0 0) chip.n).2 &&& ~~~0x80000000#32 := by
  rw [readHeader, hp] at hh
  simp only [Bool.false_eq_true, if_false] at hh
  split at hh
  · exact absurd hh.symm (Option.some_ne_none _)
  · exact Option.some.inj hh ▸ rfl

/-- A table comes to the loop only with a header whose count is not too large. -/
theorem initTable_header {chip : Chip} {es : List CrbAddrPair} (h : initTable chip = some es) :
    ∃ hd, readHeader chip.rom chip.revision chip.n = some hd ∧ hd.n.toNat < 1024 := by
  rw [initTable] at h
  split at h
  · exact absurd h.symm (Option.some_ne_none _)
  · rename_i hd hh
    split at h
    · exact absurd h.symm (Option.some_ne_none _)
    · rename_i hn
      exact ⟨hd, hh, Nat.lt_of_not_le hn⟩

/-- A table comes to the loop only with a valid header, or with one that was not read. -/
theorem headerOk_of_initTable {chip : Chip} {es : List CrbAddrPair}
    (h : initTable chip = some es) (hr : FirstRead chip) : HeaderOk chip := by
  obtain ⟨hd, hh, hn⟩ := initTable_header h
  refine ⟨hr, ?_⟩
  cases hp : nxIsRevisionP3 chip.revision with
  | true =>
    obtain ⟨-, hs, h₁, he⟩ := readHeader_p3 hp hh
    exact ⟨hs, h₁, he ▸ hn⟩
  | false =>
    have he := readHeader_p2 hp hh
    exact ⟨setWidth_and_bit35 _, he ▸ hn⟩

/-- Without a valid header, no entries come to the loop unless the header was not read. -/
theorem entries_eq_nil {chip : Chip} (h : ¬HeaderOk chip) (hr : FirstRead chip) :
    entries chip = [] := by
  rw [entries]
  cases hi : initTable chip with
  | none => rfl
  | some es => exact absurd (headerOk_of_initTable hi hr) h

theorem table_eq_nil {chip : Chip} :
    (pinitFromRom chip).table = [] ↔ ∀ e ∈ entries chip, LeftAlone chip.revision e := by
  rw [pinitFromRom_table, List.filterMap_eq_nil_iff]
  exact forall₂_congr fun e _ => initWrite_eq_none

/-- **The writes of the table are those of the decoded entries exactly when every entry can be
decoded**, and the header was read or no entry is written.  What the flash holds is arbitrary, and
so is the pattern of the reads that fail. -/
theorem writesDecoded_iff (chip : Chip) :
    WritesDecoded chip ↔
      (∀ e ∈ entries chip, Present e.addr) ∧
        (FirstRead chip ∨ ∀ e ∈ entries chip, LeftAlone chip.revision e) := by
  constructor
  · intro ok
    constructor
    · intro e he
      by_contra hp
      -- an entry that cannot be decoded would have to be left alone
      have hl := initWrite_eq_none.mp (ok.skipped e he hp)
      rw [LeftAlone, skips_of_not_present chip.revision hp] at hl
      exact Bool.false_ne_true hl
    · by_cases hr : FirstRead chip
      · exact .inl hr
      · exact .inr (table_eq_nil.mp (ok.header fun h => hr h.1))
  · rintro ⟨hp, hr⟩
    refine ⟨?_, fun e he h => absurd (hp e he) h, ?_⟩
    · intro w hw
      rw [pinitFromRom_table] at hw
      obtain ⟨e, he, hwe⟩ := List.mem_filterMap.mp hw
      refine ⟨e, he, ?_, hwe⟩
      rw [initWrite_off hwe]
      exact decodeCrbAddr_of_present (hp e he)
    · intro hh
      apply table_eq_nil.mpr
      cases hr with
      | inl hr => rw [entries_eq_nil hh hr]; exact fun e he => absurd he List.not_mem_nil
      | inr hl => exact hl

/-! ## A table with addresses of no agent -/

/-- A flash that can always be read, with these words. -/
def flashOf (words : List (BitVec 32)) (_ addr : Nat) : RomAnswer :=
  ⟨fun _ => true, fun _ => 2, words.getD (addr / 4) 0⟩

/-- On a P3, a table of two entries: hub and agent 0, which an empty slot of the map equals, and
an agent that the map does not have. -/
def unmappedChip : Chip :=
  ⟨0x30, flashOf [0xcafecafe, 0x00020002, 0x12345678, 0x00000010, 1, 0x12300000], 0, true, 0⟩

/-- Both entries are written: to a register of a window that no agent is mapped to, and to the
marker with the base of the register space added. -/
theorem unmapped_entries_written :
    HeaderOk unmappedChip ∧ (entries unmappedChip).map (fun e => e.addr) = [0x10, 0x12300000] ∧
      ¬Present 0x10 ∧ ¬Present 0x12300000 ∧
      (pinitFromRom unmappedChip).table =
        [⟨0x06400010, 0x12345678⟩, ⟨0x105ffffff, 1⟩] ∧
      ¬WritesDecoded unmappedChip := by
  have hp : ¬Present 0x10 := by decide +kernel
  have he : entries unmappedChip = [⟨0x10, 0x12345678⟩, ⟨0x12300000, 1⟩] := by decide +kernel
  have hw : initWrite 0x30 ⟨0x10, 0x12345678⟩ = some ⟨0x06400010, 0x12345678⟩ := by
    decide +kernel
  refine ⟨⟨by unfold FirstRead; decide +kernel, by decide +kernel, by decide +kernel,
      by decide +kernel⟩,
    by rw [he]; rfl, hp, by decide +kernel, by decide +kernel, ?_⟩
  intro ok
  have hs := ok.skipped ⟨0x10, 0x12345678⟩ (he ▸ List.mem_cons_self) hp
  exact Option.some_ne_none _ (hw.symm.trans hs)

end Load
end NxNic

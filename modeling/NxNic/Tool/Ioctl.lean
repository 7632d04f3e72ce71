import NxNic.Mem.Reach

/-! # The device ioctl

`unm_nic_do_ioctl` copies a record from user space and carries out its command: accesses to
registers, to the memories of the card and to the PCI configuration, whose data go through
the 64 bytes `data.u`, and requests to the firmware.  One check of `size` stands before all
commands, and it is made only when `ptr` is null.

A call runs in `Lib/Effects`: it touches bytes of `data.u` or of the licence buffer, it may
crash, and what it touches is logged, so that the bounds are a property of the call as a whole
(`InBounds`).  What is not the ioctl's own is in `IoctlEnv`, which copies succeed and what the
card, the kernel and the firmware answer, and the user's memory is given apart from it.

`Checked` has for each command what it asks of the record and the user's memory, and nobody else
checks.  For each command there are two lemmas, that a checked record keeps it within bounds
whatever is answered, and that for another there are answers with which it leaves them.
`ioctl_inBounds_iff` is the two for the whole call.
-/
namespace NxNic
namespace Tool

open Crb (Crash)
open Mem (BarMode)

/-- `unm_nic_ioctl_data_t`. -/
structure IoctlData where
  cmd : BitVec 32
  off : BitVec 64
  size : BitVec 32
  rv : BitVec 32
  u : Bytes
  ptr : BitVec 64

/-- `UNM_NIC_CMD_PCI_READ` to `UNM_NIC_CMD_SET_PID_TRAP`. -/
inductive IoctlCmd where
  | pciRead
  | pciWrite
  | pciMemRead
  | pciMemWrite
  | pciConfigRead
  | pciConfigWrite
  | getVersion
  | setLedConfig
  | getPhyType
  | efuseChipId
  | getLicFingerprint
  | licInstall
  | getLicFeatures
  | setPidTrap
deriving DecidableEq

/-- The command of a code, if it has one. -/
def IoctlCmd.ofCode (code : BitVec 32) : Option IoctlCmd :=
  match code.toNat with
  | 1 => some .pciRead
  | 2 => some .pciWrite
  | 3 => some .pciMemRead
  | 4 => some .pciMemWrite
  | 5 => some .pciConfigRead
  | 6 => some .pciConfigWrite
  | 9 => some .getVersion
  | 10 => some .setLedConfig
  | 11 => some .getPhyType
  | 12 => some .efuseChipId
  | 13 => some .getLicFingerprint
  | 14 => some .licInstall
  | 15 => some .getLicFeatures
  | 16 => some .setPidTrap
  | _ => none

/-- `sizeof(data.u)`. -/
def dataBytes : Nat := 64

/-- `sizeof(nx_finger_print_t)`, with which `nx_lic_dma` is allocated, and
`sizeof(nx_install_license_t)`. -/
def fingerPrintBytes : Nat := 1536
def installLicenseBytes : Nat := 1536

/-- The adapter, as the ioctl sees it.  `licence` says whether `nx_lic_dma` is allocated; the
producer register of the transmit ring is 0 or one of the CRB space. -/
structure IoctlAdapter where
  site : Mem.Site
  autoFwReset : Bool
  fwV34 : Bool
  portnum : BitVec 32
  licence : Bool
  producer : BitVec 32
  producer_known : producer = 0 ∨ Crb.Known2M (producer.setWidth 64) 4

/-- What is answered on the way: which of the copies from and to user space succeed, what the
card, the kernel and the firmware return. -/
structure IoctlEnv where
  copied : Nat → Bool
  ans : Mem.Answers
  allocated : Bool
  phyId : BitVec 64
  sent : Bool
  rv : BitVec 32
  ledRv : Nat → Int

/-- What is touched: so many bytes from the start of `data.u`, or of the licence buffer. -/
inductive Touch where
  | data (n : Nat)
  | licence (n : Nat)
deriving DecidableEq

/-- The bytes that there are. -/
def Touch.Within (a : IoctlAdapter) : Touch → Prop
  | .data n => n ≤ dataBytes
  | .licence n => n ≤ if a.licence then fingerPrintBytes else 0

/-- What the call returns, and what it puts into `up_data->rv`, if it gets there. -/
structure IoctlResult where
  retval : Int
  rv : Option (BitVec 32)
deriving DecidableEq

abbrev Ioctl (ρ : Type) : Type := Effect Touch Crash ρ

def eFault : Int := -14
def eNoMem : Int := -12
def eOpNotSupp : Int := -95
def ledTestErr : Int := 1

/-- `goto error_out`. -/
def fail (retval : Int) : Ioctl IoctlResult := pure ⟨retval, none⟩

def done (rv : BitVec 32) : Ioctl IoctlResult := pure ⟨0, some rv⟩

/-! ## What the commands call -/

/-- `adapter->unm_nic_hw_read_ioctl` on `data.u`. -/
def hwReadIoctl (a : IoctlAdapter) (env : IoctlEnv) (off : BitVec 64) (len : BitVec 32) :
    Ioctl Int :=
  match a.site.mode with
  | .bar128M =>
    match Crb.ioctlAddr a.site.bars env.ans.ioremap off len with
    | none =>
      if Crb.AddrInWindow1 off then do
        Effect.touch (.data 1)
        pure 1
      else pure 1
    | some _ => do
      Effect.touch (.data (Crb.bytesMoved len))
      pure 0
  | .bar2M => do
    Crb.hwAccess2M a.site.bars off len (Effect.touch (.data (Crb.bytesMoved len)))
    pure 0

/-- `adapter->unm_nic_hw_write_ioctl` from `data.u`. -/
def hwWriteIoctl (a : IoctlAdapter) (env : IoctlEnv) (off : BitVec 64) (len : BitVec 32) :
    Ioctl (BitVec 32) :=
  match a.site.mode with
  | .bar128M =>
    match Crb.ioctlAddr a.site.bars env.ans.ioremap off len with
    | none => pure 1
    | some _ => do
      Effect.touch (.data (Crb.bytesMoved len))
      pure 0
  | .bar2M => do
    Crb.hwAccess2M a.site.bars off len (Effect.touch (.data (Crb.bytesMoved len)))
    pure 0

/-- `NXRD32` or `NXWR32` of the registers, one after the other. -/
def nxRegs (a : IoctlAdapter) : List (BitVec 64) → Ioctl Unit
  | [] => pure ()
  | reg :: regs =>
    match a.site.mode with
    | .bar128M => nxRegs a regs
    | .bar2M => do
      Crb.hwAccess2M a.site.bars reg 4 (pure ())
      nxRegs a regs

/-- `nx_nic_send_cmd_descs`, as far as the producer register: written if the request is put on
the ring and the register is known. -/
def sendRequest (a : IoctlAdapter) (env : IoctlEnv) : Ioctl Unit :=
  if env.sent ∧ a.producer ≠ 0 then nxRegs a [a.producer.setWidth 64] else pure ()

/-- `unm_led_blink_state_set` and `unm_led_blink_rate_set`. -/
def ledSet (a : IoctlAdapter) (env : IoctlEnv) (i : Nat) (testval : BitVec 32) : Ioctl Int :=
  if a.fwV34 then pure 1
  else if (testval &&& 0xff) ≤ 1 then do
    sendRequest a env
    pure (env.ledRv i)
  else pure 0

/-- `UNM_ROMUSB_GPIO` of the clock and the data line, and `UNM_ROMUSB_GLB_PAD_GPIO_I`. -/
def mdioRegs (a : IoctlAdapter) : List (BitVec 64) :=
  if a.site.p2 then [0x930007c, 0x9300080, 0x930000c] else [0x93000b0, 0x93000b4, 0x930000c]

def unmEfuseChipIdHigh : BitVec 64 := 0x8202018
def unmEfuseChipIdLow : BitVec 64 := 0x820201c

/-- `UNM_CRB_PEG_NET_0 + 0x3c` to `UNM_CRB_PEG_NET_4 + 0x3c`. -/
def pegNetRegs : List (BitVec 64) := [0x710003c, 0x720003c, 0x730003c, 0x740003c, 0x6f0003c]

/-- `data_len` of the `nx_install_license_ioctl_t` at `ptr`. -/
def licenceLen (user : Bytes) (d : IoctlData) : Nat :=
  (Words.load 64 user (d.ptr.toNat + 8) 8).toNat

/-! ## The commands -/

def pciRead (a : IoctlAdapter) (env : IoctlEnv) (d : IoctlData) : Ioctl IoctlResult := do
  let retval ← hwReadIoctl a env d.off d.size
  if retval ≠ 0 then fail retval
  else do
    Effect.touch (.data d.size.toNat)
    if env.copied 1 then done 0 else fail eFault

/-- The write that halts a processor of the card is left to the reset of the firmware. -/
def Halts (a : IoctlAdapter) (d : IoctlData) : Prop :=
  d.off ∈ pegNetRegs ∧ Words.ofBytes 32 d.u 4 = 1 ∧ a.autoFwReset = true

instance (a : IoctlAdapter) (d : IoctlData) : Decidable (Halts a d) :=
  inferInstanceAs (Decidable (_ ∧ _))

def pciWrite (a : IoctlAdapter) (env : IoctlEnv) (d : IoctlData) : Ioctl IoctlResult := do
  Effect.when (d.off ∈ pegNetRegs) (Effect.touch (.data 4))
  if Halts a d then done 0
  else do
    let rv ← hwWriteIoctl a env d.off d.size
    done rv

def memRead (a : IoctlAdapter) (env : IoctlEnv) (d : IoctlData) : Ioctl IoctlResult := do
  let ret ← Mem.memReadReach a.site env.ans d.off d.size fun n => Effect.touch (.data n)
  if ret ≠ 0 then fail eFault
  else do
    Effect.touch (.data d.size.toNat)
    if env.copied 1 then done 0 else fail eFault

def memWrite (a : IoctlAdapter) (env : IoctlEnv) (d : IoctlData) : Ioctl IoctlResult := do
  let ret ← Mem.memWriteReach a.site env.ans d.off d.size fun n => Effect.touch (.data n)
  if ret ≠ 0 then fail eFault else done 0

/-- `pci_read_config_byte` and its fellows, or the functions that write. -/
def configAccess (d : IoctlData) (rv : BitVec 32) : Ioctl (BitVec 32) :=
  if d.size = 1 ∨ d.size = 2 ∨ d.size = 4 then do
    Effect.touch (.data d.size.toNat)
    pure rv
  else pure d.rv

def configRead (env : IoctlEnv) (d : IoctlData) : Ioctl IoctlResult := do
  let rv ← configAccess d env.rv
  Effect.touch (.data d.size.toNat)
  if env.copied 1 then done rv else fail eFault

def configWrite (env : IoctlEnv) (d : IoctlData) : Ioctl IoctlResult := do
  let rv ← configAccess d env.rv
  done rv

def setLedConfig (a : IoctlAdapter) (env : IoctlEnv) (user : Bytes) (d : IoctlData) :
    Ioctl IoctlResult :=
  if ¬ env.copied 1 ∨ ¬ env.copied 2 then fail eFault
  else do
    let state ← ledSet a env 0 (Words.load 32 user d.ptr.toNat 4)
    if state = 0 then done d.rv
    else do
      let rate ← ledSet a env 1 (Words.load 32 user (d.ptr.toNat + 4) 4)
      if rate = 0 then done d.rv else fail ledTestErr

def getPhyType (a : IoctlAdapter) (env : IoctlEnv) : Ioctl IoctlResult := do
  nxRegs a (mdioRegs a)
  Effect.when (a.portnum = 1 ∧ env.phyId = 0x240) (nxRegs a (mdioRegs a))
  if env.copied 1 then done 0 else fail eFault

def efuseChipId (a : IoctlAdapter) (env : IoctlEnv) : Ioctl IoctlResult := do
  nxRegs a [unmEfuseChipIdHigh, unmEfuseChipIdLow]
  if env.copied 1 then done 0 else fail eFault

/-- The requests whose answer the card leaves in the licence buffer: `nx_get_lic_finger_print`
and `nx_get_capabilty_request`, between an allocation and three copies. -/
def licenceRequest (a : IoctlAdapter) (env : IoctlEnv) : Ioctl IoctlResult :=
  if ¬ env.allocated then fail eNoMem
  else do
    Effect.when (a.fwV34 = false) (sendRequest a env)
    if env.copied 1 ∧ env.copied 2 ∧ env.copied 3 then done env.rv else fail eFault

def licInstall (a : IoctlAdapter) (env : IoctlEnv) (user : Bytes) (d : IoctlData) :
    Ioctl IoctlResult := do
  Effect.touch (.licence installLicenseBytes)
  Effect.touch (.licence (licenceLen user d))
  if env.copied 1 then do
    Effect.when (a.fwV34 = false) (sendRequest a env)
    done env.rv
  else fail eFault

def setPidTrap (d : IoctlData) : Ioctl IoctlResult :=
  if d.off < 1 then fail 0 else done (d.off.setWidth 32)

def getVersion (env : IoctlEnv) (d : IoctlData) : Ioctl IoctlResult :=
  if env.copied 1 then done d.rv else fail eFault

/-- The switch over the command. -/
def runCommand (a : IoctlAdapter) (env : IoctlEnv) (user : Bytes) (d : IoctlData) :
    IoctlCmd → Ioctl IoctlResult
  | .pciRead => pciRead a env d
  | .pciWrite => pciWrite a env d
  | .pciMemRead => memRead a env d
  | .pciMemWrite => memWrite a env d
  | .pciConfigRead => configRead env d
  | .pciConfigWrite => configWrite env d
  | .getVersion => getVersion env d
  | .setLedConfig => setLedConfig a env user d
  | .getPhyType => getPhyType a env
  | .efuseChipId => efuseChipId a env
  | .getLicFingerprint => licenceRequest a env
  | .licInstall => licInstall a env user d
  | .getLicFeatures => licenceRequest a env
  | .setPidTrap => setPidTrap d

/-- `unm_nic_do_ioctl`, with `up_data` pointing to `d`. -/
def unmNicDoIoctl (a : IoctlAdapter) (env : IoctlEnv) (user : Bytes) (d : IoctlData) :
    Ioctl IoctlResult :=
  if ¬ env.copied 0 then fail eFault
  else if d.ptr = 0 ∧ dataBytes < d.size.toNat then fail eFault
  else
    match IoctlCmd.ofCode d.cmd with
    | some c => runCommand a env user d c
    | none => fail eOpNotSupp

/-! ## Bounds -/

/-- The call stays within bounds: it touches only bytes that there are, and does not crash. -/
def InBounds (a : IoctlAdapter) (x : Ioctl IoctlResult) : Prop :=
  Effect.wp (Touch.Within a) (fun _ => True) x

/-- What a command asks of the record and the user's memory. -/
def Checked (a : IoctlAdapter) (user : Bytes) (d : IoctlData) : IoctlCmd → Prop
  | .pciRead => d.size.toNat ≤ dataBytes ∧ (a.site.mode = .bar2M → Crb.Known2M d.off d.size)
  | .pciWrite => Halts a d ∨
      d.size.toInt < 72 ∧ (a.site.mode = .bar2M → Crb.Known2M d.off d.size)
  | .pciMemRead => Mem.Guarded a.site.mode d.off d.size ∧
      (a.site.mode = .bar2M ∧ Mem.AtQdr d.off → d.size.toNat ≤ dataBytes)
  | .pciMemWrite => Mem.Guarded a.site.mode d.off d.size
  | .pciConfigRead => d.size.toNat ≤ dataBytes
  | .licInstall => a.licence = true ∧ licenceLen user d ≤ fingerPrintBytes
  | _ => True

section
variable {a : IoctlAdapter} {env : IoctlEnv} {user : Bytes} {d : IoctlData}

theorem inBounds_fail (r : Int) : InBounds a (fail r) := Effect.wp_pure.mpr trivial

theorem inBounds_done (rv : BitVec 32) : InBounds a (done rv) := Effect.wp_pure.mpr trivial

/-- The last copy of a command. -/
theorem inBounds_copied {b : Bool} {rv : BitVec 32} {r : Int} :
    InBounds a (if b then done rv else fail r) := by
  split
  · exact inBounds_done rv
  · exact inBounds_fail r

theorem wp_nxRegs {Q : Unit → Prop} {regs : List (BitVec 64)}
    (h : ∀ reg ∈ regs, Crb.Known2M reg 4) :
    Effect.wp (Touch.Within a) Q (nxRegs a regs) ↔ Q () := by
  induction regs with
  | nil => exact Effect.wp_pure
  | cons reg regs ih =>
    have hrest := ih fun r hr => h r (List.mem_cons_of_mem _ hr)
    rw [nxRegs]
    cases a.site.mode with
    | bar128M => exact hrest
    | bar2M =>
      exact Effect.wp_bind.trans (Crb.wp_hwAccess2M.trans ((and_iff_right
        (h reg List.mem_cons_self)).trans (Effect.wp_pure.trans hrest)))

theorem wp_sendRequest {Q : Unit → Prop} :
    Effect.wp (Touch.Within a) Q (sendRequest a env) ↔ Q () := by
  rw [sendRequest]
  split
  · rename_i hsent
    have hknown := a.producer_known.resolve_left hsent.2
    exact wp_nxRegs fun reg hreg => List.mem_singleton.mp hreg ▸ hknown
  · exact Effect.wp_pure

theorem wp_ledSet {Q : Int → Prop} {i : Nat} {testval : BitVec 32} (hQ : ∀ r, Q r) :
    Effect.wp (Touch.Within a) Q (ledSet a env i testval) := by
  rw [ledSet]
  split
  · exact Effect.wp_pure.mpr (hQ 1)
  · split
    · rw [Effect.wp_bind, wp_sendRequest]
      exact Effect.wp_pure.mpr (hQ _)
    · exact Effect.wp_pure.mpr (hQ 0)

/-! ### Commands without data -/

theorem inBounds_setLedConfig : InBounds a (setLedConfig a env user d) := by
  rw [setLedConfig]
  split
  · exact inBounds_fail _
  · refine Effect.wp_bind.mpr (wp_ledSet fun state => ?_)
    split
    · exact inBounds_done _
    · refine Effect.wp_bind.mpr (wp_ledSet fun rate => ?_)
      split
      · exact inBounds_done _
      · exact inBounds_fail _

theorem known_mdioRegs : ∀ reg ∈ mdioRegs a, Crb.Known2M reg 4 := by
  rw [mdioRegs]
  split
  · exact List.forall_mem_cons.mpr ⟨by decide, List.forall_mem_cons.mpr ⟨by decide,
      List.forall_mem_singleton.mpr (by decide)⟩⟩
  · exact List.forall_mem_cons.mpr ⟨by decide, List.forall_mem_cons.mpr ⟨by decide,
      List.forall_mem_singleton.mpr (by decide)⟩⟩

theorem inBounds_getPhyType : InBounds a (getPhyType a env) := by
  rw [getPhyType]
  refine Effect.wp_bind.mpr ((wp_nxRegs known_mdioRegs).mpr ?_)
  exact Effect.wp_bind.mpr (Effect.wp_when
    (fun _ => (wp_nxRegs known_mdioRegs).mpr inBounds_copied) fun _ => inBounds_copied)

theorem inBounds_efuseChipId : InBounds a (efuseChipId a env) := by
  rw [efuseChipId]
  have hknown : ∀ reg ∈ [unmEfuseChipIdHigh, unmEfuseChipIdLow], Crb.Known2M reg 4 :=
    List.forall_mem_cons.mpr ⟨by decide, List.forall_mem_singleton.mpr (by decide)⟩
  exact Effect.wp_bind.mpr ((wp_nxRegs hknown).mpr inBounds_copied)

theorem inBounds_licenceRequest : InBounds a (licenceRequest a env) := by
  have hcopies : InBounds a (if env.copied 1 ∧ env.copied 2 ∧ env.copied 3 then done env.rv
      else fail eFault) := by
    split
    · exact inBounds_done _
    · exact inBounds_fail _
  rw [licenceRequest]
  split
  · exact inBounds_fail _
  · exact Effect.wp_bind.mpr (Effect.wp_when (fun _ => wp_sendRequest.mpr hcopies)
      fun _ => hcopies)

theorem inBounds_setPidTrap : InBounds a (setPidTrap d) := by
  rw [setPidTrap]
  split
  · exact inBounds_fail _
  · exact inBounds_done _

theorem wp_configAccess {Q : BitVec 32 → Prop} {rv : BitVec 32} (hQ : ∀ r, Q r) :
    Effect.wp (Touch.Within a) Q (configAccess d rv) := by
  rw [configAccess]
  split
  · rename_i hsize
    have hwithin : d.size.toNat ≤ dataBytes := by
      rcases hsize with h | h | h <;> rw [h] <;> decide
    exact Effect.wp_bind.mpr (Effect.wp_touch.mpr ⟨hwithin, Effect.wp_pure.mpr (hQ _)⟩)
  · exact Effect.wp_pure.mpr (hQ _)

theorem inBounds_configWrite : InBounds a (configWrite env d) := by
  rw [configWrite]
  exact Effect.wp_bind.mpr (wp_configAccess fun _ => inBounds_done _)

/-! ### Commands with data -/

theorem inBounds_configRead : InBounds a (configRead env d) ↔ d.size.toNat ≤ dataBytes := by
  have hlast : ∀ rv : BitVec 32, Effect.wp (Touch.Within a) (fun _ => True) (do
      Effect.touch (.data d.size.toNat)
      if env.copied 1 then done rv else fail eFault) ↔ d.size.toNat ≤ dataBytes := by
    intro rv
    rw [Effect.wp_bind, Effect.wp_touch]
    exact and_iff_left inBounds_copied
  rw [configRead, InBounds, Effect.wp_bind]
  constructor
  · rintro ⟨-, rv, -, h⟩
    exact (hlast rv).mp h
  · exact fun h => wp_configAccess fun rv => (hlast rv).mpr h

theorem inBounds_licInstall :
    InBounds a (licInstall a env user d) ↔
      a.licence = true ∧ licenceLen user d ≤ fingerPrintBytes := by
  have hrest : Effect.wp (Touch.Within a) (fun _ => True) (if env.copied 1 then do
      Effect.when (a.fwV34 = false) (sendRequest a env)
      done env.rv
    else fail eFault) := by
    split
    · exact Effect.wp_bind.mpr (Effect.wp_when (fun _ => wp_sendRequest.mpr (inBounds_done _))
        fun _ => inBounds_done _)
    · exact inBounds_fail _
  rw [licInstall, InBounds, Effect.wp_bind, Effect.wp_touch, Effect.wp_bind, Effect.wp_touch,
    and_iff_left hrest, Touch.Within, Touch.Within]
  cases a.licence with
  | false => exact iff_of_false (fun h => absurd h.1 (by decide)) fun h => nomatch h.1
  | true => exact ⟨fun h => ⟨rfl, h.2⟩, fun h => ⟨Nat.le_refl _, h.2⟩⟩

/-- A mapping of the pages never fails. -/
def IoctlEnv.Maps (env : IoctlEnv) : Prop := ∀ base n, env.ans.ioremap base n ≠ 0

theorem ioctlAddr_ne_none (h : env.Maps) {b : Crb.Bars} {off : BitVec 64} {len : BitVec 32} :
    Crb.ioctlAddr b env.ans.ioremap off len ≠ none := by
  refine fun hnone => Crb.ioctlAddr_eq_none.mp hnone (Or.inr ?_)
  rw [Crb.remapPages]
  split
  · exact h _ _
  · exact h _ _

/-- **The read of a register.** -/
theorem wp_hwReadIoctl {Q : Int → Prop} {off : BitVec 64} {len : BitVec 32}
    (hmoved : Crb.bytesMoved len ≤ dataBytes)
    (hknown : a.site.mode = .bar2M → Crb.Known2M off len) (hzero : Q 0) (hone : Q 1) :
    Effect.wp (Touch.Within a) Q (hwReadIoctl a env off len) := by
  rw [hwReadIoctl]
  split
  · split
    · split
      · exact Effect.wp_bind.mpr (Effect.wp_touch.mpr
          ⟨(by decide : 1 ≤ dataBytes), Effect.wp_pure.mpr hone⟩)
      · exact Effect.wp_pure.mpr hone
    · exact Effect.wp_bind.mpr (Effect.wp_touch.mpr ⟨hmoved, Effect.wp_pure.mpr hzero⟩)
  · rename_i hmode
    exact Effect.wp_bind.mpr (Crb.wp_hwAccess2M.mpr
      ⟨hknown hmode, Effect.wp_touch.mpr ⟨hmoved, Effect.wp_pure.mpr hzero⟩⟩)

/-- If it stays within bounds though the pages are mapped, its address is known. -/
theorem of_wp_hwReadIoctl {Q : Int → Prop} {off : BitVec 64} {len : BitVec 32} (hmaps : env.Maps)
    (h : Effect.wp (Touch.Within a) Q (hwReadIoctl a env off len)) :
    Crb.bytesMoved len ≤ dataBytes ∧ (a.site.mode = .bar2M → Crb.Known2M off len) ∧ Q 0 := by
  rw [hwReadIoctl] at h
  split at h
  · rename_i hmode
    split at h
    · rename_i hnone
      exact absurd hnone (ioctlAddr_ne_none hmaps)
    · obtain ⟨hmoved, hQ⟩ := Effect.wp_touch.mp (Effect.wp_bind.mp h)
      refine ⟨hmoved, fun h2M => ?_, Effect.wp_pure.mp hQ⟩
      rw [hmode] at h2M
      cases h2M
  · obtain ⟨hknown, htouch⟩ := Crb.wp_hwAccess2M.mp (Effect.wp_bind.mp h)
    obtain ⟨hmoved, hQ⟩ := Effect.wp_touch.mp htouch
    exact ⟨hmoved, fun _ => hknown, Effect.wp_pure.mp hQ⟩

/-- What the read of a register touches covers what the accessor of the 128M BAR changes in the
buffer, and it returns the same. -/
theorem hwReadIoctl_covers (hmode : a.site.mode = .bar128M) (regs : Crb.Registers)
    (w : Crb.CrbWindow) (off : BitVec 64) (data : Bytes) (len : BitVec 32) :
    (hwReadIoctl a env off len).exit = .ok (Crb.unmNicHwReadIoctl128M a.site.bars
        env.ans.ioremap regs w off data len).2.2 ∧
      ∀ k, (∀ n, .data n ∈ (hwReadIoctl a env off len).touched → n ≤ k) →
        (Crb.unmNicHwReadIoctl128M a.site.bars env.ans.ioremap regs w off data len).2.1 k =
          data k := by
  simp only [hwReadIoctl, hmode, Crb.unmNicHwReadIoctl128M]
  cases Crb.ioctlAddr a.site.bars env.ans.ioremap off len with
  | none =>
    by_cases hwin : Crb.AddrInWindow1 off
    · simp only [if_pos hwin]
      refine ⟨rfl, fun k hk => Function.update_of_ne ?_ ..⟩
      have hone := hk 1 (List.mem_singleton_self _)
      omega
    · simp only [if_neg hwin]
      exact ⟨rfl, fun _ _ => trivial⟩
  | some place =>
    refine ⟨rfl, fun k hk => ?_⟩
    have hmoved := hk _ (List.mem_singleton_self _)
    exact if_neg (Nat.not_lt.mpr hmoved)

/-- **The write of a register.** -/
theorem wp_hwWriteIoctl {Q : BitVec 32 → Prop} {off : BitVec 64} {len : BitVec 32}
    (hmoved : Crb.bytesMoved len ≤ dataBytes)
    (hknown : a.site.mode = .bar2M → Crb.Known2M off len) (hQ : ∀ r, Q r) :
    Effect.wp (Touch.Within a) Q (hwWriteIoctl a env off len) := by
  rw [hwWriteIoctl]
  split
  · split
    · exact Effect.wp_pure.mpr (hQ 1)
    · exact Effect.wp_bind.mpr (Effect.wp_touch.mpr ⟨hmoved, Effect.wp_pure.mpr (hQ 0)⟩)
  · rename_i hmode
    exact Effect.wp_bind.mpr (Crb.wp_hwAccess2M.mpr
      ⟨hknown hmode, Effect.wp_touch.mpr ⟨hmoved, Effect.wp_pure.mpr (hQ 0)⟩⟩)

theorem of_wp_hwWriteIoctl {Q : BitVec 32 → Prop} {off : BitVec 64} {len : BitVec 32}
    (hmaps : env.Maps) (h : Effect.wp (Touch.Within a) Q (hwWriteIoctl a env off len)) :
    Crb.bytesMoved len ≤ dataBytes ∧ (a.site.mode = .bar2M → Crb.Known2M off len) := by
  rw [hwWriteIoctl] at h
  split at h
  · rename_i hmode
    split at h
    · rename_i hnone
      exact absurd hnone (ioctlAddr_ne_none hmaps)
    · obtain ⟨hmoved, -⟩ := Effect.wp_touch.mp (Effect.wp_bind.mp h)
      refine ⟨hmoved, fun h2M => ?_⟩
      rw [hmode] at h2M
      cases h2M
  · obtain ⟨hknown, htouch⟩ := Crb.wp_hwAccess2M.mp (Effect.wp_bind.mp h)
    exact ⟨(Effect.wp_touch.mp htouch).1, fun _ => hknown⟩

/-- Sizes that fit move bytes that fit. -/
theorem bytesMoved_le_of_size (h : d.size.toNat ≤ dataBytes) :
    Crb.bytesMoved d.size ≤ dataBytes := by
  refine Crb.bytesMoved_le_iff.mpr ?_
  have hint := BitVec.toInt_eq_toNat_cond d.size
  rw [dataBytes] at h
  split at hint <;> omega

theorem inBounds_pciRead (hsize : d.size.toNat ≤ dataBytes)
    (hknown : a.site.mode = .bar2M → Crb.Known2M d.off d.size) : InBounds a (pciRead a env d) := by
  rw [pciRead]
  refine Effect.wp_bind.mpr (wp_hwReadIoctl (bytesMoved_le_of_size hsize) hknown ?_ ?_)
  · exact Effect.wp_bind.mpr (Effect.wp_touch.mpr ⟨hsize, inBounds_copied⟩)
  · exact inBounds_fail _

theorem of_inBounds_pciRead (hmaps : env.Maps) (h : InBounds a (pciRead a env d)) :
    d.size.toNat ≤ dataBytes ∧ (a.site.mode = .bar2M → Crb.Known2M d.off d.size) := by
  rw [pciRead] at h
  obtain ⟨-, hknown, hlast⟩ := of_wp_hwReadIoctl hmaps (Effect.wp_bind.mp h)
  exact ⟨(Effect.wp_touch.mp (Effect.wp_bind.mp hlast)).1, hknown⟩

theorem inBounds_pciWrite :
    InBounds a (pciWrite a env d) ↔ InBounds a (if Halts a d then done 0
      else do
        let rv ← hwWriteIoctl a env d.off d.size
        done rv) := by
  rw [pciWrite, InBounds, Effect.wp_bind, Effect.when]
  by_cases hreg : d.off ∈ pegNetRegs
  · rw [if_pos hreg]
    exact Effect.wp_touch.trans (and_iff_right (by decide : 4 ≤ dataBytes))
  · rw [if_neg hreg]
    exact Effect.wp_pure

theorem inBounds_memRead (hguard : Mem.Guarded a.site.mode d.off d.size)
    (hsize : a.site.mode = .bar2M ∧ Mem.AtQdr d.off → d.size.toNat ≤ dataBytes) :
    InBounds a (memRead a env d) := by
  have hlast : d.size.toNat ≤ dataBytes → Effect.wp (Touch.Within a) (fun _ => True) (do
      Effect.touch (.data d.size.toNat)
      if env.copied 1 then done 0 else fail eFault) := fun h =>
    Effect.wp_bind.mpr (Effect.wp_touch.mpr ⟨h, inBounds_copied⟩)
  rw [memRead]
  refine Effect.wp_bind.mpr (Mem.wp_memReadReach hguard (inBounds_fail _) ?_ ?_ ?_)
  · exact Effect.wp_touch.mpr ⟨(by decide : 1 ≤ dataBytes), trivial⟩
  · intro hfits
    have hbounds := hfits.bounds
    have hext := Mem.toNat_sizeExt d.size
    refine Effect.wp_touch.mpr ⟨?_, hlast ?_⟩
    · show _ ≤ 64
      omega
    · rw [dataBytes]
      split at hext <;> omega
  · intro hodd hloop hcrb
    -- an odd size gets a word of an agent only in the QDR
    refine hlast (hsize ?_)
    by_contra hout
    refine hcrb ?_
    have hcheck : ¬ Mem.unmNicPciMemBoundCheck d.off (Mem.sizeExt d.size) = true :=
      fun hcheck => hodd (Mem.boundCheck_iff.mp hcheck).2.2
    cases hmode : a.site.mode with
    | bar128M => exact if_neg hcheck
    | bar2M =>
      have hqdr : ¬ Mem.AtQdr d.off := fun hqdr => hout ⟨hmode, hqdr⟩
      exact (if_neg hqdr).trans (if_neg hcheck)

theorem inBounds_memWrite (hguard : Mem.Guarded a.site.mode d.off d.size) :
    InBounds a (memWrite a env d) := by
  rw [memWrite]
  refine Effect.wp_bind.mpr (Mem.wp_memWriteReach hguard (fun ret => ?_) fun n hn => ?_)
  · split
    · exact inBounds_fail _
    · exact inBounds_done _
  · refine Effect.wp_touch.mpr ⟨?_, trivial⟩
    show n ≤ 64
    omega

/-! ### The call -/

/-- **A command that is checked** stays within bounds, whatever is answered. -/
theorem inBounds_of_checked {c : IoctlCmd} (h : Checked a user d c) :
    InBounds a (runCommand a env user d c) := by
  cases c with
  | pciRead => exact inBounds_pciRead h.1 h.2
  | pciWrite =>
    refine inBounds_pciWrite.mpr ?_
    split
    · exact inBounds_done _
    · rename_i hnot
      obtain ⟨hsize, hknown⟩ := h.resolve_left hnot
      exact Effect.wp_bind.mpr (wp_hwWriteIoctl (Crb.bytesMoved_le_iff.mpr hsize) hknown
        fun rv => inBounds_done rv)
  | pciMemRead => exact inBounds_memRead h.1 h.2
  | pciMemWrite => exact inBounds_memWrite h
  | pciConfigRead => exact inBounds_configRead.mpr h
  | pciConfigWrite => exact inBounds_configWrite
  | getVersion => exact inBounds_copied
  | setLedConfig => exact inBounds_setLedConfig
  | getPhyType => exact inBounds_getPhyType
  | efuseChipId => exact inBounds_efuseChipId
  | getLicFingerprint => exact inBounds_licenceRequest
  | licInstall => exact inBounds_licInstall.mpr h
  | getLicFeatures => exact inBounds_licenceRequest
  | setPidTrap => exact inBounds_setPidTrap

/-- Everything is answered as asked. -/
def readyEnv : IoctlEnv where
  copied := fun _ => true
  ans := ⟨⟨0, 0, 0, 0⟩, fun _ => true, fun _ _ => 1⟩
  allocated := true
  phyId := 0
  sent := true
  rv := 0
  ledRv := fun _ => 0

theorem maps_readyEnv : readyEnv.Maps := fun _ _ => (by decide : (1 : BitVec 64) ≠ 0)

/-- An access to the QDR that does not fit `data.u` ends with a copy that does not. -/
theorem of_inBounds_memRead (h : InBounds a (memRead a readyEnv d)) :
    Mem.Guarded a.site.mode d.off d.size ∧
      (a.site.mode = .bar2M ∧ Mem.AtQdr d.off → d.size.toNat ≤ dataBytes) := by
  have hready : ∀ i, readyEnv.ans.agent i = true := fun _ => rfl
  rw [memRead] at h
  have hread := Effect.wp_bind.mp h
  have hguard : Mem.Guarded a.site.mode d.off d.size := by
    by_contra hnot
    exact Mem.not_wp_memReadReach hnot hready hread
  refine ⟨hguard, fun hqdr => ?_⟩
  have hcrb : Mem.memCrb a.site.mode d.off d.size = some .qdrNet := by
    rw [hqdr.1]
    exact if_pos hqdr.2
  have hloop : Mem.loopCount d.off d.size ≤ 2 := by
    rw [Mem.Guarded, if_pos hqdr] at hguard
    exact Mem.loopCount_le_two.mpr hguard
  have hall : (List.range (Mem.loopCount d.off d.size)).all readyEnv.ans.agent = true :=
    List.all_eq_true.mpr fun _ _ => rfl
  rw [Mem.memReadReach] at hread
  simp only [hcrb] at hread
  rw [Effect.wp_bind, Mem.wp_readLoop hloop fun i hi => List.mem_range.mp hi, hall,
    if_pos rfl] at hread
  -- the read returns 0, and its bytes are copied
  have hzero : ∀ Q : Int → Prop, Effect.wp (Touch.Within a) Q
      (if Mem.IsSize (Mem.sizeExt d.size) then do
        Effect.touch (.data (Mem.sizeExt d.size))
        pure 0
      else pure 0 : Ioctl Int) → Q 0 := by
    intro Q hwp
    split at hwp
    · obtain ⟨-, -, -, hret⟩ := Effect.wp_bind.mp hwp
      exact Effect.wp_pure.mp hret
    · exact Effect.wp_pure.mp hwp
  have hlast := hzero _ hread
  have hret : ¬ (0 : Int) ≠ 0 := not_not.mpr rfl
  rw [if_neg hret] at hlast
  exact (Effect.wp_touch.mp (Effect.wp_bind.mp hlast)).1

/-- A command that stays within bounds when everything is answered is checked. -/
theorem checked_of_inBounds {c : IoctlCmd} (h : InBounds a (runCommand a readyEnv user d c)) :
    Checked a user d c := by
  cases c with
  | pciRead => exact of_inBounds_pciRead maps_readyEnv h
  | pciWrite =>
    replace h := inBounds_pciWrite.mp h
    split at h
    · rename_i hhalts
      exact Or.inl hhalts
    · obtain ⟨hmoved, hknown⟩ := of_wp_hwWriteIoctl maps_readyEnv (Effect.wp_bind.mp h)
      exact Or.inr ⟨Crb.bytesMoved_le_iff.mp hmoved, hknown⟩
  | pciMemRead => exact of_inBounds_memRead h
  | pciMemWrite =>
    by_contra hnot
    exact Mem.not_wp_memWriteReach hnot (fun _ => rfl) (Effect.wp_bind.mp h)
  | pciConfigRead => exact inBounds_configRead.mp h
  | licInstall => exact inBounds_licInstall.mp h
  | _ => trivial

end

/-- **The ioctl stays within bounds**, whatever is answered, just if its record is turned down
by the check of `size`, has no command, or meets what its command asks. -/
theorem ioctl_inBounds_iff (a : IoctlAdapter) (user : Bytes) (d : IoctlData) :
    (∀ env, InBounds a (unmNicDoIoctl a env user d)) ↔
      (d.ptr = 0 ∧ dataBytes < d.size.toNat) ∨
        ∀ c, IoctlCmd.ofCode d.cmd = some c → Checked a user d c := by
  constructor
  · intro h
    refine or_iff_not_imp_left.mpr fun hsize c hcmd => ?_
    have hready := h readyEnv
    have hcopied : readyEnv.copied 0 = true := rfl
    rw [unmNicDoIoctl, if_neg (not_not.mpr hcopied), if_neg hsize, hcmd] at hready
    exact checked_of_inBounds hready
  · intro h env
    rw [unmNicDoIoctl]
    by_cases hcopied : env.copied 0 = true
    · rw [if_neg (not_not.mpr hcopied)]
      by_cases hsize : d.ptr = 0 ∧ dataBytes < d.size.toNat
      · rw [if_pos hsize]
        exact inBounds_fail _
      · rw [if_neg hsize]
        cases hcmd : IoctlCmd.ofCode d.cmd with
        | none => exact inBounds_fail _
        | some c => exact inBounds_of_checked (h.resolve_left hsize c hcmd)
    · rw [if_pos hcopied]
      exact inBounds_fail _

/-- A 128M adapter that is up. -/
def ioctlAdapter : IoctlAdapter where
  site := ⟨.bar128M, false, Crb.bars32M, 0⟩
  autoFwReset := true
  fwV34 := false
  portnum := 0
  licence := true
  producer := 0
  producer_known := Or.inl rfl

/-- A read of 16 bytes of the DDR, which is `BUG`; a read of 4096 bytes of a register with a
`ptr`, which takes as many from the 64 of `data.u`; and a licence of 4096 bytes. -/
theorem ioctl_leaves_bounds :
    (unmNicDoIoctl ioctlAdapter readyEnv (fun _ => 0) ⟨3, 0, 16, 0, fun _ => 0, 0⟩).exit =
        .error .bug ∧
      Touch.data 4096 ∈ (unmNicDoIoctl ioctlAdapter readyEnv (fun _ => 0)
        ⟨1, 0x6100000, 4096, 0, fun _ => 0, 1⟩).touched ∧
      Touch.licence 4096 ∈ (unmNicDoIoctl ioctlAdapter readyEnv
        (fun k => if k = 0x1009 then 0x10 else 0) ⟨14, 0, 0, 0, fun _ => 0, 0x1000⟩).touched ∧
      ¬ ∀ env, InBounds ioctlAdapter
        (unmNicDoIoctl ioctlAdapter env (fun _ => 0) ⟨3, 0, 16, 0, fun _ => 0, 0⟩) := by
  have hbug : (unmNicDoIoctl ioctlAdapter readyEnv (fun _ => 0)
      ⟨3, 0, 16, 0, fun _ => 0, 0⟩).exit = .error .bug := by
    decide +kernel
  refine ⟨hbug, by decide +kernel, by decide +kernel, fun h => ?_⟩
  obtain ⟨-, r, hr, -⟩ := h readyEnv
  rw [hbug] at hr
  cases hr

end Tool
end NxNic

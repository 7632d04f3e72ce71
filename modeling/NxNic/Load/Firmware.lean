import NxNic.Lib.Words

/-! # Loading the firmware

`load_fw` decides between the firmware on the card's flash and the files that the kernel can be
asked for, and copies the one it takes to the card's memory in words of 8 bytes: the boot
loader from `BOOTLD_START` on and, from a file, the image from `IMAGE_START` on.  The pegs
decompress the flash image themselves.

The kernel is one with `request_firmware`.

A `Site` is what the kernel has, the files and the register with the chip's capabilities; a `Card`
is what its flash holds and which of the reads and writes fail.  `selectFw` is the choice and
`loadFw` the whole, with its result, the source it settled on and the memory it leaves.
-/
namespace NxNic
namespace Load

/-! ## Versions -/

/-- `nic_version_t`, as it is cut out of a word. -/
structure NicVersion where
  major : BitVec 8
  minor : BitVec 8
  sub : BitVec 16
  deriving DecidableEq

/-- `fwfile_read_version` and `nx_flash_read_version`, of the word they find. -/
def NicVersion.ofWord (w : BitVec 32) : NicVersion :=
  ⟨w.setWidth 8, (w >>> 8).setWidth 8, (w >>> 16).setWidth 16⟩

/-- `NX_FW_VERSION`. -/
def NicVersion.code (v : NicVersion) : Nat :=
  v.major.toNat * 2 ^ 16 + v.minor.toNat * 2 ^ 8 + v.sub.toNat

/-- `HP_CLOCK_FIX_FW`. -/
def hpClockFixFw : Nat := NicVersion.code ⟨4, 0, 554⟩

/-- `compare_fw_version`: negative when the second version is the later one. -/
def compareFwVersion (ver1 ver2 : NicVersion) : Int :=
  if (ver1.major.toNat : Int) - ver2.major.toNat ≠ 0 then ver1.major.toNat - ver2.major.toNat
  else if (ver1.minor.toNat : Int) - ver2.minor.toNat ≠ 0 then
    ver1.minor.toNat - ver2.minor.toNat
  else ver1.sub.toNat - ver2.sub.toNat

/-- `NX_SUPPORTED_FW_VERSIONS`, the major and the minor numbers. -/
def nxSupportedFwVersions : List (BitVec 8 × BitVec 8) := [(3, 4), (4, 0)]

/-- `nx_fw_hw_version_check`. -/
def nxFwHwVersionCheck (version : NicVersion) : Int :=
  if (version.major, version.minor) ∈ nxSupportedFwVersions then 0 else -1

/-! ## Files -/

def bootldStart : Nat := 0x10000
def imageStart : Nat := 0x43000
def fwVersionOffset : Nat := 0x3e8408
def fwSizeOffset : Nat := 0x3e840c
def fwBiosVersionOffset : Nat := 0x3e883c

/-- `struct firmware`; past its `size` bytes, `data` is what lies behind them. -/
structure Firmware where
  size : Nat
  data : Bytes

namespace Firmware
variable (fw : Firmware)

/-- `nx_fw->bootld[i]`. -/
def bootld (i : Nat) : BitVec 64 := Words.load 64 fw.data (bootldStart + 8 * i) 8

/-- `nx_fw->fw_img[i]`. -/
def fwImg (i : Nat) : BitVec 64 := Words.load 64 fw.data (imageStart + 8 * i) 8

/-- `nx_fw->size`. -/
def imageSize : BitVec 32 := Words.load 32 fw.data fwSizeOffset 4

/-- The versions of the firmware and of the BIOS that it is for. -/
def version : NicVersion := .ofWord (Words.load 32 fw.data fwVersionOffset 4)
def biosVersion : NicVersion := .ofWord (Words.load 32 fw.data fwBiosVersionOffset 4)

end Firmware

/-- `nx_fw_type_t`, the types of the files that are asked for. -/
inductive FwType where
  | p2Mn
  | p3Ct
  | p3Mn
  deriving DecidableEq

/-- The parts of the adapter; `nxFw` is `none` unless `file_fw_state` is `NX_FILE_FW_READ`. -/
structure Adapter where
  revisionId : Nat
  flashVer : NicVersion
  biosVer : NicVersion
  nxFw : Option Firmware := none
  fwtype : FwType := .p3Ct
  driverMismatch : Bool := false

/-- `NX_IS_REVISION_P2`. -/
def nxIsRevisionP2 (revision : Nat) : Bool := revision ≤ 0x25

/-- `NX_IS_REVISION_P3`. -/
def nxIsRevisionP3 (revision : Nat) : Bool := 0x30 ≤ revision

/-- What `request_firmware` finds for each type of file, and the register that tells of memory
on the card. -/
structure Site where
  files : FwType → Option Firmware
  pegTuneCapability : BitVec 32

/-- `nx_request_fw`. -/
def nxRequestFw (io : Site) (fwtype : FwType) : Option Firmware :=
  match io.files fwtype with
  | none => none
  | some fw => if fw.size < 0x3fffff then none else some fw

/-- `nx_get_file_firmware`; `none` stands for -1, with the file released. -/
def nxGetFileFirmware (io : Site) (a : Adapter) (fwtype : FwType) : Option Firmware :=
  match nxRequestFw io fwtype with
  | none => none
  | some fw =>
    if hpClockFixFw ≤ fw.version.code ∧ a.flashVer.code < hpClockFixFw then none
    else if nxFwHwVersionCheck fw.version = -1 then none
    else if a.biosVer.major ≠ fw.biosVersion.major ∨ a.biosVer.minor ≠ fw.biosVersion.minor then
      none
    else some fw

/-! ## The choice -/

/-- Modes, as the module parameter `fw_load` has them. -/
def loadFwFromFlash : Int := 0
def loadFwWithComparison : Int := 1
def loadFwNoComparison : Int := 2
def loadFwCutThrough : Int := 3

/-- What is loaded. -/
inductive Source where
  | flash
  | file (fwtype : FwType) (fw : Firmware)

/-- `load_fw` at its label `do_load`: the local variable `flash_compatible`, and `flash` with the
file in `nx_fw` otherwise. -/
structure Selection where
  flashCompatible : Bool
  source : Source

/-- `load_fw` from its second call of `nx_get_file_firmware` on. -/
def selectFile (io : Site) (cmpVersions : Int) (a : Adapter) (flashCompatible : Bool)
    (fwtype : FwType) : Source :=
  match nxGetFileFirmware io a fwtype with
  | none => .flash
  | some fw =>
    if cmpVersions = loadFwWithComparison ∧ flashCompatible = true ∧
        compareFwVersion fw.version a.flashVer < 0 then
      .flash
    else .file fwtype fw

/-- `load_fw` up to its label `do_load`. -/
def selectFw (io : Site) (cmpVersions : Int) (a : Adapter) : Selection :=
  match a.nxFw with
  | some fw => ⟨false, .file a.fwtype fw⟩
  | none =>
    let flashCompatible : Bool := nxFwHwVersionCheck a.flashVer = 0
    if cmpVersions = loadFwFromFlash then ⟨flashCompatible, .flash⟩
    else if nxIsRevisionP2 a.revisionId then
      ⟨flashCompatible, selectFile io cmpVersions a flashCompatible .p2Mn⟩
    else if cmpVersions ≠ loadFwCutThrough ∧ io.pegTuneCapability &&& 1 ≠ 0 then
      match nxGetFileFirmware io a .p3Mn with
      | some fw =>
        ⟨flashCompatible,
          if compareFwVersion fw.version a.flashVer < 0 then .flash else .file .p3Mn fw⟩
      | none => ⟨flashCompatible, selectFile io cmpVersions a flashCompatible .p3Ct⟩
    else ⟨flashCompatible, selectFile io cmpVersions a flashCompatible .p3Ct⟩

/-! ## The copy -/

/-- What becomes of a call of `unm_nic_pci_mem_write` for 8 bytes: it returns 0 with the bytes
stored, or another value with the bytes `left` in their place. -/
inductive WriteOutcome where
  | ok
  | failed (left : Bytes)

/-- The flash in its words of 4 bytes, the calls of `rom_fast_read` that fail, and what becomes of
the writes, each by its number in the load. -/
structure Card where
  flash : Nat → BitVec 32
  readFails : Nat → Bool
  writes : Nat → WriteOutcome

/-- `unm_nic_pci_mem_write` of 8 bytes. -/
def pciMemWrite (outcome : WriteOutcome) (m : Bytes) (off : Nat) (data : BitVec 64) : Bytes :=
  match outcome with
  | .ok => Words.store m off 8 data
  | .failed left => fun k => if off ≤ k ∧ k < off + 8 then left (k - off) else m k

/-- The number of words of the boot loader. -/
def bootldWords : Nat := (imageStart - bootldStart) / 8

/-- The loop over the words of the flash, from word `i` on, with its result and the memory. -/
def flashLoop (card : Card) : Nat → Nat → Bytes → Int × Bytes
  | 0, _, m => (0, m)
  | n + 1, i, m =>
    if card.readFails (2 * i) then (-1, m)
    else if card.readFails (2 * i + 1) then (-1, m)
    else
      let low := card.flash (bootldStart + 8 * i)
      let high := card.flash (bootldStart + 8 * i + 4)
      let data := high.setWidth 64 <<< 32 ||| low.setWidth 64
      flashLoop card n (i + 1) (pciMemWrite (card.writes i) m (bootldStart + 8 * i) data)

/-- `load_from_flash`, with the memory after it. -/
def loadFromFlash (card : Card) (m : Bytes) : Int × Bytes := flashLoop card bootldWords 0 m

/-- A loop of `do_load_fw_file`, whose writes have the numbers from `first` on. -/
def writeWords (card : Card) (first start : Nat) (word : Nat → BitVec 64) : Nat → Bytes → Bytes
  | 0, m => m
  | n + 1, m =>
    pciMemWrite (card.writes (first + n)) (writeWords card first start word n m)
      (start + 8 * n) (word n)

/-- `do_load_fw_file`, with the memory after it; the size is an `int` there. -/
def doLoadFwFile (card : Card) (fw : Firmware) (m : Bytes) : Int × Bytes :=
  let m := writeWords card 0 bootldStart fw.bootld bootldWords m
  let size := fw.imageSize.toInt
  let n := (size.tdiv 8).toNat
  let m := writeWords card bootldWords imageStart fw.fwImg n m
  if size.tmod 8 ≠ 0 then
    (0, pciMemWrite (card.writes (bootldWords + n)) m (imageStart + 8 * n) (fw.fwImg n))
  else (0, m)

/-- What `load_fw` leaves behind. -/
structure LoadResult where
  rv : Int
  adapter : Adapter
  source : Source
  memory : Bytes

/-- `load_fw`. -/
def loadFw (io : Site) (cmpVersions : Int) (a : Adapter) (card : Card) (m : Bytes) : LoadResult :=
  let s := selectFw io cmpVersions a
  match s.source with
  | .flash =>
    let a := { a with nxFw := none, driverMismatch := a.driverMismatch || !s.flashCompatible }
    ⟨0, a, .flash, (loadFromFlash card m).2⟩
  | .file fwtype fw =>
    let r := doLoadFwFile card fw m
    ⟨r.1, { a with nxFw := some fw, fwtype := fwtype }, s.source, r.2⟩

end Load
end NxNic

import NxNic.Load.Firmware

/-! # Which firmware is loaded

The rule in the comment before `load_fw`: flash firmware in the mode for it; otherwise the file
for the board when there is a compatible one, unless both firmwares are compatible, a
comparison is asked for, the file is one of those that are compared, and the flash has the
later version.  `documented` is this rule, in the words of versions and files.

`load_fw` itself goes through the types of file for the board one after the other, asks the kernel
for each and compares as it goes.  The branch for cards with memory compares whatever the mode,
and whatever the flash is; `LegacyOutdated` is where that makes a difference.

`boardFile`, the first compatible file for the board, is what both come to.  With it
`selection_documented_iff` compares the two choices for every mode, version and candidate.
-/
namespace NxNic
namespace Load

/-! ## The rule -/

/-- The later version. -/
def NicVersion.Newer (v w : NicVersion) : Prop :=
  w.major < v.major ∨ w.major = v.major ∧ (w.minor < v.minor ∨ w.minor = v.minor ∧ w.sub < v.sub)

instance (v w : NicVersion) : Decidable (v.Newer w) := inferInstanceAs (Decidable (_ ∨ _))

/-- The driver works with the firmware. -/
def NicVersion.Supported (v : NicVersion) : Prop := (v.major, v.minor) ∈ nxSupportedFwVersions

instance (v : NicVersion) : Decidable v.Supported :=
  inferInstanceAs (Decidable (_ ∈ nxSupportedFwVersions))

/-- A file goes with the driver, with the flash (none with the clock fix over a flash without it),
and with the BIOS. -/
structure Compatible (a : Adapter) (fw : Firmware) : Prop where
  supported : fw.version.Supported
  clockFix : hpClockFixFw ≤ fw.version.code → hpClockFixFw ≤ a.flashVer.code
  biosMajor : a.biosVer.major = fw.biosVersion.major
  biosMinor : a.biosVer.minor = fw.biosVersion.minor

instance (a : Adapter) (fw : Firmware) : Decidable (Compatible a fw) :=
  decidable_of_iff (fw.version.Supported ∧
      (hpClockFixFw ≤ fw.version.code → hpClockFixFw ≤ a.flashVer.code) ∧
      a.biosVer.major = fw.biosVersion.major ∧ a.biosVer.minor = fw.biosVersion.minor)
    ⟨fun h => ⟨h.1, h.2.1, h.2.2.1, h.2.2.2⟩, fun h => ⟨h.1, h.2, h.3, h.4⟩⟩

/-- The file of a type, if it is there in full and compatible. -/
def candidate (io : Site) (a : Adapter) (fwtype : FwType) : Option Firmware :=
  (io.files fwtype).filter fun fw => 0x3fffff ≤ fw.size ∧ Compatible a fw

/-- There is memory on the card. -/
def Site.mnPresent (io : Site) : Prop := io.pegTuneCapability &&& 1 ≠ 0

instance (io : Site) : Decidable io.mnPresent := inferInstanceAs (Decidable (_ ≠ _))

/-- The types of file for the board, the one for its memory first. -/
def boardTypes (io : Site) (cmpVersions : Int) (a : Adapter) : List FwType :=
  if nxIsRevisionP2 a.revisionId then [.p2Mn]
  else if cmpVersions ≠ loadFwCutThrough ∧ io.mnPresent then [.p3Mn, .p3Ct]
  else [.p3Ct]

/-- The file for the board, with its type. -/
def boardFile (io : Site) (cmpVersions : Int) (a : Adapter) : Option (FwType × Firmware) :=
  (boardTypes io cmpVersions a).findSome? fun t => (candidate io a t).map fun fw => (t, fw)

/-- **The documented choice.** -/
def documented (io : Site) (cmpVersions : Int) (a : Adapter) : Source :=
  if cmpVersions = loadFwFromFlash then .flash
  else
    match boardFile io cmpVersions a with
    | none => .flash
    | some (t, fw) =>
      if cmpVersions = loadFwWithComparison ∧ a.flashVer.Supported ∧ t ≠ .p3Mn ∧
          a.flashVer.Newer fw.version then
        .flash
      else .file t fw

/-- **The exception**: there is memory on the card, the file for it is asked for and compatible,
and the flash has a later version. -/
def LegacyOutdated (io : Site) (cmpVersions : Int) (a : Adapter) : Prop :=
  cmpVersions ≠ loadFwFromFlash ∧ cmpVersions ≠ loadFwCutThrough ∧
    nxIsRevisionP2 a.revisionId = false ∧ io.mnPresent ∧
      ∃ fw ∈ candidate io a .p3Mn, a.flashVer.Newer fw.version

instance (io : Site) (cmpVersions : Int) (a : Adapter) :
    Decidable (LegacyOutdated io cmpVersions a) :=
  inferInstanceAs (Decidable (_ ∧ _ ∧ _ ∧ _ ∧ _))

/-! ## The functions of the source -/

variable {io : Site} {a : Adapter} {cmpVersions : Int}

theorem compareFwVersion_neg_iff {v w : NicVersion} : compareFwVersion v w < 0 ↔ w.Newer v := by
  have hmajor : v.major = w.major ↔ v.major.toNat = w.major.toNat := BitVec.toNat_inj.symm
  have hminor : v.minor = w.minor ↔ v.minor.toNat = w.minor.toNat := BitVec.toNat_inj.symm
  rw [compareFwVersion, NicVersion.Newer, hmajor, hminor, BitVec.lt_def, BitVec.lt_def,
    BitVec.lt_def]
  split
  · omega
  · split <;> omega

theorem nxFwHwVersionCheck_eq_zero {v : NicVersion} : nxFwHwVersionCheck v = 0 ↔ v.Supported := by
  rw [nxFwHwVersionCheck, NicVersion.Supported]
  split
  · exact iff_of_true rfl ‹_›
  · exact iff_of_false (by decide) ‹_›

theorem nxFwHwVersionCheck_eq_neg {v : NicVersion} :
    nxFwHwVersionCheck v = -1 ↔ ¬v.Supported := by
  rw [nxFwHwVersionCheck, NicVersion.Supported]
  split
  · exact iff_of_false (by decide) (not_not_intro ‹_›)
  · exact iff_of_true rfl ‹_›

/-- What the three tests of a file come to. -/
theorem tests_eq (a : Adapter) (fw : Firmware) :
    (if hpClockFixFw ≤ fw.version.code ∧ a.flashVer.code < hpClockFixFw then none
      else if nxFwHwVersionCheck fw.version = -1 then none
      else if a.biosVer.major ≠ fw.biosVersion.major ∨ a.biosVer.minor ≠ fw.biosVersion.minor then
        none
      else some fw) = if Compatible a fw then some fw else none := by
  split
  · rename_i hclock
    exact (if_neg fun h => absurd (h.clockFix hclock.1) (Nat.not_le.mpr hclock.2)).symm
  · rename_i hclock
    split
    · rename_i hsupported
      exact (if_neg fun h => nxFwHwVersionCheck_eq_neg.mp hsupported h.supported).symm
    · rename_i hsupported
      split
      · rename_i hbios
        exact (if_neg fun h => hbios.elim (absurd h.biosMajor) (absurd h.biosMinor)).symm
      · rename_i hbios
        rw [not_or, not_not, not_not] at hbios
        exact (if_pos ⟨not_not.mp (mt nxFwHwVersionCheck_eq_neg.mpr hsupported),
          fun h => Nat.not_lt.mp fun hlt => hclock ⟨h, hlt⟩, hbios.1, hbios.2⟩).symm

/-- The file that is got is the candidate. -/
theorem nxGetFileFirmware_eq (io : Site) (a : Adapter) (fwtype : FwType) :
    nxGetFileFirmware io a fwtype = candidate io a fwtype := by
  rw [candidate]
  cases hfile : io.files fwtype with
  | none => simp only [nxGetFileFirmware, nxRequestFw, hfile, Option.filter_none]
  | some fw =>
    by_cases hsize : fw.size < 0x3fffff
    · have hshort : ¬0x3fffff ≤ fw.size := Nat.not_le.mpr hsize
      simp only [nxGetFileFirmware, nxRequestFw, hfile, if_pos hsize, Option.filter_some, hshort,
        false_and, decide_false, Bool.false_eq_true, if_false]
    · have hfull : 0x3fffff ≤ fw.size := Nat.not_lt.mp hsize
      simp only [nxGetFileFirmware, nxRequestFw, hfile, if_neg hsize, tests_eq, Option.filter_some,
        hfull, true_and, decide_eq_true_eq]

/-! ## The choice -/

/-- From the second call on, the choice is the documented one for the type asked for. -/
theorem selectFile_eq (hmode : cmpVersions ≠ loadFwFromFlash) {t : FwType} (ht : t ≠ .p3Mn)
    (hboard : boardFile io cmpVersions a = (candidate io a t).map fun fw => (t, fw)) :
    selectFile io cmpVersions a (decide (nxFwHwVersionCheck a.flashVer = 0)) t =
      documented io cmpVersions a := by
  rw [documented, if_neg hmode, hboard, selectFile, nxGetFileFirmware_eq]
  cases candidate io a t with
  | none => rfl
  | some fw =>
    simp only [Option.map_some, decide_eq_true_eq, nxFwHwVersionCheck_eq_zero,
      compareFwVersion_neg_iff, ne_eq, ht, not_false_eq_true, true_and]

/-- In the documented choice, flash firmware that is not for the driver gives way to any file for
the board. -/
theorem documented_unsupported (hmode : cmpVersions ≠ loadFwFromFlash)
    (hflash : ¬a.flashVer.Supported) :
    documented io cmpVersions a = .flash ↔ boardFile io cmpVersions a = none := by
  rw [documented, if_neg hmode]
  cases boardFile io cmpVersions a with
  | none => exact iff_of_true rfl rfl
  | some file =>
    refine iff_of_false ?_ nofun
    show (if _ then Source.flash else .file file.1 file.2) ≠ .flash
    rw [if_neg fun h => hflash h.2.1]
    nofun

/-- **The choice of `load_fw`** without a stored file is the documented one just if the card is not
one with memory whose file is older than the flash.  There is no hypothesis on the mode, the
versions or the files: `a.nxFw` is a file that an earlier load has kept. -/
theorem selection_documented_iff (io : Site) (cmpVersions : Int) (a : Adapter)
    (hstored : a.nxFw = none) (card : Card) (m : Bytes) :
    (loadFw io cmpVersions a card m).source = documented io cmpVersions a ↔
      ¬LegacyOutdated io cmpVersions a := by
  have hsource : (loadFw io cmpVersions a card m).source = (selectFw io cmpVersions a).source := by
    rw [loadFw]
    split
    · rename_i h
      exact h.symm
    · rfl
  rw [hsource]
  simp only [selectFw, hstored]
  by_cases hmode : cmpVersions = loadFwFromFlash
  · rw [if_pos hmode, documented, if_pos hmode]
    exact iff_of_true rfl fun h => h.1 hmode
  rw [if_neg hmode]
  by_cases hp2 : nxIsRevisionP2 a.revisionId = true
  · rw [if_pos hp2]
    refine iff_of_true (selectFile_eq hmode nofun ?_) fun h => absurd (hp2.symm.trans h.2.2.1) nofun
    rw [boardFile, boardTypes, if_pos hp2, List.findSome?_singleton]
  rw [if_neg hp2]
  by_cases hmn : cmpVersions ≠ loadFwCutThrough ∧ io.pegTuneCapability &&& 1 ≠ 0
  · rw [if_pos hmn]
    have hboard : boardTypes io cmpVersions a = [.p3Mn, .p3Ct] := by
      rw [boardTypes, if_neg hp2]
      exact if_pos hmn
    rw [nxGetFileFirmware_eq]
    cases hlegacy : candidate io a .p3Mn with
    | none =>
      refine iff_of_true (selectFile_eq hmode nofun ?_) ?_
      · rw [boardFile, hboard, List.findSome?_cons, hlegacy, Option.map_none,
          List.findSome?_singleton]
      · rintro ⟨-, -, -, -, fw, hfw, -⟩
        exact absurd (hlegacy.symm.trans hfw) nofun
    | some fw =>
      have hfile : documented io cmpVersions a = .file .p3Mn fw := by
        rw [documented, if_neg hmode, boardFile, hboard, List.findSome?_cons, hlegacy]
        exact if_neg fun h => h.2.2.1 rfl
      rw [hfile]
      by_cases hnewer : a.flashVer.Newer fw.version
      · have hflash : compareFwVersion fw.version a.flashVer < 0 :=
          compareFwVersion_neg_iff.mpr hnewer
        simp only [if_pos hflash]
        exact iff_of_false nofun fun h => h ⟨hmode, hmn.1, Bool.not_eq_true _ ▸ hp2, hmn.2, fw,
          hlegacy, hnewer⟩
      · have hfile : ¬compareFwVersion fw.version a.flashVer < 0 :=
          mt compareFwVersion_neg_iff.mp hnewer
        simp only [if_neg hfile]
        refine iff_of_true trivial ?_
        rintro ⟨-, -, -, -, fw', hfw', hnewer'⟩
        obtain rfl := Option.some.inj (hlegacy.symm.trans hfw')
        exact hnewer hnewer'
  · rw [if_neg hmn]
    refine iff_of_true (selectFile_eq hmode nofun ?_) fun h => hmn ⟨h.2.1, h.2.2.2.1⟩
    have hboard : boardTypes io cmpVersions a = [.p3Ct] := by
      rw [boardTypes, if_neg hp2]
      exact if_neg hmn
    rw [boardFile, hboard, List.findSome?_singleton]

/-- The words of a file in which `load_fw` looks. -/
def firmwareFile (version biosVersion size : BitVec 32) : Firmware where
  size := 0x400000
  data := Words.store (Words.store (Words.store (fun _ => 0) fwVersionOffset 4 version)
    fwBiosVersionOffset 4 biosVersion) fwSizeOffset 4 size

/-- A card with memory, and a file of version 4.0.560 for it. -/
def legacySite : Site where
  files
    | .p3Mn => some (firmwareFile 0x02300004 0x00010002 16)
    | _ => none
  pegTuneCapability := 1

/-- The adapter with a version of the flash firmware. -/
def legacyAdapter (flashVer : BitVec 32) : Adapter where
  revisionId := 0x42
  flashVer := .ofWord flashVer
  biosVer := .ofWord 0x00010002

/-- A blank flash; nothing fails. -/
def blankCard : Card := ⟨fun _ => 0, fun _ => false, fun _ => .ok⟩

def Source.isFlash : Source → Bool
  | .flash => true
  | .file _ _ => false

/-- A comparison is asked for, and the file is later than the flash firmware, which is of version
4.0.555. -/
theorem selection_documented_iff_later :
    (loadFw legacySite loadFwWithComparison (legacyAdapter 0x022b0004) blankCard
      fun _ => 0).source =
      documented legacySite loadFwWithComparison (legacyAdapter 0x022b0004) :=
  (selection_documented_iff _ _ _ rfl _ _).mpr (by decide +kernel)

/-- The flash firmware is of version 4.0.579, and no comparison is asked for. -/
theorem legacy_file_gives_way :
    (loadFw legacySite loadFwNoComparison (legacyAdapter 0x02430004) blankCard fun _ => 0).source ≠
      documented legacySite loadFwNoComparison (legacyAdapter 0x02430004) := fun h =>
  absurd (congrArg Source.isFlash h) (by decide +kernel)

end Load
end NxNic

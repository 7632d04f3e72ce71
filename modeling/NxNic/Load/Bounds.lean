import NxNic.Load.Image

/-! # The bounds of a firmware file

How much `do_load_fw_file` copies is what the file itself says, and `nx_request_fw` compares
the size of the file with a constant only.  The loops are given as the turns they take, each
with where it reads in the file and where it writes on the card; the memory that a load leaves
is what its turns make of it (`doLoadFwFile_eq_runTurns`).

The file is any list of bytes that `nx_request_fw` accepts.  `ParsedInBounds` is the property: the
turns read bytes of the file only, there are as many as the size of the image takes, and they
write between the boot loader and the end of the image.  `ImageFits` is the condition, on the size
that the file declares.  That size is an `int` in the loop, so from 2^31 on the loop makes no
turn, and below that a size that is too large has it read behind the file.  `parsedInBounds_iff`
has both.
-/
namespace NxNic
namespace Load

/-! ## The turns of the loops -/

/-- A turn reads 8 bytes at an offset of the file and writes them at an address of the card. -/
structure Turn where
  offset : Nat
  addr : Nat

/-- A loop over `n` words, whose pointer in the file and address on the card begin at `start`. -/
def turns (start n : Nat) : List Turn :=
  (List.range n).map fun i => ⟨start + 8 * i, start + 8 * i⟩

namespace Firmware
variable (fw : Firmware)

/-- The turns for the image, with the one for what is left of its size; the size is an `int`
there. -/
def imageTurns : List Turn :=
  let size := fw.imageSize.toInt
  let n := (size.tdiv 8).toNat
  turns imageStart n ++
    if size.tmod 8 ≠ 0 then [⟨imageStart + 8 * n, imageStart + 8 * n⟩] else []

/-- The turns of `do_load_fw_file`. -/
def loadTurns : List Turn := turns bootldStart bootldWords ++ fw.imageTurns

/-- The words of the image, rounded up. -/
def sizeWords : Nat := (fw.imageSize.toNat + 7) / 8

end Firmware

/-- What the turns make of the card's memory; `k` is the number of the first write. -/
def runTurns (card : Card) (fw : Firmware) : Nat → List Turn → Bytes → Bytes
  | _, [], m => m
  | k, t :: ts, m =>
    runTurns card fw (k + 1) ts
      (pciMemWrite (card.writes k) m t.addr (Words.load 64 fw.data t.offset 8))

section
variable {card : Card} {fw : Firmware} {m : Bytes} {start n k : Nat}

theorem mem_turns {t : Turn} :
    t ∈ turns start n ↔ ∃ i, i < n ∧ t = ⟨start + 8 * i, start + 8 * i⟩ := by
  rw [turns, List.mem_map]
  refine exists_congr fun i => ?_
  rw [List.mem_range, eq_comm]

theorem length_turns : (turns start n).length = n := by
  rw [turns, List.length_map, List.length_range]

theorem turns_succ : turns start (n + 1) = turns start n ++ [⟨start + 8 * n, start + 8 * n⟩] := by
  rw [turns, List.range_succ, List.map_append]
  rfl

theorem runTurns_append {ts ts' : List Turn} :
    runTurns card fw k (ts ++ ts') m =
      runTurns card fw (k + ts.length) ts' (runTurns card fw k ts m) := by
  induction ts generalizing k m with
  | nil => rfl
  | cons t ts ih =>
    rw [List.cons_append, runTurns, ih, List.length_cons, runTurns, Nat.add_assoc, Nat.add_comm 1]

/-- A loop of writes is its turns, if its words are those of the file. -/
theorem runTurns_turns (word : Nat → BitVec 64)
    (hword : ∀ i, word i = Words.load 64 fw.data (start + 8 * i) 8) :
    runTurns card fw k (turns start n) m = writeWords card k start word n m := by
  induction n with
  | zero => rfl
  | succ n ih =>
    rw [turns_succ, runTurns_append, ih, length_turns, writeWords, hword]
    rfl

/-- The turn for what is left is one more of the loop. -/
theorem imageTurns_eq : fw.imageTurns = turns imageStart fw.imageWords := by
  rw [Firmware.imageTurns, Firmware.imageWords]
  split
  · rw [turns_succ]
  · rw [List.append_nil, Nat.add_zero]

/-- **The turns are those of the load**: they make of the memory what `do_load_fw_file` does. -/
theorem doLoadFwFile_eq_runTurns :
    doLoadFwFile card fw m = (0, runTurns card fw 0 fw.loadTurns m) := by
  rw [doLoadFwFile_eq, Firmware.loadTurns, imageTurns_eq, runTurns_append, length_turns,
    runTurns_turns fw.bootld fun _ => rfl, runTurns_turns fw.fwImg fun _ => rfl,
    Nat.zero_add]

end

/-! ## Inside the bounds -/

/-- The file is parsed inside its bounds: its turns read bytes of the file only, are as many as
the size of the image takes, and write between the boot loader and the end of the image; and the
image is inside the file. -/
structure ParsedInBounds (fw : Firmware) : Prop where
  reads : ∀ t ∈ fw.loadTurns, t.offset + 8 ≤ fw.size
  words : fw.imageTurns.length = fw.sizeWords
  writes : ∀ t ∈ fw.loadTurns, bootldStart ≤ t.addr ∧ t.addr + 8 ≤ imageStart + 8 * fw.sizeWords
  fits : imageStart + fw.imageSize.toNat ≤ fw.size

/-- **The condition**: the size is not negative as an `int`, and the image with its last word is
inside the file. -/
structure ImageFits (fw : Firmware) : Prop where
  nonneg : fw.imageSize.toNat < 2 ^ 31
  fits : imageStart + 8 * fw.sizeWords ≤ fw.size

section
variable {fw : Firmware}

/-- One word at most is copied of an image whose size is negative as an `int`. -/
theorem imageWords_of_le (h : 2 ^ 31 ≤ fw.imageSize.toNat) : fw.imageWords ≤ 1 := by
  have hint : fw.imageSize.toInt < 0 := by
    rw [BitVec.toInt_eq_toNat_cond, if_neg (by omega)]
    have := fw.imageSize.isLt
    omega
  have hdiv : (fw.imageSize.toInt.tdiv 8).toNat = 0 := by
    have hneg : 0 ≤ (-fw.imageSize.toInt).tdiv 8 := Int.tdiv_nonneg (by omega) (by decide)
    rw [Int.neg_tdiv] at hneg
    omega
  rw [Firmware.imageWords, hdiv]
  split <;> omega

theorem size_of_nxRequestFw {io : Site} {fwtype : FwType} (h : nxRequestFw io fwtype = some fw) :
    0x3fffff ≤ fw.size := by
  rw [nxRequestFw] at h
  split at h
  · exact absurd h.symm (Option.some_ne_none _)
  · split at h
    · exact absurd h.symm (Option.some_ne_none _)
    · rename_i hsize
      rw [← Option.some.inj h]
      exact Nat.le_of_not_lt hsize

/-- Every word of the boot loader and of the image is a turn. -/
theorem forall_mem_loadTurns {P : Turn → Prop} :
    (∀ t ∈ fw.loadTurns, P t) ↔
      (∀ i, i < bootldWords → P ⟨bootldStart + 8 * i, bootldStart + 8 * i⟩) ∧
        ∀ i, i < fw.imageWords → P ⟨imageStart + 8 * i, imageStart + 8 * i⟩ := by
  simp only [Firmware.loadTurns, imageTurns_eq, List.forall_mem_append, mem_turns]
  constructor
  · rintro ⟨hboot, himage⟩
    exact ⟨fun i hi => hboot _ ⟨i, hi, rfl⟩, fun i hi => himage _ ⟨i, hi, rfl⟩⟩
  · rintro ⟨hboot, himage⟩
    constructor
    · rintro t ⟨i, hi, rfl⟩
      exact hboot i hi
    · rintro t ⟨i, hi, rfl⟩
      exact himage i hi

/-- **A file that is accepted is parsed inside its bounds** just under the condition, whatever
else is in the file and whichever firmware it was asked for as. -/
theorem parsedInBounds_iff {io : Site} {fwtype : FwType} (h : nxRequestFw io fwtype = some fw) :
    ParsedInBounds fw ↔ ImageFits fw := by
  have hsize : 0x3fffff ≤ fw.size := size_of_nxRequestFw h
  have hboot : bootldStart + 8 * bootldWords = imageStart := rfl
  have himg : imageStart = 0x43000 := rfl
  have hceil : fw.imageSize.toNat ≤ 8 * fw.sizeWords := by
    rw [Firmware.sizeWords]
    omega
  constructor
  · intro hin
    have hwords : fw.imageWords = fw.sizeWords := by
      rw [← hin.words, imageTurns_eq, length_turns]
    refine ⟨Nat.lt_of_not_le fun hneg => ?_, ?_⟩
    · -- such a size takes more words than are copied
      have hone := imageWords_of_le hneg
      omega
    · -- the last word of the image is read inside the file
      rcases Nat.eq_zero_or_pos fw.sizeWords with hzero | hpos
      · omega
      · have hlast := (forall_mem_loadTurns.mp hin.reads).2 (fw.sizeWords - 1) (by omega)
        dsimp only at hlast
        omega
  · intro hfits
    have hwords : fw.imageWords = fw.sizeWords := fw.imageWords_of_lt hfits.nonneg
    have hend := hfits.fits
    refine ⟨forall_mem_loadTurns.mpr ⟨fun i hi => ?_, fun i hi => ?_⟩, ?_,
      forall_mem_loadTurns.mpr ⟨fun i hi => ?_, fun i hi => ?_⟩, ?_⟩
    · show bootldStart + 8 * i + 8 ≤ fw.size
      omega
    · show imageStart + 8 * i + 8 ≤ fw.size
      omega
    · rw [imageTurns_eq, length_turns, hwords]
    · show bootldStart ≤ bootldStart + 8 * i ∧ bootldStart + 8 * i + 8 ≤ _
      omega
    · have hle : bootldStart ≤ imageStart := by decide
      show bootldStart ≤ imageStart + 8 * i ∧ imageStart + 8 * i + 8 ≤ _
      omega
    · omega

/-- A file of the least size for an image of the given one. -/
def fileOfSize (imageSize : BitVec 32) : Firmware where
  size := 0x3fffff
  data := Words.store (fun _ => 0) fwSizeOffset 4 imageSize

def siteOf (fw : Firmware) : Site := ⟨fun _ => some fw, 0⟩

/-- An accepted file, with an image whose size is no multiple of 8: the last word is in bounds
too. -/
theorem parsedInBounds_of_small :
    nxRequestFw (siteOf (fileOfSize 0x1001)) .p3Ct = some (fileOfSize 0x1001) ∧
      (ParsedInBounds (fileOfSize 0x1001) ↔ ImageFits (fileOfSize 0x1001)) :=
  have hfile : nxRequestFw (siteOf (fileOfSize 0x1001)) .p3Ct = some (fileOfSize 0x1001) := rfl
  ⟨hfile, parsedInBounds_iff hfile⟩

/-- A file of 0x3fffff bytes that says its image has 0x400000 is accepted. -/
theorem long_image_accepted : ¬∀ (io : Site) (fwtype : FwType) (fw : Firmware),
    nxRequestFw io fwtype = some fw → ParsedInBounds fw := by
  intro h
  have hin := h (siteOf (fileOfSize 0x400000)) .p3Ct (fileOfSize 0x400000) rfl
  exact absurd hin.fits (by decide)

end
end Load
end NxNic

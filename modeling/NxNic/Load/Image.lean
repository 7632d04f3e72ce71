import NxNic.Load.Firmware

/-! # What a load leaves in the card's memory

The state is the card's memory, byte by byte, and a load changes it by the writes of
`Load/Firmware`, one after the other.  A `Card` says of each write whether it fails and what it
leaves behind, and of each read of the flash whether it fails.

The loaders look at none of the results of `unm_nic_pci_mem_write`, and `load_fw` does not look
at the result of `load_from_flash`.  So a load that returns 0 has put the image in its place
just where its writes happened to reach and to succeed, or where the bytes were there already.

`Complete` is what a load has to leave of its source, a file or the flash.  `Lands` is the
condition, byte by byte: the word it is in is written, and the write leaves it as it is to be.  A
loop of writes is one lemma about the bytes in its range and outside it, and `loads_complete_iff`
has the three loaders.
-/
namespace NxNic
namespace Load

/-! ## Complete images -/

/-- The number of bytes of the boot loader. -/
def bootldSize : Nat := imageStart - bootldStart

/-- The flash, byte by byte. -/
def Card.flashByte (card : Card) (addr : Nat) : BitVec 8 :=
  Words.byte (card.flash (addr / 4 * 4)) (addr % 4)

/-- The boot loader of the flash is in the card's memory. -/
def FlashComplete (card : Card) (m : Bytes) : Prop :=
  ∀ b, b < bootldSize → m (bootldStart + b) = card.flashByte (bootldStart + b)

/-- The boot loader and the image of a file are in the card's memory. -/
structure FileComplete (fw : Firmware) (m : Bytes) : Prop where
  bootld : ∀ b, b < bootldSize → m (bootldStart + b) = fw.data (bootldStart + b)
  image : ∀ b, b < fw.imageSize.toNat → m (imageStart + b) = fw.data (imageStart + b)

/-- What a load has to leave of its source. -/
def Complete (card : Card) (m : Bytes) : Source → Prop
  | .flash => FlashComplete card m
  | .file _ fw => FileComplete fw m

/-! ## The conditions -/

/-- A write of bytes succeeds, or leaves byte `j` as it is to be. -/
def WriteOutcome.Lands (outcome : WriteOutcome) (j : Nat) (byte : BitVec 8) : Prop :=
  match outcome with
  | .ok => True
  | .failed left => left j = byte

/-- The number of words that `do_load_fw_file` writes of the image: none of the whole ones when
the size is negative as an `int`. -/
def Firmware.imageWords (fw : Firmware) : Nat :=
  (fw.imageSize.toInt.tdiv 8).toNat + if fw.imageSize.toInt.tmod 8 ≠ 0 then 1 else 0

/-- **The condition** on a load from a file: every byte is in a word that is written and lands, or
was there already. -/
structure FileLands (card : Card) (fw : Firmware) (m : Bytes) : Prop where
  bootld : ∀ b, b < bootldSize → (card.writes (b / 8)).Lands (b % 8) (fw.data (bootldStart + b))
  image : ∀ b, b < fw.imageSize.toNat →
    if b / 8 < fw.imageWords then
      (card.writes (bootldWords + b / 8)).Lands (b % 8) (fw.data (imageStart + b))
    else m (imageStart + b) = fw.data (imageStart + b)

/-- The load from the flash comes to word `i`: no read up to there fails. -/
def Card.Reaches (card : Card) (i : Nat) : Prop := ∀ k, k < 2 * (i + 1) → card.readFails k = false

/-- **The condition** on a load from the flash. -/
def FlashLands (card : Card) (m : Bytes) : Prop :=
  ∀ b, b < bootldSize →
    (card.Reaches (b / 8) →
      (card.writes (b / 8)).Lands (b % 8) (card.flashByte (bootldStart + b))) ∧
    (¬card.Reaches (b / 8) → m (bootldStart + b) = card.flashByte (bootldStart + b))

/-! ## One write -/

variable {card : Card} {m : Bytes} {fw : Firmware}

theorem pciMemWrite_of_out {outcome : WriteOutcome} {off k : Nat} {data : BitVec 64}
    (h : k < off ∨ off + 8 ≤ k) : pciMemWrite outcome m off data k = m k := by
  cases outcome with
  | ok =>
    show Words.store m off 8 data k = m k
    rw [Words.store_apply, if_neg (by omega)]
  | failed left => exact if_neg (by omega)

/-- A byte of the word that is written is right just if the write lands there. -/
theorem pciMemWrite_eq_iff {outcome : WriteOutcome} {off j k : Nat} {data : BitVec 64}
    (hj : j < 8) (hk : k = off + j) {byte : BitVec 8} (hbyte : Words.byte data j = byte) :
    pciMemWrite outcome m off data k = byte ↔ outcome.Lands j byte := by
  subst hk
  cases outcome with
  | ok =>
    show Words.store m off 8 data (off + j) = byte ↔ True
    rw [Words.store_apply, if_pos (by omega), Nat.add_sub_cancel_left]
    exact iff_of_true hbyte trivial
  | failed left =>
    show (if off ≤ off + j ∧ off + j < off + 8 then left (off + j - off) else m (off + j)) = byte ↔
      left j = byte
    rw [if_pos (by omega), Nat.add_sub_cancel_left]

/-! ## Loops of writes -/

section Loops
variable {first start : Nat} {word : Nat → BitVec 64} {n : Nat}

/-- The loop leaves the rest of the memory alone. -/
theorem writeWords_of_out {k : Nat} (h : k < start ∨ start + 8 * n ≤ k) :
    writeWords card first start word n m k = m k := by
  induction n with
  | zero => rfl
  | succ n ih =>
    rw [writeWords, pciMemWrite_of_out (by omega)]
    exact ih (by omega)

/-- A byte within the loop's reach is right just if the write of its word lands. -/
theorem writeWords_eq_iff {b : Nat} (hb : b < 8 * n) {byte : BitVec 8}
    (hbyte : Words.byte (word (b / 8)) (b % 8) = byte) :
    writeWords card first start word n m (start + b) = byte ↔
      (card.writes (first + b / 8)).Lands (b % 8) byte := by
  induction n with
  | zero => exact absurd hb (Nat.not_lt_zero b)
  | succ n ih =>
    rw [writeWords]
    by_cases hlast : b / 8 = n
    · subst hlast
      exact pciMemWrite_eq_iff (Nat.mod_lt b (by decide)) (by omega) hbyte
    · rw [pciMemWrite_of_out (by omega)]
      exact ih (by omega)

end Loops

/-- A word of a file has the file's bytes. -/
theorem byte_bootld {b : Nat} :
    Words.byte (fw.bootld (b / 8)) (b % 8) = fw.data (bootldStart + b) := by
  have hlt : b % 8 < 8 := Nat.mod_lt b (by decide)
  rw [Firmware.bootld, Words.byte_load _ _ _ (by omega), if_pos hlt]
  congr 1
  omega

theorem byte_fwImg {b : Nat} :
    Words.byte (fw.fwImg (b / 8)) (b % 8) = fw.data (imageStart + b) := by
  have hlt : b % 8 < 8 := Nat.mod_lt b (by decide)
  rw [Firmware.fwImg, Words.byte_load _ _ _ (by omega), if_pos hlt]
  congr 1
  omega

/-- A word of the flash has the flash's bytes. -/
theorem byte_flashWord {b : Nat} :
    Words.byte ((card.flash (bootldStart + 8 * (b / 8) + 4)).setWidth 64 <<< 32 |||
      (card.flash (bootldStart + 8 * (b / 8))).setWidth 64) (b % 8) =
        card.flashByte (bootldStart + b) := by
  have hlt : b % 8 < 8 := Nat.mod_lt b (by decide)
  have hbase : bootldStart = 4 * 0x4000 := rfl
  rw [Words.byte_or, Words.byte_shiftLeft _ 4 (by omega), Words.byte_setWidth _ (by omega),
    Card.flashByte]
  split
  · have haddr : (bootldStart + b) / 4 * 4 = bootldStart + 8 * (b / 8) := by omega
    have hbyte : (bootldStart + b) % 4 = b % 8 := by omega
    rw [BitVec.zero_or, haddr, hbyte, Words.byte_setWidth _ (by omega)]
  · have haddr : (bootldStart + b) / 4 * 4 = bootldStart + 8 * (b / 8) + 4 := by omega
    have hbyte : (bootldStart + b) % 4 = b % 8 - 4 := by omega
    rw [Words.byte_setWidth _ (by omega), Words.byte_of_le _ (by omega : 32 ≤ 8 * (b % 8)),
      BitVec.or_zero, haddr, hbyte]

/-! ## From a file -/

/-- The write for the tail of the image is one more turn of the loop. -/
theorem doLoadFwFile_eq (card : Card) (fw : Firmware) (m : Bytes) :
    doLoadFwFile card fw m =
      (0, writeWords card bootldWords imageStart fw.fwImg fw.imageWords
        (writeWords card 0 bootldStart fw.bootld bootldWords m)) := by
  rw [doLoadFwFile, Firmware.imageWords]
  by_cases htail : fw.imageSize.toInt.tmod 8 ≠ 0
  · rw [if_pos htail, if_pos htail]
    rfl
  · rw [if_neg htail, if_neg htail]
    rfl

theorem fileComplete_iff (card : Card) (fw : Firmware) (m : Bytes) :
    FileComplete fw (doLoadFwFile card fw m).2 ↔ FileLands card fw m := by
  have hsize : bootldStart + 8 * bootldWords = imageStart := rfl
  have hbytes : bootldSize = 8 * bootldWords := rfl
  rw [doLoadFwFile_eq]
  have hbootld : ∀ b, b < bootldSize →
      (writeWords card bootldWords imageStart fw.fwImg fw.imageWords
        (writeWords card 0 bootldStart fw.bootld bootldWords m) (bootldStart + b) =
          fw.data (bootldStart + b) ↔
        (card.writes (b / 8)).Lands (b % 8) (fw.data (bootldStart + b))) := by
    intro b hb
    rw [writeWords_of_out (by omega), ← Nat.zero_add (b / 8)]
    exact writeWords_eq_iff (hbytes ▸ hb) byte_bootld
  have himage : ∀ b, b < fw.imageSize.toNat →
      (writeWords card bootldWords imageStart fw.fwImg fw.imageWords
        (writeWords card 0 bootldStart fw.bootld bootldWords m) (imageStart + b) =
          fw.data (imageStart + b) ↔
        if b / 8 < fw.imageWords then
          (card.writes (bootldWords + b / 8)).Lands (b % 8) (fw.data (imageStart + b))
        else m (imageStart + b) = fw.data (imageStart + b)) := by
    intro b _
    split
    · exact writeWords_eq_iff (by omega) byte_fwImg
    · rw [writeWords_of_out (by omega), writeWords_of_out (by omega)]
  constructor
  · intro h
    exact ⟨fun b hb => (hbootld b hb).mp (h.bootld b hb),
      fun b hb => (himage b hb).mp (h.image b hb)⟩
  · intro h
    exact ⟨fun b hb => (hbootld b hb).mpr (h.bootld b hb),
      fun b hb => (himage b hb).mpr (h.image b hb)⟩

/-! ## From the flash -/

section Flash
variable {n i : Nat}

theorem flashLoop_of_out {k : Nat} (h : k < bootldStart + 8 * i) :
    (flashLoop card n i m).2 k = m k := by
  induction n generalizing i m with
  | zero => rfl
  | succ n ih =>
    rw [flashLoop]
    split
    · rfl
    · split
      · rfl
      · exact (ih (by omega)).trans (pciMemWrite_of_out (.inl h))

/-- The loop returns 0 just if none of its reads fails. -/
theorem flashLoop_eq_zero :
    (flashLoop card n i m).1 = 0 ↔ ∀ k, 2 * i ≤ k → k < 2 * (i + n) → card.readFails k = false := by
  induction n generalizing i m with
  | zero => exact iff_of_true rfl fun k h1 h2 => by omega
  | succ n ih =>
    rw [flashLoop]
    split
    · rename_i hfails
      exact iff_of_false (by decide : (-1 : Int) ≠ 0) fun h =>
        absurd (hfails.symm.trans (h (2 * i) (by omega) (by omega))) nofun
    · rename_i hlow
      split
      · rename_i hfails
        exact iff_of_false (by decide : (-1 : Int) ≠ 0) fun h =>
          absurd (hfails.symm.trans (h (2 * i + 1) (by omega) (by omega))) nofun
      · rename_i hhigh
        refine ih.trans ⟨fun h k h1 h2 => ?_, fun h k h1 h2 => h k (by omega) (by omega)⟩
        rcases (by omega : k = 2 * i ∨ k = 2 * i + 1 ∨ 2 * (i + 1) ≤ k) with rfl | rfl | hk
        · exact Bool.eq_false_iff.mpr hlow
        · exact Bool.eq_false_iff.mpr hhigh
        · exact h k hk (by omega)

/-- A byte of the boot loader is right after the loop just if its write lands, when the loop
comes to it, and otherwise if it was right before. -/
theorem flashLoop_eq_iff {b : Nat} (hfrom : i ≤ b / 8) (hto : b / 8 < i + n)
    (hbefore : ∀ k, k < 2 * i → card.readFails k = false) :
    (flashLoop card n i m).2 (bootldStart + b) = card.flashByte (bootldStart + b) ↔
      (card.Reaches (b / 8) →
        (card.writes (b / 8)).Lands (b % 8) (card.flashByte (bootldStart + b))) ∧
      (¬card.Reaches (b / 8) → m (bootldStart + b) = card.flashByte (bootldStart + b)) := by
  induction n generalizing i m with
  | zero => omega
  | succ n ih =>
    rw [flashLoop]
    split
    · rename_i hfails
      have hnot : ¬card.Reaches (b / 8) := fun h =>
        absurd (hfails.symm.trans (h (2 * i) (by omega))) nofun
      exact ⟨fun h => ⟨fun hr => absurd hr hnot, fun _ => h⟩, fun h => h.2 hnot⟩
    · rename_i hlow
      split
      · rename_i hfails
        have hnot : ¬card.Reaches (b / 8) := fun h =>
          absurd (hfails.symm.trans (h (2 * i + 1) (by omega))) nofun
        exact ⟨fun h => ⟨fun hr => absurd hr hnot, fun _ => h⟩, fun h => h.2 hnot⟩
      · rename_i hhigh
        have hclear : ∀ k, k < 2 * (i + 1) → card.readFails k = false := by
          intro k hk
          rcases (by omega : k < 2 * i ∨ k = 2 * i ∨ k = 2 * i + 1) with hlt | rfl | rfl
          · exact hbefore k hlt
          · exact Bool.eq_false_iff.mpr hlow
          · exact Bool.eq_false_iff.mpr hhigh
        rcases Nat.lt_or_eq_of_le hfrom with hlt | rfl
        · refine (ih (by omega) (by omega) hclear).trans ?_
          rw [pciMemWrite_of_out (by omega)]
        · -- the rest of the loop is past the word
          have hreaches : card.Reaches (b / 8) := hclear
          rw [flashLoop_of_out (by omega)]
          exact (pciMemWrite_eq_iff (Nat.mod_lt b (by decide)) (by omega) byte_flashWord).trans
            ⟨fun h => ⟨fun _ => h, fun hn => absurd hreaches hn⟩, fun h => h.1 hreaches⟩

end Flash

theorem flashComplete_iff (card : Card) (m : Bytes) :
    FlashComplete card (loadFromFlash card m).2 ↔ FlashLands card m := by
  have hbytes : bootldSize = 8 * bootldWords := rfl
  rw [FlashComplete, FlashLands]
  refine forall_congr' fun b => imp_congr_right fun hb => ?_
  exact flashLoop_eq_iff (Nat.zero_le _) (by omega) fun k hk => absurd hk (Nat.not_lt_zero k)

/-! ## The loads -/

/-- **The condition** on a load from either source. -/
def Lands (card : Card) (m : Bytes) : Source → Prop
  | .flash => FlashLands card m
  | .file _ fw => FileLands card fw m

/-- **A load that returns 0 leaves a complete image** just under the condition, whichever loader
it is; `load_from_flash` also when it returns -1.  The file may say anything of its size, and any
of the reads and writes may fail. -/
theorem loads_complete_iff (io : Site) (cmpVersions : Int) (a : Adapter) (card : Card)
    (fw : Firmware) (m : Bytes) :
    (((doLoadFwFile card fw m).1 = 0 → FileComplete fw (doLoadFwFile card fw m).2) ↔
      FileLands card fw m) ∧
    (((loadFromFlash card m).1 = 0 → FlashComplete card (loadFromFlash card m).2) ↔
      (∃ k, k < 2 * bootldWords ∧ card.readFails k = true) ∨ FlashLands card m) ∧
    (((loadFw io cmpVersions a card m).rv = 0 →
        Complete card (loadFw io cmpVersions a card m).memory (selectFw io cmpVersions a).source) ↔
      Lands card m (selectFw io cmpVersions a).source) := by
  have hfile : ∀ fw, (doLoadFwFile card fw m).1 = 0 := fun fw => by rw [doLoadFwFile_eq]
  refine ⟨?_, ?_, ?_⟩
  · exact (forall_prop_of_true (hfile fw)).trans (fileComplete_iff card fw m)
  · rw [imp_iff_not_or, flashComplete_iff, loadFromFlash, flashLoop_eq_zero]
    refine or_congr_left ?_
    constructor
    · intro h
      by_contra hnone
      refine h fun k _ hk => Bool.not_eq_true _ ▸ fun hfails => hnone ⟨k, by omega, hfails⟩
    · rintro ⟨k, hk, hfails⟩ hall
      exact absurd (hfails.symm.trans (hall k (Nat.zero_le k) (by omega))) nofun
  · cases hsource : (selectFw io cmpVersions a).source with
    | flash =>
      simp only [loadFw, hsource, forall_true_left]
      exact flashComplete_iff card m
    | file t fw =>
      simp only [loadFw, hsource]
      exact (forall_prop_of_true (hfile fw)).trans (fileComplete_iff card fw m)

/-- The image is copied whole, in words, when its size is not negative as an `int`. -/
theorem Firmware.imageWords_of_lt (fw : Firmware) (h : fw.imageSize.toNat < 2 ^ 31) :
    fw.imageWords = (fw.imageSize.toNat + 7) / 8 := by
  have hint : fw.imageSize.toInt = fw.imageSize.toNat := BitVec.toInt_eq_toNat_of_lt (by omega)
  rw [Firmware.imageWords, hint, Int.tdiv_eq_ediv_of_nonneg (Int.natCast_nonneg _),
    Int.tmod_eq_emod_of_nonneg (Int.natCast_nonneg _)]
  split <;> omega

/-- When nothing fails, and the size of the image is not negative as an `int`, every load lands. -/
theorem lands_of_nothing_fails (hreads : ∀ k, card.readFails k = false)
    (hwrites : ∀ k, card.writes k = .ok) {source : Source}
    (hsize : ∀ t fw, source = .file t fw → fw.imageSize.toNat < 2 ^ 31) :
    Lands card m source := by
  have hlands : ∀ k j byte, (card.writes k).Lands j byte := by
    intro k j byte
    rw [hwrites]
    trivial
  cases source with
  | flash => exact fun b _ => ⟨fun _ => hlands _ _ _, fun hnot => absurd (fun k _ => hreads k) hnot⟩
  | file t fw =>
    refine ⟨fun b _ => hlands _ _ _, fun b hb => ?_⟩
    have hlt := hsize t fw rfl
    have hwords : b / 8 < fw.imageWords := by
      rw [fw.imageWords_of_lt hlt]
      omega
    rw [if_pos hwords]
    exact hlands _ _ _

/-- A card from which nothing can be read. -/
def unreadableCard : Card := ⟨fun _ => 0x12345678, fun _ => true, fun _ => .ok⟩

/-- Nothing can be read from the flash, `load_from_flash` returns -1, and `load_fw` returns 0 with
the memory as it was. -/
theorem load_reports_success :
    let io : Site := ⟨fun _ => none, 0⟩
    let a : Adapter := { revisionId := 0x42, flashVer := ⟨4, 0, 579⟩, biosVer := ⟨2, 1, 0⟩ }
    let r := loadFw io loadFwFromFlash a unreadableCard fun _ => 0
    r.rv = 0 ∧ ¬Complete unreadableCard r.memory (selectFw io loadFwFromFlash a).source := by
  refine ⟨rfl, fun h => ?_⟩
  exact absurd (h 0 (by decide)) (by decide +kernel)

end Load
end NxNic

import NxNic.Lib.Words

/-! # Bytes of the flash

`unm_nic_get_eeprom` gives a range of the flash's bytes to a tool.  The flash is read by words:
a word that begins before the range, the words within it, and a word that ends after it.

The state (`RomState`) is the caller's memory, the variable `data` that the words are read into,
and a log of the reads; what the flash answers (`RomAnswer`: the attempts of its lock, the polls,
the word) is free for every read.  The range's words in order are `wordRead`, of which there are
`wordCnt`.  While the function runs, the beginning of the range has been copied and its first
words have been read, each once (`Copied`), so that the head, the loop and the tail need not be
told apart by what came before them.

The result is `unmNicGetEeprom_correct`: the function succeeds just if all words of the range can
be read, it then has copied exactly the bytes asked for, and it reads no other words and writes
nothing else in any case.
-/
namespace NxNic
namespace Tool
open Words

/-! ## A read of the flash -/

/-- What the card answers to one call: which attempts of `rom_lock` are granted, the status
register at each poll, and the word that is read. -/
structure RomAnswer where
  romLock : Nat → Bool
  globStatus : Nat → BitVec 32
  rdata : BitVec 32

/-- `rom_max_timeout`. -/
def romMaxTimeout : Nat := 100

/-- `wait_rom_done`, with so many polls left. -/
def waitRomDone (a : RomAnswer) : Nat → Int
  | 0 => -1
  | n + 1 =>
    -- the last poll counts as a timeout, whatever it reads
    if n = 0 then -1
    else if a.globStatus (romMaxTimeout - (n + 1)) &&& 2#32 ≠ 0#32 then 0
    else waitRomDone a n

/-- `do_rom_fast_read`; the second value is `*valp`. -/
def doRomFastRead (a : RomAnswer) (valp : BitVec 32) : Int × BitVec 32 :=
  if waitRomDone a romMaxTimeout ≠ 0 then (-1, valp) else (0, a.rdata)

/-- How often `rom_fast_read` tries at most. -/
def romLockLoops : Nat := 50000

/-- The attempts of `rom_fast_read` that fail, with so many left. -/
def lockLoops (a : RomAnswer) : Nat → Nat
  | 0 => romLockLoops
  | n + 1 =>
    if a.romLock (romLockLoops - (n + 1)) then romLockLoops - (n + 1) else lockLoops a n

/-- `rom_fast_read`. -/
def romFastRead (a : RomAnswer) (valp : BitVec 32) : Int × BitVec 32 :=
  if romLockLoops ≤ lockLoops a romLockLoops then (-1, valp) else doRomFastRead a valp

theorem romFastRead_cases (a : RomAnswer) (valp : BitVec 32) :
    romFastRead a valp = (-1, valp) ∨ romFastRead a valp = (0, a.rdata) := by
  rw [romFastRead, doRomFastRead]
  split
  · exact .inl rfl
  · split
    · exact .inl rfl
    · exact .inr rfl

/-- Whether a read fails does not depend on what is in `*valp`. -/
theorem romFastRead_fst (a : RomAnswer) (valp valp' : BitVec 32) :
    (romFastRead a valp).1 = (romFastRead a valp').1 := by
  rw [romFastRead, romFastRead, doRomFastRead, doRomFastRead]
  split
  · rfl
  · split <;> rfl

/-! ## The range -/

/-- `MAX_ROM_SIZE`. -/
def maxRomSize : Nat := 64 * (64 * 1024)

/-- `b_align`. -/
def bAlign : Nat := 4

/-- The identity of the device in `ahw`. -/
structure DeviceIds where
  vendorId : BitVec 16
  deviceId : BitVec 16

/-- `struct ethtool_eeprom`. -/
structure Eeprom where
  magic : BitVec 32
  offset : BitVec 32
  len : BitVec 32

/-- The memory of the caller, `data`, and the reads of the flash that were made, each with
its address and what it returned. -/
structure RomState where
  mem : Bytes
  data : BitVec 32
  reads : List (Nat × Int)

namespace RomState
variable (rom : Nat → Nat → RomAnswer) (s : RomState)

/-- `rom_fast_read(adapter, addr, &data)`; the answer may be another one for each read. -/
def read (addr : Nat) : Int × RomState :=
  let r := romFastRead (rom s.reads.length addr) s.data
  (r.1, { s with data := r.2, reads := s.reads ++ [(addr, r.1)] })

/-- `memcpy` from the bytes of `data`, from byte `j` on. -/
def memcpyData (dst j n : Nat) : RomState :=
  { s with mem := copy s.mem dst n fun k => byte s.data (j + k) }

end RomState

/-- The loop over the words within the range; it gives where `i` is left, or nothing if the
function returns. -/
def readWords (rom : Nat → Nat → RomAnswer) (bytes bOffset bEnd i : Nat) (s : RomState) :
    Option Nat × RomState :=
  if (i : Int) ≤ bEnd - bOffset - bAlign then
    let r := s.read rom (bOffset + i)
    if r.1 = -1 then (none, r.2)
    else readWords rom bytes bOffset bEnd (i + bAlign) (r.2.memcpyData (bytes + i) 0 bAlign)
  else (some i, s)
termination_by bEnd - bOffset - i
decreasing_by
  rw [bAlign] at *
  omega

/-- The rest of `unm_nic_get_eeprom`, from the loop on. -/
def getWords (rom : Nat → Nat → RomAnswer) (bytes bOffset bEnd : Nat) (s : RomState) :
    Int × RomState :=
  match readWords rom bytes bOffset bEnd 0 s with
  | (none, s) => (-1, s)
  | (some i, s) =>
    if bEnd % bAlign &&& 3 ≠ 0 then
      let r := s.read rom (bOffset + i)
      if r.1 = -1 then (-1, r.2) else (0, r.2.memcpyData (bytes + i) 0 (bEnd % bAlign))
    else (0, s)

/-- `-EINVAL`. -/
def einval : Int := -22

/-- The length is cut at the end of the flash. -/
def Eeprom.clip (eeprom : Eeprom) : Eeprom :=
  if maxRomSize < (eeprom.offset + eeprom.len).toNat then
    { eeprom with len := BitVec.ofNat 32 maxRomSize - eeprom.offset }
  else eeprom

/-- `unm_nic_get_eeprom`.  `b_offset` and `b_end` are never negative. -/
def unmNicGetEeprom (rom : Nat → Nat → RomAnswer) (ahw : DeviceIds) (eeprom : Eeprom)
    (bytes : Nat) (s : RomState) : Int × Eeprom × RomState :=
  if eeprom.len.toNat ≤ 0 ∨ maxRomSize ≤ eeprom.offset.toNat then (einval, eeprom, s)
  else
    let magic := ahw.vendorId.setWidth 32 ||| ahw.deviceId.setWidth 32 <<< 16
    let eeprom := { eeprom with magic := magic }.clip
    let bOffset := eeprom.offset.toNat
    let bEnd := (eeprom.len + eeprom.offset).toNat
    let bRem := eeprom.offset.toNat % 4
    if bRem &&& 3 ≠ 0 then
      let bOffset := bOffset - bRem
      let r := s.read rom bOffset
      if r.1 = -1 then (-1, eeprom, r.2)
      else if eeprom.len.toNat < bAlign - bRem then
        (0, eeprom, r.2.memcpyData bytes bRem eeprom.len.toNat)
      else
        let r := getWords rom (bytes + (bAlign - bRem)) (bOffset + bAlign) bEnd
          (r.2.memcpyData bytes bRem (bAlign - bRem))
        (r.1, eeprom, r.2)
    else
      let r := getWords rom bytes bOffset bEnd s
      (r.1, eeprom, r.2)

/-! ## What has been copied -/

/-- A word of the flash that is read is that of its bytes. -/
def ReadsFlash (rom : Nat → Nat → RomAnswer) (flash : Bytes) : Prop :=
  ∀ n w v, (romFastRead (rom n (4 * w)) v).1 = 0 →
    ∀ j, j < 4 → byte (romFastRead (rom n (4 * w)) v).2 j = flash (4 * w + j)

/-- The address of a word of the flash. -/
def IsWord (a : Nat) : Prop := 4 ∣ a ∧ a < maxRomSize

/-- The read of word `i` of the range from `off` on, if it is the `i`-th one: the address and
what `rom_fast_read` returns. -/
def wordRead (rom : Nat → Nat → RomAnswer) (off i : Nat) : Nat × Int :=
  (4 * (off / 4 + i), (romFastRead (rom i (4 * (off / 4 + i))) 0).1)

/-- The reads of the first `k` words. -/
def wordReads (rom : Nat → Nat → RomAnswer) (off k : Nat) : List (Nat × Int) :=
  (List.range k).map (wordRead rom off)

/-- How many words the `n` bytes from `off` on are in. -/
def wordCnt (off n : Nat) : Nat := (off + n + 3) / 4 - off / 4

/-- The first `n` bytes of the range from `off` on are at `p`; its first `k` words have been
read, and no read has failed. -/
structure Copied (rom : Nat → Nat → RomAnswer) (flash : Bytes) (off p n k : Nat) (m : Bytes)
    (s : RomState) : Prop where
  mem : s.mem = copy m p n fun j => flash (off + j)
  reads : s.reads = wordReads rom off k
  ok : ∀ i < k, (wordRead rom off i).2 = 0

/-- No more than `len` bytes of the range are at `p`, and the last read of a word is the first that
has failed. -/
structure Failed (rom : Nat → Nat → RomAnswer) (flash : Bytes) (off p len : Nat) (m : Bytes)
    (s : RomState) : Prop where
  mem : ∃ n, n ≤ len ∧ s.mem = copy m p n fun j => flash (off + j)
  reads : ∃ k < wordCnt off len, s.reads = wordReads rom off (k + 1) ∧
    (∀ i < k, (wordRead rom off i).2 = 0) ∧ (wordRead rom off k).2 ≠ 0

section
variable {rom : Nat → Nat → RomAnswer} {flash m : Bytes} {off p n k len : Nat} {s : RomState}

/-- The next word is read: the read fails, or it gives the bytes of the word. -/
theorem Copied.read (h : Copied rom flash off p n k m s) (hrom : ReadsFlash rom flash)
    (hn : n ≤ len) (hk : k < wordCnt off len) :
    ((s.read rom (4 * (off / 4 + k))).1 = -1 ∧
        Failed rom flash off p len m (s.read rom (4 * (off / 4 + k))).2) ∨
      ((s.read rom (4 * (off / 4 + k))).1 = 0 ∧
        Copied rom flash off p n (k + 1) m (s.read rom (4 * (off / 4 + k))).2 ∧
        ∀ j, j < 4 → byte (s.read rom (4 * (off / 4 + k))).2.data j =
          flash (4 * (off / 4 + k) + j)) := by
  have hlength : s.reads.length = k := by
    rw [h.reads, wordReads, List.length_map, List.length_range]
  have hnext : (s.read rom (4 * (off / 4 + k))).2.reads = wordReads rom off (k + 1) := by
    show s.reads ++ [_] = _
    rw [hlength, h.reads, wordReads, wordReads, List.range_succ, List.map_append]
    refine congrArg _ (congrArg (fun r => [r]) (Prod.ext rfl ?_))
    exact romFastRead_fst ..
  have hword := hrom k (off / 4 + k) s.data
  have hret : (wordRead rom off k).2 = (romFastRead (rom k (4 * (off / 4 + k))) s.data).1 :=
    romFastRead_fst ..
  rcases romFastRead_cases (rom k (4 * (off / 4 + k))) s.data with hbad | hok
  · rw [hbad] at hret
    refine .inl ⟨?_, ⟨n, hn, h.mem⟩, k, hk, hnext, h.ok, ?_⟩
    · rw [RomState.read, hlength, hbad]
    · rw [hret]
      exact Int.neg_ne_zero.mpr Int.one_ne_zero
  · rw [hok] at hret hword
    refine .inr ⟨?_, ⟨h.mem, hnext, fun i hi => ?_⟩, ?_⟩
    · rw [RomState.read, hlength, hok]
    · rcases Nat.lt_succ_iff_lt_or_eq.mp hi with hlt | rfl
      · exact h.ok i hlt
      · exact hret
    · rw [RomState.read, hlength, hok]
      exact hword rfl

/-- Bytes of a word are put after those that have been copied. -/
theorem Copied.memcpyData (h : Copied rom flash off p n k m s) {a j c dst : Nat}
    (hdata : ∀ i, i < 4 → byte s.data i = flash (a + i)) (hdst : dst = p + n)
    (hsrc : a + j = off + n) (hc : j + c ≤ 4) :
    Copied rom flash off p (n + c) k m (s.memcpyData dst j c) := by
  refine ⟨?_, h.reads, h.ok⟩
  have hmem : (s.memcpyData dst j c).mem =
      copy (copy m p n fun i => flash (off + i)) (p + n) c fun i => byte s.data (j + i) := by
    rw [RomState.memcpyData, h.mem, hdst]
  refine hmem.trans (copy_copy fun i hi => ?_)
  have hbyte : a + (j + i) = off + (n + i) := by omega
  rw [hdata (j + i) (by omega), hbyte]

/-- Both pointers are at byte `n` of the range, at the beginning of its word `k`. -/
structure AtByte (off p len bytes bOffset n k : Nat) : Prop where
  bytes : bytes = p + n
  offset : bOffset = off + n
  word : bOffset = 4 * (off / 4 + k)
  le : n ≤ len

/-- The word is one of the range. -/
theorem AtByte.lt_wordCnt {bytes bOffset : Nat} (hat : AtByte off p len bytes bOffset n k)
    (hn : n < len) : k < wordCnt off len := by
  have hoff := hat.offset
  have hword := hat.word
  rw [wordCnt]
  omega

theorem AtByte.le_iff {bytes bOffset i : Nat} (hat : AtByte off p len bytes (bOffset + i) n k) :
    (i : Int) ≤ ((off + len : Nat) : Int) - bOffset - bAlign ↔ n + 4 ≤ len := by
  have hoff := hat.offset
  rw [bAlign]
  omega

/-- **The loop** copies the words that are within the range, or a read of it fails. -/
theorem readWords_spec (hrom : ReadsFlash rom flash) {bytes bOffset i : Nat}
    (hat : AtByte off p len (bytes + i) (bOffset + i) n k)
    (h : Copied rom flash off p n k m s) :
    (∃ s', readWords rom bytes bOffset (off + len) i s = (none, s') ∧
        Failed rom flash off p len m s') ∨
      ∃ j n' k' s', readWords rom bytes bOffset (off + len) i s = (some j, s') ∧
        AtByte off p len (bytes + j) (bOffset + j) n' k' ∧ len < n' + 4 ∧
        Copied rom flash off p n' k' m s' := by
  fun_induction readWords rom bytes bOffset (off + len) i s generalizing n k with
  | case1 i s hi r =>
    rename_i hr
    have hword : n + 4 ≤ len := hat.le_iff.mp hi
    have hread := h.read hrom hat.le (hat.lt_wordCnt (by omega))
    rw [← hat.word] at hread
    rcases hread with ⟨-, hfail⟩ | ⟨hok, -⟩
    · exact .inl ⟨_, rfl, hfail⟩
    · exact absurd (hok.symm.trans hr) (by decide)
  | case2 i s hi r hr =>
    rename_i ih
    have hword : n + 4 ≤ len := hat.le_iff.mp hi
    have hread := h.read hrom hat.le (hat.lt_wordCnt (by omega))
    rw [← hat.word] at hread
    rcases hread with ⟨hbad, -⟩ | ⟨-, hcopied, hdata⟩
    · exact absurd hbad hr
    · refine ih ⟨?_, ?_, ?_, hword⟩ (hcopied.memcpyData hdata hat.bytes ?_ (by decide))
      · rw [← Nat.add_assoc, hat.bytes, bAlign, Nat.add_assoc]
      · rw [← Nat.add_assoc, hat.offset, bAlign, Nat.add_assoc]
      · rw [← Nat.add_assoc, hat.word, bAlign]
        omega
      · exact hat.offset
  | case3 i s hi =>
    exact .inr ⟨i, n, k, s, rfl, hat, Nat.lt_of_not_le (mt hat.le_iff.mpr hi), h⟩

/-- The range has been copied and all its words have been read, or a read has failed and the
function returns its error. -/
def Outcome (rom : Nat → Nat → RomAnswer) (flash : Bytes) (off p len : Nat) (m : Bytes) (ret : Int)
    (s : RomState) : Prop :=
  (ret = 0 ∧ Copied rom flash off p len (wordCnt off len) m s) ∨
    (ret = -1 ∧ Failed rom flash off p len m s)

theorem and_three (k : Nat) : k % 4 &&& 3 = k % 4 := by
  rw [Nat.and_two_pow_sub_one_eq_mod (k % 4) 2]
  exact Nat.mod_mod k 4

theorem getWords_spec (hrom : ReadsFlash rom flash) {bytes bOffset : Nat}
    (hat : AtByte off p len bytes bOffset n k) (h : Copied rom flash off p n k m s) :
    Outcome rom flash off p len m (getWords rom bytes bOffset (off + len) s).1
      (getWords rom bytes bOffset (off + len) s).2 := by
  rw [getWords]
  rcases readWords_spec (i := 0) hrom hat h with
    ⟨s', heq, hfail⟩ | ⟨j, n', k', s', heq, hend, hn', hc⟩
  · rw [heq]
    exact .inr ⟨rfl, hfail⟩
  · have hoff := hend.offset
    have hword := hend.word
    have hle := hend.le
    have hrem : (off + len) % bAlign = len - n' := by
      rw [bAlign]
      omega
    rw [heq]
    dsimp only
    rw [bAlign, and_three, ← bAlign, hrem]
    split
    · -- the last word ends after the range
      have hread := hc.read hrom hle (hend.lt_wordCnt (by omega))
      rw [← hword] at hread
      rcases hread with ⟨hbad, hfail⟩ | ⟨hok, hread, hdata⟩
      · rw [if_pos hbad]
        exact .inr ⟨rfl, hfail⟩
      · have hlen : n' + (len - n') = len := Nat.add_sub_cancel' hle
        have hcnt : k' + 1 = wordCnt off len := by
          rw [wordCnt]
          omega
        rw [if_neg (by rw [hok]; decide)]
        have hdone := hread.memcpyData (j := 0) (c := len - n') hdata hend.bytes hoff (by omega)
        rw [hlen, hcnt] at hdone
        exact .inl ⟨rfl, hdone⟩
    · have hlen : n' = len := by omega
      have hcnt : k' = wordCnt off len := by
        rw [wordCnt]
        omega
      exact .inl ⟨rfl, hcnt ▸ hlen ▸ hc⟩

end

/-! ## The call -/

/-- How many bytes there are from the offset to the end of the flash, at most those asked
for. -/
def Eeprom.clipped (eeprom : Eeprom) : Nat :=
  min eeprom.len.toNat (maxRomSize - eeprom.offset.toNat)

/-- The range begins in the flash, is not empty and does not wrap. -/
structure Eeprom.InRange (eeprom : Eeprom) : Prop where
  offset : eeprom.offset.toNat < maxRomSize
  len : 0 < eeprom.len.toNat
  wrap : eeprom.offset.toNat + eeprom.len.toNat < 2 ^ 32

theorem Eeprom.offset_clip (eeprom : Eeprom) : eeprom.clip.offset = eeprom.offset := by
  rw [clip]
  split <;> rfl

theorem Eeprom.InRange.len_clip {eeprom : Eeprom} (h : eeprom.InRange) :
    eeprom.clip.len.toNat = eeprom.clipped := by
  have hoff := h.offset
  have hmax : maxRomSize = 4194304 := rfl
  have hsum : (eeprom.offset + eeprom.len).toNat = eeprom.offset.toNat + eeprom.len.toNat :=
    BitVec.toNat_add_of_lt h.wrap
  rw [Eeprom.clip, Eeprom.clipped, hsum]
  split
  · have hsub : (BitVec.ofNat 32 maxRomSize - eeprom.offset).toNat =
        maxRomSize - eeprom.offset.toNat := by
      rw [BitVec.toNat_sub_of_le]
      · rfl
      · rw [BitVec.le_def]
        exact Nat.le_of_lt hoff
    rw [hsub]
    omega
  · omega

theorem Eeprom.InRange.end_clip {eeprom : Eeprom} (h : eeprom.InRange) :
    (eeprom.clip.len + eeprom.clip.offset).toNat = eeprom.offset.toNat + eeprom.clipped := by
  have hwrap := h.wrap
  have hmin : eeprom.clipped ≤ eeprom.len.toNat := Nat.min_le_left _ _
  rw [eeprom.offset_clip, BitVec.add_comm, BitVec.toNat_add_of_lt (by rw [h.len_clip]; omega),
    h.len_clip]

section
variable {rom : Nat → Nat → RomAnswer} {flash m : Bytes} {eeprom : Eeprom} {bytes : Nat}
  {s : RomState}

theorem len_unmNicGetEeprom (ahw : DeviceIds) (hrange : eeprom.InRange) :
    (unmNicGetEeprom rom ahw eeprom bytes s).2.1.len.toNat = eeprom.clipped := by
  have hoff := hrange.offset
  have hpos := hrange.len
  have hlen : ∀ magic, ({ eeprom with magic := magic } : Eeprom).clip.len.toNat =
      eeprom.clipped := fun magic =>
    Eeprom.InRange.len_clip ⟨hrange.offset, hrange.len, hrange.wrap⟩
  rw [unmNicGetEeprom, if_neg (by omega)]
  dsimp only
  split_ifs
  · exact hlen _
  · exact hlen _
  · exact hlen _
  · exact hlen _

/-- The words from the one the range begins in: it begins at a word, ends within its first
word or goes on after that. -/
theorem unmNicGetEeprom_outcome (hrom : ReadsFlash rom flash) (ahw : DeviceIds)
    (hrange : eeprom.InRange) (hs : s.reads = []) :
    Outcome rom flash eeprom.offset.toNat bytes eeprom.clipped s.mem
      (unmNicGetEeprom rom ahw eeprom bytes s).1 (unmNicGetEeprom rom ahw eeprom bytes s).2.2 := by
  have hoff := hrange.offset
  have hpos := hrange.len
  have hclip : eeprom.clipped ≤ maxRomSize - eeprom.offset.toNat := Nat.min_le_right _ _
  have hclipped : 0 < eeprom.clipped := by
    rw [Eeprom.clipped]
    omega
  have hcopied : Copied rom flash eeprom.offset.toNat bytes 0 0 s.mem s :=
    ⟨copy_zero.symm, hs, fun i hi => absurd hi (Nat.not_lt_zero i)⟩
  have hin : ∀ magic, ({ eeprom with magic := magic } : Eeprom).InRange := fun _ =>
    ⟨hrange.offset, hrange.len, hrange.wrap⟩
  have hoffset : ∀ magic, ({ eeprom with magic := magic } : Eeprom).clip.offset = eeprom.offset :=
    fun _ => Eeprom.offset_clip _
  have hlen : ∀ magic, ({ eeprom with magic := magic } : Eeprom).clip.len.toNat =
      eeprom.clipped := fun magic => (hin magic).len_clip
  have hend : ∀ magic, (({ eeprom with magic := magic } : Eeprom).clip.len +
      ({ eeprom with magic := magic } : Eeprom).clip.offset).toNat =
        eeprom.offset.toNat + eeprom.clipped := fun magic => (hin magic).end_clip
  rw [unmNicGetEeprom, if_neg (by omega)]
  dsimp only
  rw [hend, hoffset, hlen, and_three]
  by_cases hrem : eeprom.offset.toNat % 4 = 0
  · rw [if_neg (not_not.mpr hrem)]
    exact getWords_spec hrom ⟨rfl, rfl, by omega, Nat.zero_le _⟩ hcopied
  · rw [if_pos hrem]
    have hfirst : eeprom.offset.toNat - eeprom.offset.toNat % 4 =
        4 * (eeprom.offset.toNat / 4 + 0) := by omega
    have hcnt : 0 < wordCnt eeprom.offset.toNat eeprom.clipped := by
      rw [wordCnt]
      omega
    have hread := hcopied.read hrom (Nat.zero_le _) hcnt
    rw [← hfirst] at hread
    rcases hread with ⟨hbad, hfail⟩ | ⟨hok, hread, hdata⟩
    · rw [if_pos hbad]
      exact .inr ⟨rfl, hfail⟩
    · have hsrc : eeprom.offset.toNat - eeprom.offset.toNat % 4 + eeprom.offset.toNat % 4 =
          eeprom.offset.toNat + 0 := by omega
      rw [if_neg (by rw [hok]; decide)]
      split
      · rename_i hshort
        have hdone := hread.memcpyData (c := eeprom.clipped) hdata (Nat.add_zero bytes).symm hsrc
          (by rw [bAlign] at *; omega)
        have hone : 0 + 1 = wordCnt eeprom.offset.toNat eeprom.clipped := by
          rw [bAlign] at hshort
          rw [wordCnt]
          omega
        rw [Nat.zero_add eeprom.clipped, hone] at hdone
        exact .inl ⟨rfl, hdone⟩
      · have hhead := hread.memcpyData (c := bAlign - eeprom.offset.toNat % 4) hdata
          (Nat.add_zero bytes).symm hsrc (by rw [bAlign]; omega)
        rw [Nat.zero_add (bAlign - eeprom.offset.toNat % 4)] at hhead
        refine getWords_spec hrom ⟨rfl, ?_, ?_, ?_⟩ hhead
        · rw [bAlign]
          omega
        · rw [bAlign]
          omega
        · omega

theorem Outcome.reads {off p len : Nat} {ret : Int} (h : Outcome rom flash off p len m ret s) :
    ∃ k ≤ wordCnt off len, s.reads = wordReads rom off k ∧
      ∀ i, i + 1 < k → (wordRead rom off i).2 = 0 := by
  rcases h with ⟨-, hdone⟩ | ⟨-, hfail⟩
  · exact ⟨_, Nat.le_refl _, hdone.reads, fun i hi => hdone.ok i (Nat.lt_of_succ_lt hi)⟩
  · obtain ⟨k, hk, hreads, hok, -⟩ := hfail.reads
    exact ⟨k + 1, hk, hreads, fun i hi => hok i (Nat.lt_of_succ_lt_succ hi)⟩

/-- The words of the range are words of the flash. -/
theorem isWord_of_mem_wordReads {off len k : Nat} (hmax : off + len ≤ maxRomSize)
    (hk : k ≤ wordCnt off len) {r : Nat × Int} (hr : r ∈ wordReads rom off k) : IsWord r.1 := by
  obtain ⟨i, hi, rfl⟩ := List.mem_map.mp hr
  have hi := List.mem_range.mp hi
  refine ⟨Nat.dvd_mul_right 4 _, ?_⟩
  have hdvd : maxRomSize = 4 * 1048576 := rfl
  rw [wordCnt] at hk
  show 4 * (off / 4 + i) < maxRomSize
  omega

theorem Outcome.frame {off p len k : Nat} {ret : Int} (h : Outcome rom flash off p len m ret s)
    (hk : k < p ∨ p + len ≤ k) : s.mem k = m k := by
  rcases h with ⟨-, hdone⟩ | ⟨-, hfail⟩
  · rw [hdone.mem, copy_of_not_mem hk]
  · obtain ⟨n, hn, hmem⟩ := hfail.mem
    rw [hmem, copy_of_not_mem (by omega)]

/-- The function succeeds if every word of the range can be read. -/
theorem Outcome.eq_zero_iff {off p len : Nat} {ret : Int}
    (h : Outcome rom flash off p len m ret s) :
    ret = 0 ↔ ∀ i < wordCnt off len, (wordRead rom off i).2 = 0 := by
  rcases h with ⟨rfl, hdone⟩ | ⟨rfl, hfail⟩
  · exact iff_of_true rfl hdone.ok
  · obtain ⟨k, hk, -, -, hbad⟩ := hfail.reads
    exact iff_of_false (by decide) fun hall => hbad (hall k hk)

/-- **`unm_nic_get_eeprom` gives the bytes that were asked for**, up to the end of the flash.  It
returns 0 if `rom_fast_read` succeeds for every word of the range, and -1 otherwise; with 0 the
caller has the range's bytes.  In any case it writes nothing else, and reads the range's words in
order, each once, until one of them fails. -/
theorem unmNicGetEeprom_correct (hrom : ReadsFlash rom flash) (hrange : eeprom.InRange)
    (ahw : DeviceIds) (bytes : Nat) (m : Bytes) (data : BitVec 32) :
    let r := unmNicGetEeprom rom ahw eeprom bytes ⟨m, data, []⟩
    let off := eeprom.offset.toNat
    let len := r.2.1.len.toNat
    len = min eeprom.len.toNat (maxRomSize - off) ∧
      (r.1 = 0 ↔ ∀ i < wordCnt off len, (wordRead rom off i).2 = 0) ∧ (r.1 = 0 ∨ r.1 = -1) ∧
      (r.1 = 0 → ∀ i, i < len → r.2.2.mem (bytes + i) = flash (off + i)) ∧
      (∀ k, k < bytes ∨ bytes + len ≤ k → r.2.2.mem k = m k) ∧
      (∃ k ≤ wordCnt off len, r.2.2.reads = wordReads rom off k ∧
        ∀ i, i + 1 < k → (wordRead rom off i).2 = 0) ∧
      ∀ a ∈ r.2.2.reads, 4 ∣ a.1 ∧ a.1 < maxRomSize := by
  have hout : Outcome rom flash eeprom.offset.toNat bytes eeprom.clipped m _ _ :=
    unmNicGetEeprom_outcome (s := ⟨m, data, []⟩) hrom ahw hrange rfl
  have hoff := hrange.offset
  have hclip : eeprom.clipped ≤ maxRomSize - eeprom.offset.toNat := Nat.min_le_right _ _
  obtain ⟨k, hk, hreads, hok⟩ := hout.reads
  dsimp only
  rw [len_unmNicGetEeprom ahw hrange]
  refine ⟨rfl, hout.eq_zero_iff, hout.imp And.left And.left, fun hret i hi => ?_,
    fun k hk => hout.frame hk, ⟨k, hk, hreads, hok⟩, fun a ha => ?_⟩
  · rcases hout with ⟨-, hdone⟩ | ⟨hbad, -⟩
    · rw [hdone.mem, copy_of_mem (Nat.le_add_right _ _) (by omega), Nat.add_sub_cancel_left]
    · exact absurd (hret.symm.trans hbad) (by decide)
  · rw [hreads] at ha
    exact isWord_of_mem_wordReads (by omega) hk ha

/-- A flash whose bytes count up, and every attempt and poll succeeds. -/
def countingRom : Nat → Nat → RomAnswer := fun _ a =>
  ⟨fun _ => true, fun _ => 2#32, load 32 (BitVec.ofNat 8) a 4⟩

theorem countingRom_readsFlash : ReadsFlash countingRom (BitVec.ofNat 8) := by
  intro n w v h j hj
  rcases romFastRead_cases (countingRom n (4 * w)) v with hbad | hok
  · rw [hbad] at h
    exact absurd h (Int.neg_ne_zero.mpr Int.one_ne_zero)
  · rw [hok]
    exact (byte_load _ _ _ (by omega)).trans (if_pos hj)

theorem countingRom_succeeds (n a : Nat) (v : BitVec 32) :
    (romFastRead (countingRom n a) v).1 = 0 := by
  have hlock : lockLoops (countingRom n a) (49999 + 1) = 0 := by
    rw [lockLoops]
    exact if_pos rfl
  have hwait : waitRomDone (countingRom n a) (99 + 1) = 0 := by
    rw [waitRomDone, if_neg (by decide)]
    exact if_pos (show (2#32 &&& 2#32) ≠ 0#32 by decide)
  rw [romFastRead, doRomFastRead, show romLockLoops = 49999 + 1 from rfl, hlock,
    show romMaxTimeout = 99 + 1 from rfl, hwait]
  rfl

/-- Six bytes from offset 3: a head of one byte, a word and a tail of one byte, in three words
that can all be read. -/
theorem unmNicGetEeprom_six :
    let r := unmNicGetEeprom countingRom ⟨0x4040, 0x0100⟩ ⟨0, 3, 6⟩ 0 ⟨fun _ => 0, 0, []⟩
    r.1 = 0 ∧ (∀ i, i < r.2.1.len.toNat → r.2.2.mem (0 + i) = BitVec.ofNat 8 (3 + i)) ∧
      wordCnt 3 6 = 3 ∧ r.2.1.len.toNat = 6 := by
  have hrange : (⟨0, 3, 6⟩ : Eeprom).InRange := ⟨by decide, by decide, by decide⟩
  obtain ⟨hlen, hret, -, hmem, -⟩ :=
    unmNicGetEeprom_correct countingRom_readsFlash hrange ⟨0x4040, 0x0100⟩ 0 (fun _ => 0) 0
  have hzero := hret.mpr fun i _ => countingRom_succeeds i _ 0
  exact ⟨hzero, hmem hzero, rfl, hlen⟩

end
end Tool
end NxNic

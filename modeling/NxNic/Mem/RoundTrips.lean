import NxNic.Mem.Merge

/-! # What is written can be read

The memories of the card, the DDR and the QDR, are read and written through an agent each, in
words of eight bytes, so that an access of fewer bytes, or of bytes in two words, is put together
from what is there.  `Mem/Access` has the loops over the two words, and
`Mem/Merge` what they store, byte by byte (`written`).

An access through the agents does what it is for if the bytes of the data, and no others, are in
the memory afterwards, and reading them gives them back: `RoundTrip`.  What is merged wrongly is
in the first word the address it is read from, which loses its high bits, and in the second one
the mask.  `FirstMerges` and `SecondMerges` say when the bytes come out right all the same, by
what the memories hold.  `written_iff` is the comparison on bytes; the two results add that the
functions return and read what is stored.
-/
namespace NxNic
namespace Mem

variable {off : BitVec 64} {size : Nat} {data : Bytes} {crb : MemCrb} {c c' : Card}

/-- The data are at `a`, and nothing else has changed. -/
structure Stored (c c' : Card) (crb : MemCrb) (a : Nat) (data : Bytes) (size : Nat) : Prop where
  data : ∀ k, k < size → c'.mem crb (a + k) = data k
  rest : ∀ k, ¬ (a ≤ k ∧ k < a + size) → c'.mem crb k = c.mem crb k
  others : ∀ crb', crb' ≠ crb → c'.mem crb' = c.mem crb'

/-- The write succeeds and stores the data, and the read that follows returns them. -/
def RoundTrip (write : BitVec 64 → Bytes → Nat → Card → Int × Card)
    (read : BitVec 64 → Bytes → Nat → Card → Int × Bytes × Card) (c : Card) (crb : MemCrb)
    (off : BitVec 64) (data : Bytes) (size : Nat) : Prop :=
  ∃ c', write off data size c = (0, c') ∧ Stored c c' crb (memOff off) data size ∧
    ∀ buf, ∃ data' c'', read off buf size c' = (0, data', c'') ∧ ∀ k, k < size → data' k = data k

/-- The range of the access is in one of the memories. -/
def InDdr (off : BitVec 64) (size : Nat) : Prop := off.toNat + size ≤ 0x10000000

def InQdr (off : BitVec 64) (size : Nat) : Prop :=
  0x300000000 ≤ off.toNat ∧ off.toNat + size ≤ 0x304000000

instance (off : BitVec 64) (size : Nat) : Decidable (InDdr off size) :=
  inferInstanceAs (Decidable (_ ≤ _))

instance (off : BitVec 64) (size : Nat) : Decidable (InQdr off size) :=
  inferInstanceAs (Decidable (_ ∧ _))

/-- The memory that an address is in. -/
def memoryOf (off : BitVec 64) : MemCrb := if off.toNat < 0x10000000 then .ddrNet else .qdrNet

/-- The rest of the first word is what the DDR has at the same offset. -/
def FirstMerges (c : Card) (crb : MemCrb) (off : BitVec 64) (size : Nat) : Prop :=
  ∀ k, wordOff off ≤ k → k < wordOff off + 8 → ¬ (memOff off ≤ k ∧ k < memOff off + size) →
    c.mem .ddrNet k = c.mem crb k

/-- There is no second word, or where the data go the DDR has no bit that they have not,
and the rest of the word is zero. -/
def SecondMerges (c : Card) (crb : MemCrb) (off : BitVec 64) (data : Bytes) (size : Nat) : Prop :=
  off0 off + size ≤ 8 ∨
    (∀ k, wordOff off + 8 ≤ k → k < memOff off + size →
      c.mem .ddrNet k ||| data (k - memOff off) = data (k - memOff off)) ∧
    ∀ k, memOff off + size ≤ k → k < wordOff off + 16 → c.mem crb k = 0#8

/-- What is left is what was to be stored just if the words merge. -/
theorem written_iff (h1 : 1 ≤ size) (h8 : size ≤ 8) :
    ((∀ k, k < size →
        written (c.mem .ddrNet) (c.mem crb) off data size (memOff off + k) = data k) ∧
      ∀ k, ¬ (memOff off ≤ k ∧ k < memOff off + size) →
        written (c.mem .ddrNet) (c.mem crb) off data size k = c.mem crb k) ↔
      FirstMerges c crb off size ∧ SecondMerges c crb off data size := by
  have hoff := toNat_off0 off
  have hmem := memOff_eq off
  constructor
  · rintro ⟨hdata, hrest⟩
    refine ⟨fun k hk1 hk2 hout => ?_, ?_⟩
    · have hk := hrest k hout
      rwa [written, if_neg hout, if_pos ⟨hk1, hk2⟩] at hk
    · by_cases hover : 8 < off0 off + size
      · refine Or.inr ⟨fun k hk1 hk2 => ?_, fun k hk1 hk2 => ?_⟩
        · have hk := hdata (k - memOff off) (by omega)
          rw [Nat.add_sub_cancel' (by omega)] at hk
          rwa [written, if_pos (by omega), if_neg (by omega)] at hk
        · have hk := hrest k (by omega)
          rw [written, if_neg (by omega), if_neg (by omega), if_pos (by omega)] at hk
          exact hk.symm
      · exact Or.inl (by omega)
  · rintro ⟨hfirst, hsecond⟩
    refine ⟨fun k hk => ?_, fun k hout => ?_⟩
    · rw [written, if_pos (by omega), Nat.add_sub_cancel_left]
      split
      · rfl
      · rename_i hover
        rcases hsecond with hfits | ⟨hbits, -⟩
        · omega
        · have hk' := hbits (memOff off + k) (by omega) (by omega)
          rwa [Nat.add_sub_cancel_left] at hk'
    · rw [written, if_neg hout]
      split
      · rename_i hin
        exact hfirst k hin.1 hin.2 hout
      · rename_i hfar
        split
        · rename_i hin
          rcases hsecond with hfits | ⟨-, hzero⟩
          · omega
          · exact (hzero k (by omega) (by omega)).symm
        · rfl

/-- **A round trip** succeeds just if the words merge. -/
theorem roundTrip_of_merges (env : MemEnv) (acc : Access)
    (hcrb : acc.memCrb off size = some crb)
    (hddr : ∀ off' : BitVec 64, off'.toNat + 8 ≤ 2 ^ 28 → acc.memCrb off' 8 = some .ddrNet)
    (hnever : c.NeverTimesOut) (hsize : IsSize size) (hroom : memOff off + size ≤ 2 ^ 28) :
    RoundTrip (memWrite env acc) (memRead env acc) c crb off data size ↔
      FirstMerges c crb off size ∧ SecondMerges c crb off data size := by
  obtain ⟨h1, h8⟩ := hsize.bounds
  obtain ⟨c₁, hwrite, hnever₁, hmem₁⟩ :=
    memWrite_spec env data hcrb hddr hnever hsize hroom
  have hself : c₁.mem crb = written (c.mem .ddrNet) (c.mem crb) off data size := by
    rw [hmem₁, Function.update_self]
  rw [← written_iff h1 h8]
  constructor
  · rintro ⟨c', hwrite', hstored, -⟩
    obtain rfl : c₁ = c' := (Prod.mk.inj (hwrite.symm.trans hwrite')).2
    exact ⟨fun k hk => hself ▸ hstored.data k hk, fun k hk => hself ▸ hstored.rest k hk⟩
  · rintro ⟨hdata, hrest⟩
    rw [← hself] at hdata hrest
    refine ⟨c₁, hwrite, ⟨hdata, hrest, fun crb' hne => ?_⟩, fun buf => ?_⟩
    · rw [hmem₁, Function.update_of_ne hne]
    · obtain ⟨data', c₂, hread, -, -, hbytes⟩ := memRead_spec env hcrb hnever₁ hsize hroom buf
      exact ⟨data', c₂, hread, fun k hk => (hbytes k hk).trans (hdata k hk)⟩

/-! ## The agent chosen -/

theorem boundCheck_of_inDdr (hsize : IsSize size) (h : InDdr off size) :
    unmNicPciMemBoundCheck off size = true := by
  obtain ⟨h1, h8⟩ := hsize.bounds
  unfold InDdr at h
  have hmax : unmAddrDdrNetMax.toNat = 0x0fffffff := rfl
  refine decide_eq_true ⟨?_, ?_, hsize⟩
  · rw [BitVec.le_def, hmax]
    omega
  · rw [BitVec.le_def, hmax, BitVec.toNat_sub, BitVec.toNat_add, BitVec.toNat_ofNat]
    have hone : (1 : BitVec 64).toNat = 1 := rfl
    omega

theorem memCrb128M_of_inDdr (hsize : IsSize size) (h : InDdr off size) :
    memCrb128M off size = some .ddrNet := by
  rw [memCrb128M, boundCheck_of_inDdr hsize h]
  rfl

theorem memCrb2M_of_inDdr (hsize : IsSize size) (h : InDdr off size) :
    memCrb2M off size = some .ddrNet := by
  have hlow : ¬ (unmAddrQdrNet ≤ off ∧ off ≤ nxP3AddrQdrNetMax) := by
    rintro ⟨hge, -⟩
    rw [BitVec.le_def] at hge
    have hnet : unmAddrQdrNet.toNat = 0x300000000 := rfl
    unfold InDdr at h
    omega
  rw [memCrb2M, if_neg hlow, boundCheck_of_inDdr hsize h]
  rfl

theorem memCrb2M_of_inQdr (h1 : 1 ≤ size) (h : InQdr off size) :
    memCrb2M off size = some .qdrNet := by
  obtain ⟨hge, hle⟩ := h
  have hnet : unmAddrQdrNet.toNat = 0x300000000 := rfl
  have hmax : nxP3AddrQdrNetMax.toNat = 0x303ffffff := rfl
  refine if_pos ⟨?_, ?_⟩
  · rw [BitVec.le_def, hnet]
    exact hge
  · rw [BitVec.le_def, hmax]
    omega

/-- Fetching a word is an access to the DDR. -/
theorem memCrb2M_word (off' : BitVec 64) (h : off'.toNat + 8 ≤ 2 ^ 28) :
    memCrb2M off' 8 = some .ddrNet :=
  memCrb2M_of_inDdr (Or.inr (Or.inr (Or.inr rfl))) h

theorem memCrb128M_word (off' : BitVec 64) (h : off'.toNat + 8 ≤ 2 ^ 28) :
    memCrb128M off' 8 = some .ddrNet :=
  memCrb128M_of_inDdr (Or.inr (Or.inr (Or.inr rfl))) h

/-! ## The two pairs of functions -/

/-- **The functions of the 2M BAR** write what can be read, and nothing else, just if
the words merge.  It is so for accesses of 1, 2, 4 and 8 bytes anywhere in either memory, with any
data and any contents, on an agent that does not time out. -/
theorem round_trip_2M_iff (env : MemEnv) (hnever : c.NeverTimesOut) (hsize : IsSize size)
    (hrange : InDdr off size ∨ InQdr off size) :
    RoundTrip (unmNicPciMemWrite2M env) (unmNicPciMemRead2M env) c (memoryOf off) off data size ↔
      FirstMerges c (memoryOf off) off size ∧ SecondMerges c (memoryOf off) off data size := by
  obtain ⟨h1, h8⟩ := hsize.bounds
  have hcrb : memCrb2M off size = some (memoryOf off) := by
    unfold memoryOf
    rcases hrange with h | h
    · rw [if_pos (by unfold InDdr at h; omega)]
      exact memCrb2M_of_inDdr hsize h
    · rw [if_neg (by have := h.1; omega)]
      exact memCrb2M_of_inQdr h1 h
  have hroom : memOff off + size ≤ 2 ^ 28 := by
    unfold memOff
    unfold InDdr InQdr at hrange
    omega
  exact roundTrip_of_merges env access2M hcrb memCrb2M_word hnever hsize hroom

/-- The other addresses are refused. -/
def refusing : MemEnv where
  readDirect _ data _ c := (-1, data, c)
  writeDirect _ _ _ c := (-1, c)
  undef := 0

/-- A card whose memories are filled with one value each. -/
def filledCard (ddr qdr : BitVec 8) : Card where
  mem
    | .ddrNet => fun _ => ddr
    | .qdrNet => fun _ => qdr
  delays _ := 3

theorem never_filledCard (ddr qdr : BitVec 8) : (filledCard ddr qdr).NeverTimesOut := fun _ =>
  (by decide : 3 < maxCtlCheck)

/-- In memories that are zero everything merges. -/
theorem merges_zero (crb : MemCrb) (off : BitVec 64) (data : Bytes) (size : Nat) :
    FirstMerges (filledCard 0 0) crb off size ∧
      SecondMerges (filledCard 0 0) crb off data size := by
  refine ⟨fun k _ _ _ => ?_, Or.inr ⟨fun k _ _ => BitVec.zero_or, fun k _ _ => ?_⟩⟩
  · cases crb <;> rfl
  · cases crb <;> rfl

/-- Two accesses that meet the condition: four bytes across two words of the DDR, and two bytes
within a word of the QDR, in memories that hold nothing but zeros. -/
theorem round_trip_2M_iff_zero :
    RoundTrip (unmNicPciMemWrite2M refusing) (unmNicPciMemRead2M refusing) (filledCard 0 0) .ddrNet
        6 (fun k => BitVec.ofNat 8 (k + 1)) 4 ∧
      RoundTrip (unmNicPciMemWrite2M refusing) (unmNicPciMemRead2M refusing) (filledCard 0 0)
        .qdrNet 0x300000013 (fun k => BitVec.ofNat 8 (k + 1)) 2 :=
  have hddr : InDdr 6 4 ∨ InQdr 6 4 := Or.inl (by decide)
  have hqdr : InDdr 0x300000013 2 ∨ InQdr 0x300000013 2 := Or.inr (by decide)
  ⟨(round_trip_2M_iff refusing (never_filledCard 0 0) (Or.inr (Or.inr (Or.inl rfl))) hddr).mpr
      (merges_zero ..),
    (round_trip_2M_iff refusing (never_filledCard 0 0) (Or.inr (Or.inl rfl)) hqdr).mpr
      (merges_zero ..)⟩

/-- A byte written to the QDR brings the bytes of the DDR around it along. -/
theorem ddr_bytes_in_qdr :
    ¬ RoundTrip (unmNicPciMemWrite2M refusing) (unmNicPciMemRead2M refusing) (filledCard 0xff 0)
      .qdrNet 0x300000000 (fun _ => 0x11) 1 := by
  intro h
  have hmerges := (roundTrip_of_merges refusing access2M
    (memCrb2M_of_inQdr (Nat.le_refl 1) (by decide)) memCrb2M_word (never_filledCard 0xff 0)
    (Or.inl rfl) (by decide)).mp h
  exact absurd (hmerges.1 1 (by decide) (by decide) (by decide)) (by decide)

/-- **The functions of the 128M BAR**, which access the DDR only.  The first word is merged with
itself there, and what is left of the condition is that of the second word. -/
theorem round_trip_128M_iff (env : MemEnv) (hnever : c.NeverTimesOut) (hsize : IsSize size)
    (hrange : InDdr off size) :
    RoundTrip (unmNicPciMemWrite128M env) (unmNicPciMemRead128M env) c .ddrNet off data size ↔
      SecondMerges c .ddrNet off data size := by
  have hroom : memOff off + size ≤ 2 ^ 28 := by
    unfold memOff
    unfold InDdr at hrange
    omega
  have hfirst : FirstMerges c .ddrNet off size := fun _ _ _ _ => rfl
  refine (roundTrip_of_merges env access128M (memCrb128M_of_inDdr hsize hrange) memCrb128M_word
    hnever hsize hroom).trans ?_
  exact and_iff_right hfirst

/-- Four bytes across two words that hold zeros. -/
theorem round_trip_128M_iff_zero :
    RoundTrip (unmNicPciMemWrite128M refusing) (unmNicPciMemRead128M refusing) (filledCard 0 0)
      .ddrNet 6 (fun k => BitVec.ofNat 8 (k + 1)) 4 :=
  (round_trip_128M_iff refusing (never_filledCard 0 0) (Or.inr (Or.inr (Or.inl rfl)))
    (by decide)).mpr (merges_zero ..).2

/-- Of two zeros that are written, the one in the second word does not get there. -/
theorem second_word_kept :
    ¬ RoundTrip (unmNicPciMemWrite128M refusing) (unmNicPciMemRead128M refusing)
      (filledCard 0xff 0) .ddrNet 7 (fun _ => 0) 2 := by
  intro h
  have hsize : IsSize 2 := Or.inr (Or.inl rfl)
  have hmerges := (roundTrip_of_merges refusing access128M
    (memCrb128M_of_inDdr hsize (by decide)) memCrb128M_word (never_filledCard 0xff 0) hsize
    (by decide)).mp h
  rcases hmerges.2 with hfits | ⟨hbits, -⟩
  · exact absurd hfits (by decide)
  · exact absurd (hbits 8 (by decide) (by decide)) (by decide)

end Mem
end NxNic

import NxNic.Mem.Agents

/-! # Access to the card memories through the agents

`unm_nic_pci_mem_read_2M` and `unm_nic_pci_mem_write_2M`, and their counterparts for
the 128M BAR, which differ in the choice of the agent and in the way to its
registers.  An access of up to eight bytes touches one or two of the agent's words;
the write functions fetch these words with the read function, put the data into them
and write them back.

The functions are given once, with what the two BARs differ in as a parameter (`Access`), and
each has its own definition as an instance.  `memRead_spec` says what a read leaves in the buffer;
the offsets and sizes of the two words are the arithmetic in front of it.
-/
namespace NxNic
namespace Mem

/-! ## The functions -/

/-- `unm_nic_pci_mem_bound_check`. -/
def unmNicPciMemBoundCheck (addr : BitVec 64) (size : Nat) : Bool :=
  decide (addr ≤ unmAddrDdrNetMax ∧ addr + BitVec.ofNat 64 size - 1 ≤ unmAddrDdrNetMax ∧
    (size = 1 ∨ size = 2 ∨ size = 4 ∨ size = 8))

/-- The agent that the functions of the 2M BAR use, if they use one. -/
def memCrb2M (off : BitVec 64) (size : Nat) : Option MemCrb :=
  if unmAddrQdrNet ≤ off ∧ off ≤ nxP3AddrQdrNetMax then some .qdrNet
  else if unmNicPciMemBoundCheck off size then some .ddrNet
  else none

/-- The same for the 128M BAR. -/
def memCrb128M (off : BitVec 64) (size : Nat) : Option MemCrb :=
  if unmNicPciMemBoundCheck off size then some .ddrNet else none

/-- `off8`, `off0`, `sz` and `loop`. -/
def off8 (off : BitVec 64) : BitVec 64 := off &&& 0xfffffff8

def off0 (off : BitVec 64) : Nat := (off &&& 7).toNat

def sz0 (off : BitVec 64) (size : Nat) : Nat :=
  if size < 8 - off0 off then size else 8 - off0 off

def sz1 (off : BitVec 64) (size : Nat) : Nat := size - sz0 off size

def loop (off : BitVec 64) (size : Nat) : Nat := (off0 off + size - 1) >>> 3 + 1

/-- The address of word `i` of the access, as the agent gets it. -/
def wordAddr (off : BitVec 64) (i : Nat) : BitVec 64 := off8 off + BitVec.ofNat 64 (i <<< 3)

/-- What the functions rest on: `unm_nic_pci_mem_read_direct` and
`unm_nic_pci_mem_write_direct`, which get the other addresses, and the value of a
shift by 64 bits or more, which C leaves open. -/
structure MemEnv where
  readDirect : BitVec 64 → Bytes → Nat → Card → Int × Bytes × Card
  writeDirect : BitVec 64 → Bytes → Nat → Card → Int × Card
  undef : BitVec 64

/-- A pair of functions: how they choose the agent and reach its registers. -/
structure Access where
  memCrb : BitVec 64 → Nat → Option MemCrb
  bus : Bus

namespace MemEnv
variable (env : MemEnv)

def shl (x : BitVec 64) (n : Nat) : BitVec 64 := if n < 64 then x <<< n else env.undef

def shr (x : BitVec 64) (n : Nat) : BitVec 64 := if n < 64 then x >>> n else env.undef

/-- `~(~0ULL << (n * 8))`. -/
def mask (n : Nat) : BitVec 64 := ~~~env.shl (BitVec.allOnes 64) (8 * n)

end MemEnv

/-- The loop of the read functions, for the rounds `is`. -/
def readRounds (bus : Bus) (crb : MemCrb) (off : BitVec 64) (size : Nat) :
    List Nat → (Nat → BitVec 64) → Card → Option (Nat → BitVec 64) × Card
  | [], word, c => (some word, c)
  | i :: is, word, c =>
      let first := if i = 0 then off0 off else 0
      let sz := if i = 0 then sz0 off size else sz1 off size
      match agentRead bus crb c ((wordAddr off i).setWidth 32) (first >>> 2)
          ((first + sz - 1) >>> 2) with
      | (none, c) => (none, c)
      | (some x, c) => readRounds bus crb off size is (Function.update word i x) c

/-- What the read functions make of the words. -/
def wordsVal (env : MemEnv) (off : BitVec 64) (size : Nat) (word : Nat → BitVec 64) : BitVec 64 :=
  if sz0 off size = 8 then word 0
  else
    env.shr (word 0) (8 * off0 off) &&& env.mask (sz0 off size) |||
      env.shl (word 1 &&& env.mask (sz1 off size)) (8 * sz0 off size)

/-- The value is stored at `data`, in `size` bytes. -/
def putVal (data : Bytes) (size : Nat) (val : BitVec 64) : Bytes :=
  match size with
  | 1 => Words.store data 0 1 (val.setWidth 8)
  | 2 => Words.store data 0 2 (val.setWidth 16)
  | 4 => Words.store data 0 4 (val.setWidth 32)
  | 8 => Words.store data 0 8 val
  | _ => data

/-- The read functions: the code returned, and what is at `data` then. -/
def memRead (env : MemEnv) (acc : Access) (off : BitVec 64) (data : Bytes) (size : Nat)
    (c : Card) : Int × Bytes × Card :=
  match acc.memCrb off size with
  | none => env.readDirect off data size c
  | some crb =>
      let c := changeCrbwindow acc.bus c 0
      let (words, c) :=
        readRounds acc.bus crb off size (List.range (loop off size)) (fun _ => 0#64) c
      let c := changeCrbwindow acc.bus c 1
      match words with
      | none => (-1, data, c)
      | some word => (0, putVal data size (wordsVal env off size word), c)

/-- The loop of the write functions that fetches the words, for the rounds `is`. -/
def fetchWords (read : BitVec 64 → Bytes → Nat → Card → Int × Bytes × Card) (off : BitVec 64) :
    List Nat → (Nat → BitVec 64) → Card → Option (Nat → BitVec 64) × Card
  | [], word, c => (some word, c)
  | i :: is, word, c =>
      match read (wordAddr off i) (fun k => Words.byte (word i) k) 8 c with
      | (0, data, c) => fetchWords read off is (Function.update word i (Words.ofBytes 64 data 8)) c
      | (_, _, c) => (none, c)

/-- `tmpw`. -/
def getVal (data : Bytes) (size : Nat) : BitVec 64 :=
  match size with
  | 1 => (Words.ofBytes 8 data 1).setWidth 64
  | 2 => (Words.ofBytes 16 data 2).setWidth 64
  | 4 => (Words.ofBytes 32 data 4).setWidth 64
  | _ => Words.ofBytes 64 data 8

/-- The data are put into the words. -/
def mergeWord0 (env : MemEnv) (off : BitVec 64) (size : Nat) (tmpw word : BitVec 64) : BitVec 64 :=
  word &&& ~~~env.shl (env.mask (sz0 off size)) (8 * off0 off) ||| env.shl tmpw (8 * off0 off)

def mergeWord1 (env : MemEnv) (off : BitVec 64) (size : Nat) (tmpw word : BitVec 64) : BitVec 64 :=
  word &&& env.mask (sz1 off size) ||| env.shr tmpw (8 * sz0 off size)

/-- The loop of the write functions, for the rounds `is`. -/
def writeRounds (bus : Bus) (crb : MemCrb) (off : BitVec 64) (word : Nat → BitVec 64) :
    List Nat → Card → Int × Card
  | [], c => (0, c)
  | i :: is, c =>
      match agentWrite bus crb c ((wordAddr off i).setWidth 32) (word i) with
      | (true, c) => writeRounds bus crb off word is c
      | (false, c) => (-1, c)

/-- The write functions. -/
def memWrite (env : MemEnv) (acc : Access) (off : BitVec 64) (data : Bytes) (size : Nat)
    (c : Card) : Int × Card :=
  match acc.memCrb off size with
  | none => env.writeDirect off data size c
  | some crb =>
      let rounds := List.range (loop off size)
      let (words, c) :=
        if size ≠ 8 ∨ off0 off ≠ 0 then fetchWords (memRead env acc) off rounds (fun _ => 0#64) c
        else (some fun _ => 0#64, c)
      match words with
      | none => (-1, c)
      | some word =>
          let tmpw := getVal data size
          let word := Function.update word 0 (mergeWord0 env off size tmpw (word 0))
          let word :=
            if loop off size = 2 then
              Function.update word 1 (mergeWord1 env off size tmpw (word 1))
            else word
          let c := changeCrbwindow acc.bus c 0
          let (ret, c) := writeRounds acc.bus crb off word rounds c
          (ret, changeCrbwindow acc.bus c 1)

def access2M : Access := ⟨memCrb2M, .nx⟩

def access128M : Access := ⟨memCrb128M, .bar⟩

def unmNicPciMemRead2M (env : MemEnv) := memRead env access2M
def unmNicPciMemWrite2M (env : MemEnv) := memWrite env access2M
def unmNicPciMemRead128M (env : MemEnv) := memRead env access128M
def unmNicPciMemWrite128M (env : MemEnv) := memWrite env access128M

/-! ## Addresses -/

/-- The offset in its memory that an address stands for. -/
def memOff (off : BitVec 64) : Nat := off.toNat % 2 ^ 32

/-- The first word of the access begins here. -/
def wordOff (off : BitVec 64) : Nat := memOff off / 8 * 8

theorem toNat_off0 (off : BitVec 64) : off0 off = memOff off % 8 := by
  rw [off0, BitVec.toNat_and, memOff]
  refine (Nat.and_two_pow_sub_one_eq_mod off.toNat 3).trans ?_
  omega

theorem toNat_off8 (off : BitVec 64) : (off8 off).toNat = wordOff off := by
  rw [off8, BitVec.toNat_and, wordOff, memOff]
  refine (Words.and_field off.toNat 3 29).trans ?_
  omega

theorem toNat_wordAddr (off : BitVec 64) {i : Nat} (hi : i ≤ 1) :
    (wordAddr off i).toNat = wordOff off + 8 * i := by
  have hoff : wordOff off < 2 ^ 32 := by
    unfold wordOff memOff
    omega
  rw [wordAddr, BitVec.toNat_add, toNat_off8, BitVec.toNat_ofNat, Nat.shiftLeft_eq]
  omega

variable {off : BitVec 64} {size : Nat}

/-- The agent's address of a word. -/
theorem agentAddr_wordAddr (hroom : memOff off + size ≤ 2 ^ 28) (hsize : 1 ≤ size) {i : Nat}
    (hi : i ≤ 1) : ((wordAddr off i).setWidth 32).toNat / 8 * 8 = wordOff off + 8 * i := by
  rw [BitVec.toNat_setWidth, toNat_wordAddr off hi]
  unfold wordOff
  omega

/-- **One word or two**: the parts of the access. -/
theorem parts_cases (off : BitVec 64) (h1 : 1 ≤ size) (h8 : size ≤ 8) :
    (loop off size = 1 ∧ off0 off + size ≤ 8 ∧ sz0 off size = size ∧ sz1 off size = 0) ∨
      (loop off size = 2 ∧ 8 < off0 off + size ∧ sz0 off size = 8 - off0 off ∧
        sz1 off size = off0 off + size - 8) := by
  have hoff := toNat_off0 off
  unfold loop sz1 sz0
  rw [Nat.shiftRight_eq_div_pow]
  by_cases hone : off0 off + size ≤ 8
  · left
    refine ⟨by omega, hone, ?_, ?_⟩
    · split <;> omega
    · split <;> omega
  · right
    refine ⟨by omega, by omega, ?_, ?_⟩
    · rw [if_neg (by omega)]
    · rw [if_neg (by omega)]
      omega

theorem memOff_eq (off : BitVec 64) : memOff off = wordOff off + off0 off := by
  rw [toNat_off0, wordOff]
  omega

/-! ## The read functions -/

variable {bus : Bus} {crb : MemCrb} {c c' c'' : Card}

theorem Changed.trans {m m' : Bytes} (h : Changed c crb m c') (h' : Changed c' crb m' c'') :
    Changed c crb m' c'' := by
  obtain ⟨k, hk⟩ := h.delays
  obtain ⟨k', hk'⟩ := h'.delays
  refine ⟨?_, ⟨k + k', ?_⟩, h'.currWindow.trans h.currWindow⟩
  · rw [h'.mem, h.mem, Function.update_idem]
  · rw [hk', hk]
    funext n
    exact congrArg c.delays (by omega)

theorem Changed.never {m : Bytes} (h : Changed c crb m c') (hnever : c.NeverTimesOut) :
    c'.NeverTimesOut := by
  obtain ⟨k, hk⟩ := h.delays
  intro n
  rw [hk]
  exact hnever (n + k)

theorem Changed.reaches {m : Bytes} (h : Changed c crb m c') (hreach : Reaches bus c) :
    Reaches bus c' := fun hbus => h.currWindow.trans (hreach hbus)

theorem Changed.mem_self {m : Bytes} (h : Changed c crb m c') : c'.mem crb = m := by
  rw [h.mem, Function.update_self]

/-- The words that the rounds leave: the bytes of the access. -/
theorem readRounds_spec (crb : MemCrb) (hreach : Reaches bus c) (hnever : c.NeverTimesOut)
    (h1 : 1 ≤ size) (h8 : size ≤ 8) (hroom : memOff off + size ≤ 2 ^ 28) :
    ∃ c' word, readRounds bus crb off size (List.range (loop off size)) (fun _ => 0#64) c =
        (some word, c') ∧ Changed c crb (c.mem crb) c' ∧
      (∀ i, off0 off ≤ i → i < off0 off + sz0 off size →
        Words.byte (word 0) i = c.mem crb (wordOff off + i)) ∧
      ∀ i, i < sz1 off size → Words.byte (word 1) i = c.mem crb (wordOff off + 8 + i) := by
  have hoff := toNat_off0 off
  have hparts := parts_cases off h1 h8
  have hhalves₀ : off0 off >>> 2 ≤ (off0 off + sz0 off size - 1) >>> 2 := by
    rw [Nat.shiftRight_eq_div_pow, Nat.shiftRight_eq_div_pow]
    omega
  have hlast₀ : (off0 off + sz0 off size - 1) >>> 2 ≤ 1 := by
    rw [Nat.shiftRight_eq_div_pow]
    omega
  -- the first round
  obtain ⟨c₁, x₀, hread₀, hchanged₀, hbytes₀⟩ := agentRead_spec crb hreach (hnever 0)
    ((wordAddr off 0).setWidth 32) hhalves₀ hlast₀
  rw [agentAddr_wordAddr hroom h1 (by omega)] at hbytes₀
  simp only [Nat.shiftRight_eq_div_pow] at hbytes₀
  have hword₀ : ∀ i, off0 off ≤ i → i < off0 off + sz0 off size →
      Words.byte x₀ i = c.mem crb (wordOff off + i) := by
    intro i hi1 hi2
    exact hbytes₀ i (by omega) (by omega)
  rcases hparts with ⟨hloop, hfits, hsz0, hsz1⟩ | ⟨hloop, hover, hsz0, hsz1⟩
  · refine ⟨c₁, Function.update (fun _ => 0#64) 0 x₀, ?_, hchanged₀, ?_, ?_⟩
    · rw [hloop]
      show readRounds bus crb off size [0] _ c = _
      rw [readRounds]
      simp only [if_true, hread₀]
      rfl
    · rw [Function.update_self]
      exact hword₀
    · rw [hsz1]
      exact fun i hi => absurd hi (Nat.not_lt_zero i)
  · -- the second round
    have hhalves₁ : 0 >>> 2 ≤ (0 + sz1 off size - 1) >>> 2 := Nat.zero_le _
    have hlast₁ : (0 + sz1 off size - 1) >>> 2 ≤ 1 := by
      rw [Nat.shiftRight_eq_div_pow]
      omega
    obtain ⟨c₂, x₁, hread₁, hchanged₁, hbytes₁⟩ := agentRead_spec crb
      (hchanged₀.reaches hreach) (hchanged₀.never hnever 0) ((wordAddr off 1).setWidth 32)
      hhalves₁ hlast₁
    rw [agentAddr_wordAddr hroom h1 (by omega), hchanged₀.mem_self] at hbytes₁
    simp only [Nat.shiftRight_eq_div_pow] at hbytes₁
    refine ⟨c₂, Function.update (Function.update (fun _ => 0#64) 0 x₀) 1 x₁, ?_,
      hchanged₀.trans (hchanged₀.mem_self ▸ hchanged₁), ?_, fun i hi => ?_⟩
    · rw [hloop]
      show readRounds bus crb off size [0, 1] _ c = _
      rw [readRounds]
      simp only [if_true, hread₀]
      rw [readRounds]
      simp only [one_ne_zero, if_false, hread₁]
      rfl
    · rw [Function.update_of_ne (by decide), Function.update_self]
      exact hword₀
    · rw [Function.update_self, hbytes₁ i (by omega) (by omega)]

namespace MemEnv
variable (env : MemEnv) {x : BitVec 64} {n i : Nat}

/-- Shifts by less than a word do not meet what C leaves open. -/
theorem byte_shl (hn : n < 8) (hi : i < 8) :
    Words.byte (env.shl x (8 * n)) i = if i < n then 0#8 else Words.byte x (i - n) := by
  rw [shl, if_pos (by omega), Words.byte_shiftLeft _ _ (by omega)]

theorem byte_shr (hn : n < 8) : Words.byte (env.shr x (8 * n)) i = Words.byte x (n + i) := by
  rw [shr, if_pos (by omega), Words.byte_shiftRight]

theorem mask_eq (hn : n < 8) : env.mask n = Words.low 64 n := by
  rw [mask, shl, if_pos (by omega), Words.low]

/-- A mask keeps the first bytes. -/
theorem byte_and_mask (hn : n < 8) (hi : i < 8) :
    Words.byte (x &&& env.mask n) i = if i < n then Words.byte x i else 0#8 := by
  rw [mask_eq env hn, Words.byte_and, Words.byte_low _ (by omega)]
  split
  · exact BitVec.and_allOnes
  · exact BitVec.and_zero

end MemEnv

/-- The value read has the bytes of the access. -/
theorem byte_wordsVal (env : MemEnv) (h1 : 1 ≤ size) (h8 : size ≤ 8) {m : Bytes}
    {word : Nat → BitVec 64}
    (hword₀ : ∀ i, off0 off ≤ i → i < off0 off + sz0 off size →
      Words.byte (word 0) i = m (wordOff off + i))
    (hword₁ : ∀ i, i < sz1 off size → Words.byte (word 1) i = m (wordOff off + 8 + i)) {k : Nat}
    (hk : k < size) : Words.byte (wordsVal env off size word) k = m (memOff off + k) := by
  have hoff := toNat_off0 off
  have hmem := memOff_eq off
  have hparts := parts_cases off h1 h8
  unfold wordsVal
  split
  · rename_i hfull
    rw [hword₀ k (by omega) (by omega), hmem]
    congr 1
    omega
  · rename_i hpart
    rw [Words.byte_or, env.byte_and_mask (by omega) (by omega), env.byte_shr (by omega),
      env.byte_shl (by omega) (by omega)]
    by_cases hfirst : k < sz0 off size
    · rw [if_pos hfirst, if_pos hfirst, BitVec.or_zero, hword₀ _ (by omega) (by omega), hmem,
        Nat.add_assoc]
    · rw [if_neg hfirst, if_neg hfirst, BitVec.zero_or, env.byte_and_mask (by omega) (by omega),
        if_pos (by omega), hword₁ _ (by omega)]
      congr 1
      omega

theorem putVal_apply (hsize : IsSize size) (data : Bytes) (val : BitVec 64) {k : Nat}
    (hk : k < size) : putVal data size val k = Words.byte val k := by
  rcases hsize with rfl | rfl | rfl | rfl
  all_goals
    refine (if_pos ⟨Nat.zero_le k, by omega⟩).trans ?_
    simp only [Nat.sub_zero]
  · exact Words.byte_setWidth _ (by omega)
  · exact Words.byte_setWidth _ (by omega)
  · exact Words.byte_setWidth _ (by omega)

/-- The BAR shows the registers once the window is selected. -/
theorem reaches_changeCrbwindow : Reaches bus (changeCrbwindow bus c 0) := by
  rintro rfl
  rfl

@[simp] theorem changeCrbwindow_mem (wndw : Nat) : (changeCrbwindow bus c wndw).mem = c.mem := by
  unfold changeCrbwindow
  split <;> rfl

@[simp] theorem changeCrbwindow_delays (wndw : Nat) :
    (changeCrbwindow bus c wndw).delays = c.delays := by
  unfold changeCrbwindow
  split <;> rfl

theorem never_changeCrbwindow {wndw : Nat} :
    (changeCrbwindow bus c wndw).NeverTimesOut ↔ c.NeverTimesOut := by
  simp only [Card.NeverTimesOut, changeCrbwindow_delays]

/-- **The read functions** return the bytes of the access, and leave the memories as
they are. -/
theorem memRead_spec (env : MemEnv) {acc : Access} (hcrb : acc.memCrb off size = some crb)
    (hnever : c.NeverTimesOut) (hsize : IsSize size) (hroom : memOff off + size ≤ 2 ^ 28)
    (data : Bytes) :
    ∃ data' c', memRead env acc off data size c = (0, data', c') ∧ c'.mem = c.mem ∧
      c'.NeverTimesOut ∧ ∀ k, k < size → data' k = c.mem crb (memOff off + k) := by
  obtain ⟨h1, h8⟩ := hsize.bounds
  have hreach : Reaches acc.bus (changeCrbwindow acc.bus c 0) := reaches_changeCrbwindow
  obtain ⟨c', word, hrounds, hchanged, hword₀, hword₁⟩ :=
    readRounds_spec crb hreach (never_changeCrbwindow.mpr hnever) h1 h8 hroom
  simp only [changeCrbwindow_mem] at hword₀ hword₁
  refine ⟨putVal data size (wordsVal env off size word), changeCrbwindow acc.bus c' 1, ?_, ?_,
    never_changeCrbwindow.mpr (hchanged.never (never_changeCrbwindow.mpr hnever)),
    fun k hk => ?_⟩
  · unfold memRead
    rw [hcrb]
    simp only [hrounds]
  · rw [changeCrbwindow_mem, hchanged.mem, Function.update_eq_self, changeCrbwindow_mem]
  · rw [putVal_apply hsize _ _ hk, byte_wordsVal env h1 h8 hword₀ hword₁ hk]

end Mem
end NxNic

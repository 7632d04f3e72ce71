import NxNic.Crb.Direct
import NxNic.Mem.Access
import NxNic.Mem.Direct

/-! # How far the memory accessors reach

The memory accessors again, for a size that is any `int`: the registers they need, the local
arrays `word`, `off0` and `sz` of two entries that their loops index, and what they store at
or load from the caller's buffer.

The functions run in `Lib/Effects`, and what they touch is the register or the place in an array.
`Guarded` is the condition on the address and the size under which the two functions stay within
bounds and do not crash, with one rule in each direction for a loop and for a function; the ioctl
uses them.
-/
namespace NxNic
namespace Mem

open Crb (Crash)

/-- Where the accessors work: the functions of one BAR on one function of the card. -/
structure Site where
  mode : BarMode
  p2 : Bool
  bars : Crb.Bars
  pciFunc : Fin 8

/-- What the card and the kernel answer: the cached windows, whether the agent is done in time
for each transaction, and what `ioremap` returns. -/
structure Answers where
  windows : Windows
  agent : Nat → Bool
  ioremap : BitVec 64 → Nat → BitVec 64

def Answers.after (ans : Answers) (n : Nat) : Answers :=
  { ans with agent := fun i => ans.agent (n + i) }

/-- The size as it is added to an address. -/
def sizeExt (size : BitVec 32) : Nat := (size.signExtend 64).toNat

section
variable {τ : Type}

/-! ## The agents -/

def MemCrb.base : MemCrb → BitVec 64
  | .ddrNet => 0x6200000
  | .qdrNet => 0x7d00000

/-- A register of the agent, which the functions of the 2M BAR reach through `NXRD32` and
`NXWR32`. -/
def agentReg (site : Site) (crb : MemCrb) (reg : Nat) : Effect τ Crash Unit :=
  match site.mode with
  | .bar128M => pure ()
  | .bar2M => Crb.hwAccess2M site.bars (crb.base + BitVec.ofNat 64 reg) 4 (pure ())

def agentRegs (site : Site) (crb : MemCrb) : List Nat → Effect τ Crash Unit
  | [] => pure ()
  | reg :: regs => do
    agentReg site crb reg
    agentRegs site crb regs

/-- `loop`, as the 32-bit arithmetic of the code has it. -/
def loopCount (off : BitVec 64) (size : BitVec 32) : Nat :=
  (((BitVec.ofNat 32 (off0 off) + size - 1).sshiftRight 3).toInt + 1).toNat

/-- `sz[0]` and `sz[1]`. -/
def szInt (off : BitVec 64) (size : BitVec 32) (i : Nat) : Int :=
  let sz0 := if size.toInt < 8 - off0 off then size.toInt else 8 - off0 off
  if i = 0 then sz0 else size.toInt - sz0

/-- The halves `start` to `end` that round `i` reads. -/
def halves (off : BitVec 64) (size : BitVec 32) (i : Nat) : List Nat :=
  let first := if i = 0 then off0 off else 0
  let last := (first + szInt off size i - 1) / 4
  (List.range (last + 1 - (first / 4 : Nat)).toNat).map fun k => first / 4 + k

/-- A round of the read functions; whether the agent was done in time. -/
def readRound (site : Site) (ans : Answers) (crb : MemCrb) (off : BitVec 64) (size : BitVec 32)
    (i : Nat) : Effect τ Crash Bool := do
  agentRegs site crb [miuTestAgtAddrLo, miuTestAgtAddrHi, miuTestAgtCtrl]
  if ans.agent i then
    if i < 2 then
      agentRegs site crb ((halves off size i).map miuTestAgtRddata)
      pure true
    else .crash .overrun
  else pure false

def readLoop (site : Site) (ans : Answers) (crb : MemCrb) (off : BitVec 64) (size : BitVec 32) :
    List Nat → Effect τ Crash Bool
  | [] => pure true
  | i :: is => do
    let done ← readRound site ans crb off size i
    if done then readLoop site ans crb off size is else pure false

/-- A round of the write functions. -/
def writeRound (site : Site) (ans : Answers) (crb : MemCrb) (i : Nat) : Effect τ Crash Bool := do
  agentRegs site crb [miuTestAgtAddrLo, miuTestAgtAddrHi]
  if i < 2 then
    agentRegs site crb [miuTestAgtWrdataLo, miuTestAgtWrdataHi, miuTestAgtCtrl]
    pure (ans.agent i)
  else .crash .overrun

def writeLoop (site : Site) (ans : Answers) (crb : MemCrb) : List Nat → Effect τ Crash Bool
  | [] => pure true
  | i :: is => do
    let done ← writeRound site ans crb i
    if done then writeLoop site ans crb is else pure false

/-! ## The functions -/

/-- The window register that `unm_nic_pci_set_window_2M` writes and reads back. -/
def winCrb (site : Site) (off : BitVec 64) : Option (BitVec 64) :=
  let func := site.pciFunc.val
  let place := if func < 4 then 0x20 * func else 0xa0 + 0x10 * (func - 4)
  if AddrInRange off unmAddrDdrNet unmAddrDdrNetMax ∨
      AddrInRange off unmAddrOcm0 unmAddrOcm0Max then
    some ((0x100000 + 0x10200 + BitVec.ofNat 64 place) ||| Crb.unmPciCrbspace)
  else if AddrInRange off unmAddrQdrNet nxP3AddrQdrNetMax then
    some ((0x100000 + 0x10208 + BitVec.ofNat 64 place) ||| Crb.unmPciCrbspace)
  else none

def windowReg (site : Site) (off : BitVec 64) : Effect τ Crash Unit :=
  match site.mode, winCrb site off with
  | .bar2M, some reg => Crb.hwAccess2M site.bars reg 4 (pure ())
  | _, _ => pure ()

/-- `unm_nic_pci_mem_read_direct` and `unm_nic_pci_mem_write_direct`: `move n` stores or loads
`n` bytes, and `failed` is what the first of them does when `ioremap` fails. -/
def memDirect (site : Site) (ans : Answers) (off : BitVec 64) (size : BitVec 32)
    (move : Nat → Effect τ Crash Unit) (failed : Effect τ Crash Unit) : Effect τ Crash Int := do
  windowReg site off
  match moveWindow site.mode site.p2 ans.windows off (sizeExt size) with
  | none => .crash .bug
  | some (none, _) => pure (-1)
  | some (some start, _) =>
    if Crb.pciBaseOffset site.bars start = 0 ∧
        Crb.remapPages site.bars ans.ioremap start size = 0 then do
      failed
      pure (-1)
    else if IsSize (sizeExt size) then do
      move (sizeExt size)
      pure 0
    else pure (-1)

/-- The agent that the functions of a BAR use, if they use one. -/
def memCrb (mode : BarMode) (off : BitVec 64) (size : BitVec 32) : Option MemCrb :=
  match mode with
  | .bar128M => memCrb128M off (sizeExt size)
  | .bar2M => memCrb2M off (sizeExt size)

/-- `unm_nic_pci_mem_read_2M` and `unm_nic_pci_mem_read_128M`. -/
def memReadReach (site : Site) (ans : Answers) (off : BitVec 64) (size : BitVec 32)
    (store : Nat → Effect τ Crash Unit) : Effect τ Crash Int :=
  match memCrb site.mode off size with
  | none => memDirect site ans off size store (store 1)
  | some crb => do
    let done ← readLoop site ans crb off size (List.range (loopCount off size))
    if done then
      if IsSize (sizeExt size) then do
        store (sizeExt size)
        pure 0
      else pure 0
    else pure (-1)

/-- A store to `word[i]`. -/
def storeWord (i _n : Nat) : Effect τ Crash Unit := if i < 2 then pure () else .crash .overrun

/-- The loop that fetches the words to be changed. -/
def fetchLoop (site : Site) (ans : Answers) (off : BitVec 64) : List Nat → Effect τ Crash Bool
  | [] => pure true
  | i :: is => do
    let ret ← memReadReach site (ans.after i) (off8 off + BitVec.ofNat 64 (8 * i)) 8 (storeWord i)
    if ret = 0 then fetchLoop site ans off is else pure false

/-- Whole words are not fetched. -/
def fetchParts (site : Site) (ans : Answers) (off : BitVec 64) (size : BitVec 32) :
    Effect τ Crash Bool :=
  if size ≠ 8 ∨ off0 off ≠ 0 then fetchLoop site ans off (List.range (loopCount off size))
  else pure true

/-- What the switch over `size` loads into `tmpw`. -/
def tmpwSize (size : BitVec 32) : Nat :=
  if size = 1 ∨ size = 2 ∨ size = 4 then size.toNat else 8

/-- `unm_nic_pci_mem_write_2M` and `unm_nic_pci_mem_write_128M`. -/
def memWriteReach (site : Site) (ans : Answers) (off : BitVec 64) (size : BitVec 32)
    (load : Nat → Effect τ Crash Unit) : Effect τ Crash Int :=
  match memCrb site.mode off size with
  | none => memDirect site ans off size load (pure ())
  | some crb => do
    let fetched ← fetchParts site ans off size
    if fetched then do
      load (tmpwSize size)
      let done ← writeLoop site (ans.after (loopCount off size)) crb
        (List.range (loopCount off size))
      if done then pure 0 else pure (-1)
    else pure (-1)

/-! ## The loops -/

variable {site : Site} {ans : Answers} {off : BitVec 64} {size : BitVec 32} {crb : MemCrb}
variable {P : τ → Prop}

/-- The registers of the agents are in the CRB space. -/
theorem known_agentReg (crb : MemCrb) {reg : Nat} (h : reg < 0x100000) :
    Crb.Known2M (crb.base + BitVec.ofNat 64 reg) 4 := by
  have hbase : 0x6200000 ≤ crb.base.toNat ∧ crb.base.toNat ≤ 0x7d00000 := by
    cases crb <;> decide
  have hsum : (crb.base + BitVec.ofNat 64 reg).toNat = crb.base.toNat + reg := by
    rw [BitVec.toNat_add, BitVec.toNat_ofNat]
    omega
  refine ⟨?_, Or.inl ?_⟩
  · rw [BitVec.lt_def, hsum]
    show _ < 0xa000000
    omega
  · rw [BitVec.le_def, hsum]
    show 0x6000000 ≤ _
    omega

theorem wp_agentReg {Q : Unit → Prop} {reg : Nat} (h : reg < 0x100000) :
    Effect.wp P Q (agentReg site crb reg : Effect τ Crash Unit) ↔ Q () := by
  rw [agentReg]
  cases site.mode with
  | bar128M => exact Effect.wp_pure
  | bar2M =>
    exact Crb.wp_hwAccess2M.trans ((and_iff_right (known_agentReg crb h)).trans Effect.wp_pure)

theorem wp_agentRegs {Q : Unit → Prop} {regs : List Nat} (h : ∀ reg ∈ regs, reg < 0x100000) :
    Effect.wp P Q (agentRegs site crb regs : Effect τ Crash Unit) ↔ Q () := by
  induction regs with
  | nil => exact Effect.wp_pure
  | cons reg regs ih =>
    rw [agentRegs, Effect.wp_bind, wp_agentReg (h reg List.mem_cons_self)]
    exact ih fun r hr => h r (List.mem_cons_of_mem _ hr)

/-- `off0 + size - 1`. -/
def lastByte (off : BitVec 64) (size : BitVec 32) : BitVec 32 :=
  BitVec.ofNat 32 (off0 off) + size - 1

theorem loopCount_eq (off : BitVec 64) (size : BitVec 32) :
    loopCount off size = ((lastByte off size).toInt / 8 + 1).toNat := by
  rw [loopCount, BitVec.toInt_sshiftRight, Int.shiftRight_eq_div_pow]
  rfl

theorem loopCount_le_two : loopCount off size ≤ 2 ↔ (lastByte off size).toInt ≤ 15 := by
  rw [loopCount_eq]
  omega

/-- The size, when there is a round and at most two. -/
theorem toInt_size (h0 : 0 ≤ (lastByte off size).toInt) (h15 : (lastByte off size).toInt ≤ 15) :
    size.toInt = (lastByte off size).toInt - off0 off + 1 := by
  have hoff : off0 off < 8 := by
    have hmod := toNat_off0 off
    omega
  have hlast : (lastByte off size).toNat = (off0 off + size.toNat + (2 ^ 32 - 1)) % 2 ^ 32 := by
    rw [lastByte, BitVec.toNat_sub, BitVec.toNat_add, BitVec.toNat_ofNat]
    show (2 ^ 32 - 1 + _) % _ = _
    omega
  have hsize := size.isLt
  have hlastInt := BitVec.toInt_eq_toNat_cond (lastByte off size)
  rw [BitVec.toInt_eq_toNat_cond size]
  split at hlastInt <;> split <;> omega

/-- The rounds of at most two read the two halves of a word. -/
theorem halves_le_one {i k : Nat} (hloop : loopCount off size ≤ 2) (hi : i < loopCount off size)
    (hk : k ∈ halves off size i) : k ≤ 1 := by
  have h15 := loopCount_le_two.mp hloop
  rw [loopCount_eq] at hi
  have hsize := toInt_size (by omega) h15
  have hoff : off0 off < 8 := by
    have hmod := toNat_off0 off
    omega
  obtain ⟨j, hj, rfl⟩ := List.mem_map.mp hk
  rw [List.mem_range] at hj
  by_cases hfirst : i = 0
  · simp only [szInt, if_pos hfirst] at hj ⊢
    split at hj <;> omega
  · simp only [szInt, if_neg hfirst] at hj ⊢
    rw [if_neg (by omega)] at hj
    omega

theorem wp_readRound {Q : Bool → Prop} {i : Nat} (hloop : loopCount off size ≤ 2)
    (hi : i < loopCount off size) :
    Effect.wp P Q (readRound site ans crb off size i : Effect τ Crash Bool) ↔ Q (ans.agent i) := by
  rw [readRound, Effect.wp_bind, wp_agentRegs (by decide)]
  cases ans.agent i with
  | false => exact Effect.wp_pure
  | true =>
    have hregs : ∀ reg ∈ (halves off size i).map miuTestAgtRddata, reg < 0x100000 := by
      intro reg hreg
      obtain ⟨k, hk, rfl⟩ := List.mem_map.mp hreg
      have hhalf := halves_le_one hloop hi hk
      unfold miuTestAgtRddata
      omega
    rw [if_pos rfl, if_pos (by omega), Effect.wp_bind, wp_agentRegs hregs]
    exact Effect.wp_pure

/-- **The loop of the read functions**, of one round or two. -/
theorem wp_readLoop {Q : Bool → Prop} {is : List Nat} (hloop : loopCount off size ≤ 2)
    (his : ∀ i ∈ is, i < loopCount off size) :
    Effect.wp P Q (readLoop site ans crb off size is : Effect τ Crash Bool) ↔
      Q (is.all ans.agent) := by
  induction is with
  | nil => exact Effect.wp_pure
  | cons i is ih =>
    rw [readLoop, Effect.wp_bind, wp_readRound hloop (his i List.mem_cons_self), List.all_cons]
    cases ans.agent i with
    | false => exact Effect.wp_pure
    | true => exact ih fun j hj => his j (List.mem_cons_of_mem _ hj)

/-- A round whose agent is done goes on to the next, or crashes. -/
theorem readRound_ready {Q : Bool → Prop} {i : Nat} (hready : ans.agent i = true)
    (h : Effect.wp P Q (readRound site ans crb off size i : Effect τ Crash Bool)) :
    i < 2 ∧ Q true := by
  rw [readRound, Effect.wp_bind, wp_agentRegs (by decide), hready, if_pos rfl] at h
  split at h
  · rename_i hi
    rw [Effect.wp_bind] at h
    obtain ⟨-, r, -, hQ⟩ := h
    exact ⟨hi, Effect.wp_pure.mp hQ⟩
  · exact absurd h Effect.wp_crash

/-- A third round leaves the arrays. -/
theorem not_wp_readLoop {Q : Bool → Prop} {n : Nat} (hready : ∀ i, ans.agent i = true)
    (hn : 2 < n) :
    ¬ Effect.wp P Q (readLoop site ans crb off size (List.range n) : Effect τ Crash Bool) := by
  obtain ⟨m, rfl⟩ := Nat.exists_eq_add_of_le hn
  have hthree : List.range (2 + 1 + m) = 0 :: 1 :: 2 :: (List.range m).map (3 + ·) := by
    rw [List.range_add]
    rfl
  rw [hthree]
  intro h
  rw [readLoop, Effect.wp_bind] at h
  replace h := (readRound_ready (hready 0) h).2
  rw [if_pos rfl, readLoop, Effect.wp_bind] at h
  replace h := (readRound_ready (hready 1) h).2
  rw [if_pos rfl, readLoop, Effect.wp_bind] at h
  exact absurd (readRound_ready (hready 2) h).1 (by decide)

/-! ## The way through a window -/

/-- An offset that is put into the CRB space. -/
theorem known_or_crbspace {x : BitVec 64} (h : x.toNat < 2 ^ 27) :
    Crb.Known2M (x ||| Crb.unmPciCrbspace) 4 := by
  have hnat : (x ||| Crb.unmPciCrbspace).toNat = x.toNat ||| 0x6000000 := BitVec.toNat_or ..
  refine ⟨?_, Or.inl ?_⟩
  · rw [BitVec.lt_def, hnat]
    have hlt := Nat.or_lt_two_pow h (by decide : 0x6000000 < 2 ^ 27)
    show _ < 0xa000000
    omega
  · rw [BitVec.le_def, hnat]
    exact Nat.right_le_or

/-- The window registers are in the CRB space. -/
theorem known_winCrb {reg : BitVec 64} (h : winCrb site off = some reg) : Crb.Known2M reg 4 := by
  have hknown : ∀ base : BitVec 64, base.toNat < 0x20000 →
      Crb.Known2M ((0x100000 + base + BitVec.ofNat 64
        (if site.pciFunc.val < 4 then 0x20 * site.pciFunc.val
          else 0xa0 + 0x10 * (site.pciFunc.val - 4))) ||| Crb.unmPciCrbspace) 4 := by
    intro base hbase
    refine known_or_crbspace ?_
    have hfunc := site.pciFunc.isLt
    have hplace : (if site.pciFunc.val < 4 then 0x20 * site.pciFunc.val
        else 0xa0 + 0x10 * (site.pciFunc.val - 4)) < 0x100 := by
      split <;> omega
    rw [BitVec.toNat_add, BitVec.toNat_add, BitVec.toNat_ofNat]
    show ((0x100000 + _) % _ + _) % _ < _
    omega
  simp only [winCrb] at h
  split at h
  · exact Option.some.inj h ▸ hknown 0x10200 (by decide)
  · obtain ⟨-, h⟩ := Option.ite_none_right_eq_some.mp h
    exact Option.some.inj h ▸ hknown 0x10208 (by decide)

theorem wp_windowReg {Q : Unit → Prop} :
    Effect.wp P Q (windowReg site off : Effect τ Crash Unit) ↔ Q () := by
  rw [windowReg]
  split
  · rename_i hreg
    exact Crb.wp_hwAccess2M.trans ((and_iff_right (known_winCrb hreg)).trans Effect.wp_pure)
  · exact Effect.wp_pure

/-- The last byte that the second check looks at. -/
def lastAddr (off : BitVec 64) (size : BitVec 32) : BitVec 64 :=
  off + BitVec.ofNat 64 (sizeExt size) - 1

/-- An address of the DDR. -/
abbrev AtDdr (addr : BitVec 64) : Prop := AddrInRange addr unmAddrDdrNet unmAddrDdrNetMax

theorem atDdr_toNat {addr : BitVec 64} : AtDdr addr ↔ addr.toNat ≤ 0x0fffffff := inDdr_iff

theorem isSameWindow_eq_none {p2 : Bool} {w : Windows} {addr : BitVec 64} :
    unmNicPciIsSameWindow p2 w addr = none ↔ AtDdr addr := by
  rw [unmNicPciIsSameWindow]
  by_cases h : AtDdr addr
  · exact iff_of_true (if_pos h) h
  · rw [if_neg h]
    refine iff_of_false (fun hnone => ?_) h
    repeat' split at hnone
    all_goals cases hnone

/-- Where the other memories are. -/
theorem setWindow_start {mode : BarMode} {p2 : Bool} {w w' : Windows} {start : BitVec 64}
    (hset : setWindow mode p2 w off = some (start, w')) (hddr : ¬ AtDdr off) (hstart : start ≠ -1) :
    0x200000000 ≤ off.toNat ∧ off.toNat ≤ 0x303ffffff := by
  by_contra hout
  have hocm0 : ¬ AddrInRange off unmAddrOcm0 unmAddrOcm0Max := by
    rw [inOcm0_iff]
    omega
  have hocm1 : ¬ AddrInRange off unmAddrOcm1 unmAddrOcm1Max := by
    rw [inOcm1_iff]
    omega
  have hqdr : ∀ p2, ¬ AddrInRange off unmAddrQdrNet (qdrMax p2) := by
    intro p2 h
    have hbounds := inQdr_bounds h
    omega
  cases mode with
  | bar128M =>
    rw [setWindow, unmNicPciSetWindow128M, if_neg hddr, if_neg hocm0, if_neg hocm1,
      if_neg (hqdr p2)] at hset
    exact hstart (Prod.mk.inj (Option.some.inj hset)).1.symm
  | bar2M =>
    have hqdr' : ¬ AddrInRange off unmAddrQdrNet nxP3AddrQdrNetMax := hqdr false
    rw [setWindow, unmNicPciSetWindow2M, if_neg hddr, if_neg hocm0, if_neg hqdr'] at hset
    exact hstart (Prod.mk.inj (Option.some.inj hset)).1.symm

/-- A negative size is a large one. -/
theorem toNat_sizeExt (size : BitVec 32) :
    sizeExt size =
      if 2 ^ 31 ≤ size.toNat then size.toNat + (2 ^ 64 - 2 ^ 32) else size.toNat := by
  rw [sizeExt, BitVec.toNat_signExtend, BitVec.toNat_setWidth, BitVec.msb_eq_decide]
  have hsize := size.isLt
  have hmod : size.toNat % 2 ^ 64 = size.toNat := Nat.mod_eq_of_lt (by omega)
  rw [hmod]
  by_cases hneg : 2 ^ 31 ≤ size.toNat
  · rw [if_pos hneg, decide_eq_true hneg, if_pos rfl]
  · rw [if_neg hneg, decide_eq_false hneg]
    rfl

/-- An access to the other memories does not end in the DDR, not even backwards. -/
theorem lastAddr_not_atDdr (hlow : 0x200000000 ≤ off.toNat) (hhigh : off.toNat ≤ 0x303ffffff) :
    ¬ AtDdr (lastAddr off size) := by
  have hext := toNat_sizeExt size
  have hsize := size.isLt
  rw [atDdr_toNat, lastAddr, BitVec.toNat_sub, BitVec.toNat_add, BitVec.toNat_ofNat, hext]
  show ¬ (2 ^ 64 - 1 + _) % _ ≤ _
  split <;> omega

/-- **When the way through a window ends at a `BUG`**: an address in the DDR with the 128M BAR,
two with the 2M BAR. -/
theorem moveWindow_eq_none {mode : BarMode} {p2 : Bool} {w : Windows} :
    moveWindow mode p2 w off (sizeExt size) = none ↔
      AtDdr off ∧ (mode = .bar2M → AtDdr (lastAddr off size)) := by
  have hmove : ∀ start w', setWindow mode p2 w off = some (start, w') →
      (moveWindow mode p2 w off (sizeExt size) = none ↔
        start ≠ -1 ∧ AtDdr (lastAddr off size)) := by
    intro start w' hset
    simp only [moveWindow, hset]
    by_cases hstart : start = -1
    · rw [if_pos hstart]
      exact iff_of_false nofun fun h => h.1 hstart
    · have hsame : unmNicPciIsSameWindow p2 w' (lastAddr off size) = none ↔
          AtDdr (lastAddr off size) := isSameWindow_eq_none
      rw [if_neg hstart, and_iff_right hstart, ← hsame, lastAddr]
      cases unmNicPciIsSameWindow p2 w' (off + BitVec.ofNat 64 (sizeExt size) - 1) with
      | none => exact iff_of_true rfl rfl
      | some same => cases same <;> exact iff_of_false nofun nofun
  cases hset : setWindow mode p2 w off with
  | none =>
    have hmode : mode = .bar128M := by
      cases mode with
      | bar128M => rfl
      | bar2M => cases hset
    have hddr : AtDdr off := by
      by_contra hddr
      rw [hmode, setWindow, unmNicPciSetWindow128M, if_neg hddr] at hset
      repeat' split at hset
      all_goals cases hset
    refine iff_of_true ?_ ⟨hddr, fun h => ?_⟩
    · simp only [moveWindow, hset]
    · rw [hmode] at h
      cases h
  | some r =>
    obtain ⟨start, w'⟩ := r
    rw [hmove start w' hset]
    by_cases hddr : AtDdr off
    · have hmode : mode = .bar2M := by
        cases mode with
        | bar2M => rfl
        | bar128M =>
          rw [setWindow, unmNicPciSetWindow128M, if_pos hddr] at hset
          cases hset
      have hstart : start ≠ -1 := by
        rw [hmode, setWindow, unmNicPciSetWindow2M, if_pos hddr] at hset
        rw [← (Prod.mk.inj (Option.some.inj hset)).1]
        intro h
        have hnat := congrArg BitVec.toNat h
        have hoffs := toNat_getMemOffs2M off
        rw [BitVec.toNat_add] at hnat
        have hplace : unmPciDdrNet.toNat = 0 := rfl
        have hone : (-1 : BitVec 64).toNat = 2 ^ 64 - 1 := rfl
        omega
      rw [and_iff_right hstart, and_iff_right hddr]
      exact ⟨fun h _ => h, fun h => h hmode⟩
    · refine iff_of_false (fun h => ?_) fun h => hddr h.1
      obtain ⟨hlow, hhigh⟩ := setWindow_start hset hddr h.1
      exact lastAddr_not_atDdr hlow hhigh h.2

/-- **The way through a window.** -/
theorem wp_memDirect {Q : Int → Prop} {move : Nat → Effect τ Crash Unit}
    {failed : Effect τ Crash Unit}
    (hbug : ¬ (AtDdr off ∧ (site.mode = .bar2M → AtDdr (lastAddr off size))))
    (hrefused : Q (-1)) (hfailed : Effect.wp P (fun _ => True) failed)
    (hmove : IsSize (sizeExt size) → Effect.wp P (fun _ => Q 0) (move (sizeExt size))) :
    Effect.wp P Q (memDirect site ans off size move failed) := by
  rw [memDirect, Effect.wp_bind, wp_windowReg]
  split
  · rename_i hnone
    exact absurd (moveWindow_eq_none.mp hnone) hbug
  · exact Effect.wp_pure.mpr hrefused
  · split
    · rw [Effect.wp_bind]
      exact Effect.wp_mono (fun _ _ => Effect.wp_pure.mpr hrefused) hfailed
    · split
      · rename_i hsize
        rw [Effect.wp_bind]
        exact Effect.wp_mono (fun _ hQ => Effect.wp_pure.mpr hQ) (hmove hsize)
      · exact Effect.wp_pure.mpr hrefused

theorem not_wp_memDirect {Q : Int → Prop} {move : Nat → Effect τ Crash Unit}
    {failed : Effect τ Crash Unit}
    (hbug : AtDdr off ∧ (site.mode = .bar2M → AtDdr (lastAddr off size))) :
    ¬ Effect.wp P Q (memDirect site ans off size move failed) := by
  rw [memDirect, Effect.wp_bind, wp_windowReg]
  have hnone : moveWindow site.mode site.p2 ans.windows off (sizeExt size) = none :=
    moveWindow_eq_none.mpr hbug
  split
  · exact Effect.wp_crash
  · rename_i hsome
    rw [hnone] at hsome
    cases hsome
  · rename_i hsome
    rw [hnone] at hsome
    cases hsome

/-! ## When the accessors stay within bounds -/

/-- An address of the QDR, as the functions of the 2M BAR see it. -/
abbrev AtQdr (addr : BitVec 64) : Prop := unmAddrQdrNet ≤ addr ∧ addr ≤ nxP3AddrQdrNetMax

/-- **What keeps an access within bounds**: in the QDR with the 2M BAR, that it ends in the
second word; elsewhere, that an access to the DDR that would get past the check for the window
is one for the agent. -/
def Guarded (mode : BarMode) (off : BitVec 64) (size : BitVec 32) : Prop :=
  if mode = .bar2M ∧ AtQdr off then (lastByte off size).toInt ≤ 15
  else AtDdr off → (mode = .bar2M → AtDdr (lastAddr off size)) →
    AtDdr (lastAddr off size) ∧ IsSize (sizeExt size)

theorem boundCheck_iff :
    unmNicPciMemBoundCheck off (sizeExt size) = true ↔
      AtDdr off ∧ AtDdr (lastAddr off size) ∧ IsSize (sizeExt size) := by
  rw [unmNicPciMemBoundCheck, decide_eq_true_iff, IsSize, atDdr_toNat, atDdr_toNat, BitVec.le_def,
    BitVec.le_def]
  rfl

theorem off0_lt (off : BitVec 64) : off0 off < 8 := by
  have hmod := toNat_off0 off
  omega

/-- The sizes of an access make one round or two. -/
theorem loopCount_of_isSize (h : IsSize (sizeExt size)) : loopCount off size ≤ 2 := by
  rw [loopCount_le_two]
  have hext := toNat_sizeExt size
  have hbounds := h.bounds
  have hoff := off0_lt off
  have hlast : (lastByte off size).toNat = (off0 off + size.toNat + (2 ^ 32 - 1)) % 2 ^ 32 := by
    rw [lastByte, BitVec.toNat_sub, BitVec.toNat_add, BitVec.toNat_ofNat]
    show (2 ^ 32 - 1 + _) % _ = _
    omega
  have hlastInt := BitVec.toInt_eq_toNat_cond (lastByte off size)
  split at hext <;> split at hlastInt <;> omega

/-- **Which way an access goes**: under the guard to an agent in one round or two, or through a
window without a `BUG`. -/
theorem Guarded.cases (h : Guarded site.mode off size) :
    (∃ crb, memCrb site.mode off size = some crb ∧ loopCount off size ≤ 2) ∨
      memCrb site.mode off size = none ∧
        ¬ (AtDdr off ∧ (site.mode = .bar2M → AtDdr (lastAddr off size))) := by
  rw [Guarded] at h
  have hddr : ∀ {crb}, memCrb site.mode off size = (if unmNicPciMemBoundCheck off (sizeExt size)
      then some crb else none) → (AtDdr off → (site.mode = .bar2M → AtDdr (lastAddr off size)) →
        AtDdr (lastAddr off size) ∧ IsSize (sizeExt size)) →
      (∃ crb, memCrb site.mode off size = some crb ∧ loopCount off size ≤ 2) ∨
        memCrb site.mode off size = none ∧
          ¬ (AtDdr off ∧ (site.mode = .bar2M → AtDdr (lastAddr off size))) := by
    intro crb hcrb hguard
    by_cases hcheck : unmNicPciMemBoundCheck off (sizeExt size) = true
    · rw [if_pos hcheck] at hcrb
      exact Or.inl ⟨crb, hcrb, loopCount_of_isSize (boundCheck_iff.mp hcheck).2.2⟩
    · rw [if_neg hcheck] at hcrb
      exact Or.inr ⟨hcrb, fun hbug => hcheck (boundCheck_iff.mpr
        ⟨hbug.1, hguard hbug.1 hbug.2⟩)⟩
  cases hmode : site.mode with
  | bar128M =>
    rw [hmode, if_neg (by simp)] at h
    rw [hmode] at hddr
    exact hddr rfl h
  | bar2M =>
    rw [hmode] at h hddr
    by_cases hqdr : AtQdr off
    · rw [if_pos ⟨rfl, hqdr⟩] at h
      exact Or.inl ⟨.qdrNet, if_pos hqdr, loopCount_le_two.mpr h⟩
    · rw [if_neg (fun hboth => hqdr hboth.2)] at h
      exact hddr (if_neg hqdr) h

/-- Without the guard: more than two rounds of the agent of the QDR, or a `BUG`. -/
theorem not_guarded_cases (h : ¬ Guarded site.mode off size) :
    (AtQdr off ∧ memCrb site.mode off size = some .qdrNet ∧ 2 < loopCount off size) ∨
      memCrb site.mode off size = none ∧
        AtDdr off ∧ (site.mode = .bar2M → AtDdr (lastAddr off size)) := by
  rw [Guarded] at h
  split at h
  · rename_i hqdr
    refine Or.inl ⟨hqdr.2, ?_, Nat.lt_of_not_le fun hloop => h (loopCount_le_two.mp hloop)⟩
    rw [hqdr.1]
    exact if_pos hqdr.2
  · rename_i hqdr
    simp only [not_forall] at h
    obtain ⟨hddr, hlast, hnot⟩ := h
    refine Or.inr ⟨?_, hddr, hlast⟩
    have hcheck : ¬ unmNicPciMemBoundCheck off (sizeExt size) = true :=
      fun hcheck => hnot (boundCheck_iff.mp hcheck).2
    cases hmode : site.mode with
    | bar128M => exact if_neg hcheck
    | bar2M =>
      have hout : ¬ AtQdr off := fun hin => hqdr ⟨hmode, hin⟩
      exact (if_neg hout).trans (if_neg hcheck)

/-- **The read functions** under the guard. -/
theorem wp_memReadReach {Q : Int → Prop} {store : Nat → Effect τ Crash Unit}
    (h : Guarded site.mode off size) (hfailed : Q (-1))
    (hone : Effect.wp P (fun _ => True) (store 1))
    (hstore : IsSize (sizeExt size) → Effect.wp P (fun _ => Q 0) (store (sizeExt size)))
    (hzero : ¬ IsSize (sizeExt size) → loopCount off size ≤ 2 →
      memCrb site.mode off size ≠ none → Q 0) :
    Effect.wp P Q (memReadReach site ans off size store) := by
  rw [memReadReach]
  rcases h.cases with ⟨crb, hcrb, hloop⟩ | ⟨hcrb, hbug⟩
  · simp only [hcrb]
    rw [Effect.wp_bind, wp_readLoop hloop fun i hi => List.mem_range.mp hi]
    split
    · by_cases hsize : IsSize (sizeExt size)
      · rw [if_pos hsize, Effect.wp_bind]
        exact Effect.wp_mono (fun _ hQ => Effect.wp_pure.mpr hQ) (hstore hsize)
      · rw [if_neg hsize]
        exact Effect.wp_pure.mpr (hzero hsize hloop (by rw [hcrb]; exact nofun))
    · exact Effect.wp_pure.mpr hfailed
  · simp only [hcrb]
    exact wp_memDirect hbug hfailed hone hstore

/-- Without it, an agent that is always done in time takes the read functions out of bounds. -/
theorem not_wp_memReadReach {Q : Int → Prop} {store : Nat → Effect τ Crash Unit}
    (h : ¬ Guarded site.mode off size) (hready : ∀ i, ans.agent i = true) :
    ¬ Effect.wp P Q (memReadReach site ans off size store) := by
  rw [memReadReach]
  rcases not_guarded_cases h with ⟨-, hcrb, hloop⟩ | ⟨hcrb, hbug⟩
  · simp only [hcrb]
    rw [Effect.wp_bind]
    exact not_wp_readLoop hready hloop
  · simp only [hcrb]
    exact not_wp_memDirect hbug

/-! ### The write functions -/

/-- The addresses of the words are below the QDR. -/
theorem toNat_wordPlace (off : BitVec 64) {i : Nat} (hi : i ≤ 2) :
    (off8 off + BitVec.ofNat 64 (8 * i)).toNat = wordOff off + 8 * i := by
  have hoff : wordOff off < 2 ^ 32 := by
    rw [wordOff, memOff]
    omega
  rw [BitVec.toNat_add, toNat_off8, BitVec.toNat_ofNat]
  omega

theorem not_atQdr_wordPlace (off : BitVec 64) {i : Nat} (hi : i ≤ 2) :
    ¬ AtQdr (off8 off + BitVec.ofNat 64 (8 * i)) := by
  rintro ⟨hlow, -⟩
  have hplace := toNat_wordPlace off hi
  have hnet : 0x300000000 ≤ (off8 off + BitVec.ofNat 64 (8 * i)).toNat := hlow
  rw [wordOff, memOff] at hplace
  omega

/-- A word that begins in the DDR ends there. -/
theorem atDdr_lastWord (off : BitVec 64) {i : Nat} (hi : i ≤ 2)
    (h : AtDdr (off8 off + BitVec.ofNat 64 (8 * i))) :
    AtDdr (lastAddr (off8 off + BitVec.ofNat 64 (8 * i)) 8) := by
  have hplace := toNat_wordPlace off hi
  have hext : sizeExt 8 = 8 := rfl
  rw [atDdr_toNat] at h ⊢
  rw [lastAddr, BitVec.toNat_sub, BitVec.toNat_add, hext, hplace]
  rw [hplace] at h
  rw [wordOff] at *
  show (2 ^ 64 - 1 + (_ + 8) % 2 ^ 64) % 2 ^ 64 ≤ _
  omega

theorem guarded_wordPlace (mode : BarMode) (off : BitVec 64) {i : Nat} (hi : i ≤ 2) :
    Guarded mode (off8 off + BitVec.ofNat 64 (8 * i)) 8 := by
  rw [Guarded, if_neg fun h => not_atQdr_wordPlace off hi h.2]
  exact fun hddr _ => ⟨atDdr_lastWord off hi hddr, by decide⟩

/-- The fetch of one word or two stays within bounds. -/
theorem wp_fetchLoop {Q : Bool → Prop} {is : List Nat} (his : ∀ i ∈ is, i < 2) (hQ : ∀ b, Q b) :
    Effect.wp P Q (fetchLoop site ans off is : Effect τ Crash Bool) := by
  induction is with
  | nil => exact Effect.wp_pure.mpr (hQ true)
  | cons i is ih =>
    have hi := his i List.mem_cons_self
    have hrest : ∀ ret : Int, Effect.wp P Q
        (if ret = 0 then fetchLoop site ans off is else pure false : Effect τ Crash Bool) := by
      intro ret
      split
      · exact ih fun j hj => his j (List.mem_cons_of_mem _ hj)
      · exact Effect.wp_pure.mpr (hQ false)
    have hstore : ∀ n, storeWord i n = (pure () : Effect τ Crash Unit) := fun n => if_pos hi
    rw [fetchLoop, Effect.wp_bind]
    refine wp_memReadReach (guarded_wordPlace _ off (by omega)) (hrest _) ?_ (fun _ => ?_)
      (fun _ _ _ => hrest _)
    · rw [hstore]
      exact Effect.wp_pure.mpr trivial
    · rw [hstore]
      exact Effect.wp_pure.mpr (hrest _)

theorem wp_writeLoop {Q : Bool → Prop} {is : List Nat} (his : ∀ i ∈ is, i < 2) (hQ : ∀ b, Q b) :
    Effect.wp P Q (writeLoop site ans crb is : Effect τ Crash Bool) := by
  induction is with
  | nil => exact Effect.wp_pure.mpr (hQ true)
  | cons i is ih =>
    rw [writeLoop, writeRound, Effect.wp_bind, Effect.wp_bind, wp_agentRegs (by decide),
      if_pos (his i List.mem_cons_self), Effect.wp_bind, wp_agentRegs (by decide), Effect.wp_pure]
    split
    · exact ih fun j hj => his j (List.mem_cons_of_mem _ hj)
    · exact Effect.wp_pure.mpr (hQ false)

/-- **The write functions** under the guard. -/
theorem wp_memWriteReach {Q : Int → Prop} {load : Nat → Effect τ Crash Unit}
    (h : Guarded site.mode off size) (hQ : ∀ ret, Q ret)
    (hload : ∀ n, n ≤ 8 → Effect.wp P (fun _ => True) (load n)) :
    Effect.wp P Q (memWriteReach site ans off size load) := by
  rw [memWriteReach]
  rcases h.cases with ⟨crb, hcrb, hloop⟩ | ⟨hcrb, hbug⟩
  · have hrounds : ∀ i ∈ List.range (loopCount off size), i < 2 := by
      intro i hi
      have hlt := List.mem_range.mp hi
      omega
    have htmpw : tmpwSize size ≤ 8 := by
      rw [tmpwSize]
      split
      · rename_i hsize
        rcases hsize with rfl | rfl | rfl <;> decide
      · exact Nat.le_refl 8
    have hwrite : ∀ fetched : Bool, Effect.wp P Q (if fetched then do
        load (tmpwSize size)
        let done ← writeLoop site (ans.after (loopCount off size)) crb
          (List.range (loopCount off size))
        if done then pure 0 else pure (-1)
      else pure (-1)) := by
      intro fetched
      split
      · rw [Effect.wp_bind]
        refine Effect.wp_mono (fun _ _ => ?_) (hload _ htmpw)
        rw [Effect.wp_bind]
        refine wp_writeLoop hrounds fun done => ?_
        split <;> exact Effect.wp_pure.mpr (hQ _)
      · exact Effect.wp_pure.mpr (hQ _)
    simp only [hcrb]
    rw [Effect.wp_bind, fetchParts]
    split
    · exact wp_fetchLoop hrounds hwrite
    · exact Effect.wp_pure.mpr (hwrite true)
  · simp only [hcrb]
    exact wp_memDirect hbug (hQ _) (Effect.wp_pure.mpr trivial) fun hsize =>
      Effect.wp_mono (fun _ _ => hQ 0) (hload _ hsize.bounds.2)

/-- A word of the DDR is fetched when the agent is done in time, into one of the two entries. -/
theorem fetch_ready {Q : Int → Prop} {i : Nat} (hi : i ≤ 2)
    (hddr : AtDdr (off8 off + BitVec.ofNat 64 (8 * i))) (hready : ∀ i, ans.agent i = true)
    (h : Effect.wp P Q (memReadReach site ans (off8 off + BitVec.ofNat 64 (8 * i)) 8
      (storeWord i) : Effect τ Crash Int)) : i < 2 ∧ Q 0 := by
  have hcheck : unmNicPciMemBoundCheck (off8 off + BitVec.ofNat 64 (8 * i)) (sizeExt 8) = true :=
    boundCheck_iff.mpr ⟨hddr, atDdr_lastWord off hi hddr, by decide⟩
  have hcrb : memCrb site.mode (off8 off + BitVec.ofNat 64 (8 * i)) 8 = some .ddrNet := by
    cases site.mode with
    | bar128M => exact if_pos hcheck
    | bar2M => exact (if_neg (not_atQdr_wordPlace off hi)).trans (if_pos hcheck)
  have hall : ∀ is : List Nat, is.all ans.agent = true :=
    fun is => List.all_eq_true.mpr fun j _ => hready j
  rw [memReadReach] at h
  simp only [hcrb] at h
  rw [Effect.wp_bind, wp_readLoop (loopCount_of_isSize (by decide))
    fun j hj => List.mem_range.mp hj, hall, if_pos rfl, if_pos (by decide), Effect.wp_bind,
    storeWord] at h
  split at h
  · rename_i hlt
    obtain ⟨-, -, -, hret⟩ := h
    exact ⟨hlt, Effect.wp_pure.mp hret⟩
  · exact absurd h Effect.wp_crash

/-- Without the guard, an agent that is always done in time takes the write functions out of
bounds. -/
theorem not_wp_memWriteReach {Q : Int → Prop} {load : Nat → Effect τ Crash Unit}
    (h : ¬ Guarded site.mode off size) (hready : ∀ i, ans.agent i = true) :
    ¬ Effect.wp P Q (memWriteReach site ans off size load) := by
  rw [memWriteReach]
  rcases not_guarded_cases h with ⟨hqdr, hcrb, hloop⟩ | ⟨hcrb, hbug⟩
  · have hlarge : size ≠ 8 ∨ off0 off ≠ 0 := by
      by_contra hnot
      obtain ⟨height, -⟩ := not_or.mp hnot
      obtain rfl := not_not.mp height
      have hsize : loopCount off 8 ≤ 2 := loopCount_of_isSize (by decide)
      omega
    have hddr : ∀ i, i ≤ 2 → AtDdr (off8 off + BitVec.ofNat 64 (8 * i)) := by
      intro i hi
      have hlow : 0x300000000 ≤ off.toNat := hqdr.1
      have hhigh : off.toNat ≤ 0x303ffffff := hqdr.2
      rw [atDdr_toNat, toNat_wordPlace off hi, wordOff, memOff]
      omega
    have hafter : ∀ j i, (ans.after j).agent i = true := fun j i => hready (j + i)
    simp only [hcrb]
    rw [Effect.wp_bind, fetchParts, if_pos hlarge]
    obtain ⟨m, hm⟩ := Nat.exists_eq_add_of_le hloop
    have hthree : List.range (loopCount off size) = 0 :: 1 :: 2 :: (List.range m).map (3 + ·) := by
      rw [hm, List.range_add]
      rfl
    rw [hthree]
    intro hwp
    rw [fetchLoop, Effect.wp_bind] at hwp
    replace hwp := (fetch_ready (by decide) (hddr 0 (by decide)) (hafter 0) hwp).2
    rw [if_pos rfl, fetchLoop, Effect.wp_bind] at hwp
    replace hwp := (fetch_ready (by decide) (hddr 1 (by decide)) (hafter 1) hwp).2
    rw [if_pos rfl, fetchLoop, Effect.wp_bind] at hwp
    exact absurd (fetch_ready (by decide) (hddr 2 (by decide)) (hafter 2) hwp).1 (by decide)
  · simp only [hcrb]
    exact not_wp_memDirect hbug

end

end Mem
end NxNic

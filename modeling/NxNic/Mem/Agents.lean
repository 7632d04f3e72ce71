import NxNic.Lib.Words

/-! # The test agents of the card memories

The card has two memories, each with an agent that reads or writes one of its
64-bit words at a time.  The driver gives the agent an address and the data, starts
it through `MIU_TEST_AGT_CTRL`, and polls that register until the agent is no longer
busy.

The state is the `Card`: the two memories, the registers of the agents, and how many polls each
access will take.  `agentWrite_spec` and `agentRead_spec` say what a whole access through an agent
comes to, with the polls behind them; an access that takes too many is left out by
`Card.NeverTimesOut` where that is assumed.
-/
namespace NxNic
namespace Mem

/-! ## The card -/

/-- The addresses of the memories. -/
def unmAddrDdrNetMax : BitVec 64 := 0x0fffffff
def unmAddrQdrNet : BitVec 64 := 0x300000000
def nxP3AddrQdrNetMax : BitVec 64 := 0x303ffffff

/-- The sizes of an access. -/
def IsSize (size : Nat) : Prop := size = 1 ∨ size = 2 ∨ size = 4 ∨ size = 8

instance (size : Nat) : Decidable (IsSize size) :=
  inferInstanceAs (Decidable (_ ∨ _ ∨ _ ∨ _))

theorem IsSize.bounds {size : Nat} (h : IsSize size) : 1 ≤ size ∧ size ≤ 8 := by
  rcases h with rfl | rfl | rfl | rfl <;> decide

/-- The CRB base of an agent: `UNM_CRB_DDR_NET` and `UNM_CRB_QDR_NET`. -/
inductive MemCrb where
  | ddrNet
  | qdrNet
deriving DecidableEq

/-- The registers of an agent; it is busy for `busy` more polls. -/
structure AgentRegs where
  addrLo : BitVec 32 := 0
  addrHi : BitVec 32 := 0
  wrdataLo : BitVec 32 := 0
  wrdataHi : BitVec 32 := 0
  rddata : BitVec 64 := 0
  busy : Nat := 0

/-- The memories and the agents.  `delays` says for how many polls each of the
operations to come keeps its agent busy; `currWindow` is the CRB window of the
128M BAR. -/
structure Card where
  mem : MemCrb → Bytes
  agents : MemCrb → AgentRegs := fun _ => {}
  delays : Nat → Nat
  currWindow : Nat := 1

/-- The offsets of the registers, and the bits of the last one. -/
def miuTestAgtCtrl : Nat := 0x090
def miuTestAgtAddrLo : Nat := 0x094
def miuTestAgtAddrHi : Nat := 0x098
def miuTestAgtWrdataLo : Nat := 0x0a0
def miuTestAgtWrdataHi : Nat := 0x0a4
def miuTestAgtRddata (i : Nat) : Nat := 0x0a8 + 4 * i

def miuTaCtlStart : BitVec 32 := 1
def miuTaCtlEnable : BitVec 32 := 2
def miuTaCtlWrite : BitVec 32 := 4
def miuTaCtlBusy : BitVec 32 := 8

/-- `MAX_CTL_CHECK`. -/
def maxCtlCheck : Nat := 1000

namespace Card
variable (c : Card) (crb : MemCrb)

def setAgent (a : AgentRegs) : Card := { c with agents := Function.update c.agents crb a }

/-- The address of the word that the agent accesses. -/
def agentAddr : Nat := (c.agents crb).addrLo.toNat / 8 * 8

/-- The agent reads the word. -/
def agentLoad : Card :=
  { c.setAgent crb { c.agents crb with
      rddata := Words.load 64 (c.mem crb) (c.agentAddr crb) 8
      busy := c.delays 0 } with
    delays := fun n => c.delays (n + 1) }

/-- The agent writes it. -/
def agentStore : Card :=
  { c.setAgent crb { c.agents crb with busy := c.delays 0 } with
    mem := Function.update c.mem crb (Words.store (c.mem crb) (c.agentAddr crb) 8
      ((c.agents crb).wrdataHi ++ (c.agents crb).wrdataLo))
    delays := fun n => c.delays (n + 1) }

/-- What a write to a register of an agent does. -/
def writeReg (reg : Nat) (data : BitVec 32) : Card :=
  let a := c.agents crb
  if reg = miuTestAgtAddrLo then c.setAgent crb { a with addrLo := data }
  else if reg = miuTestAgtAddrHi then c.setAgent crb { a with addrHi := data }
  else if reg = miuTestAgtWrdataLo then c.setAgent crb { a with wrdataLo := data }
  else if reg = miuTestAgtWrdataHi then c.setAgent crb { a with wrdataHi := data }
  else if reg = miuTestAgtCtrl ∧ data &&& miuTaCtlStart ≠ 0 ∧ data &&& miuTaCtlEnable ≠ 0 then
    if data &&& miuTaCtlWrite ≠ 0 then c.agentStore crb else c.agentLoad crb
  else c

/-- What a read of a register returns; a poll of a busy agent brings it closer to its
end. -/
def readReg (reg : Nat) : BitVec 32 × Card :=
  let a := c.agents crb
  if reg = miuTestAgtCtrl then
    match a.busy with
    | 0 => (0, c)
    | busy + 1 => (miuTaCtlBusy, c.setAgent crb { a with busy := busy })
  else if reg = miuTestAgtRddata 0 then (a.rddata.setWidth 32, c)
  else if reg = miuTestAgtRddata 1 then ((a.rddata >>> 32).setWidth 32, c)
  else (0, c)

end Card

/-! ## Access to the registers -/

/-- How a function gets at the registers: by `NXRD32` and `NXWR32`, or through the
128M BAR, which shows them in CRB window 0. -/
inductive Bus where
  | nx
  | bar
deriving DecidableEq

section
variable (bus : Bus) (crb : MemCrb) (c : Card)

def write32 (reg : Nat) (data : BitVec 32) : Card :=
  if bus = .bar ∧ c.currWindow ≠ 0 then c else c.writeReg crb reg data

def read32 (reg : Nat) : BitVec 32 × Card :=
  if bus = .bar ∧ c.currWindow ≠ 0 then (0, c) else c.readReg crb reg

/-- `unm_nic_pci_change_crbwindow_128M`, which only the functions of the 128M BAR
call. -/
def changeCrbwindow (wndw : Nat) : Card :=
  if bus = .bar then { c with currWindow := wndw } else c

/-- The loop that polls the agent: whether it ended in time. -/
def poll : Nat → Card → Bool × Card
  | 0, c => (false, c)
  | n + 1, c =>
      let (temp, c) := read32 bus crb c miuTestAgtCtrl
      if temp &&& miuTaCtlBusy = 0 then (true, c) else poll n c

/-- A round of the loop of the write functions. -/
def agentWrite (addr : BitVec 32) (word : BitVec 64) : Bool × Card :=
  let c := write32 bus crb c miuTestAgtAddrLo addr
  let c := write32 bus crb c miuTestAgtAddrHi 0
  let c := write32 bus crb c miuTestAgtWrdataLo (word.setWidth 32)
  let c := write32 bus crb c miuTestAgtWrdataHi ((word >>> 32).setWidth 32)
  let c := write32 bus crb c miuTestAgtCtrl (miuTaCtlEnable ||| miuTaCtlWrite)
  let c := write32 bus crb c miuTestAgtCtrl (miuTaCtlStart ||| miuTaCtlEnable ||| miuTaCtlWrite)
  poll bus crb maxCtlCheck c

/-- The loop over `k`, which fetches `n` halves of the word. -/
def readHalves : Nat → Nat → BitVec 64 → Card → BitVec 64 × Card
  | _, 0, word, c => (word, c)
  | k, n + 1, word, c =>
      let (temp, c) := read32 bus crb c (miuTestAgtRddata k)
      readHalves (k + 1) n (word ||| temp.setWidth 64 <<< (32 * k)) c

/-- A round of the loop of the read functions; `none` if the agent did not end. -/
def agentRead (addr : BitVec 32) (first last : Nat) : Option (BitVec 64) × Card :=
  let c := write32 bus crb c miuTestAgtAddrLo addr
  let c := write32 bus crb c miuTestAgtAddrHi 0
  let c := write32 bus crb c miuTestAgtCtrl miuTaCtlEnable
  let c := write32 bus crb c miuTestAgtCtrl (miuTaCtlStart ||| miuTaCtlEnable)
  let (done, c) := poll bus crb maxCtlCheck c
  if done then
    let (word, c) := readHalves bus crb first (last + 1 - first) 0#64 c
    (some word, c)
  else (none, c)

end

/-! ## What a round does -/

/-- The registers can be reached. -/
def Reaches (bus : Bus) (c : Card) : Prop := bus = .bar → c.currWindow = 0

/-- No operation to come keeps its agent busy for too long. -/
def Card.NeverTimesOut (c : Card) : Prop := ∀ n, c.delays n < maxCtlCheck

variable {bus : Bus} {crb : MemCrb} {c : Card}

theorem write32_of_reaches (h : Reaches bus c) (reg : Nat) (data : BitVec 32) :
    write32 bus crb c reg data = c.writeReg crb reg data :=
  if_neg fun hlost => hlost.2 (h hlost.1)

theorem read32_of_reaches (h : Reaches bus c) (reg : Nat) :
    read32 bus crb c reg = c.readReg crb reg :=
  if_neg fun hlost => hlost.2 (h hlost.1)

namespace Card

@[simp] theorem setAgent_self (a : AgentRegs) : (c.setAgent crb a).agents crb = a :=
  Function.update_self ..

@[simp] theorem setAgent_setAgent (a b : AgentRegs) :
    (c.setAgent crb a).setAgent crb b = c.setAgent crb b := by
  simp only [setAgent, Function.update_idem]

@[simp] theorem agentStore_self :
    (c.agentStore crb).agents crb = { c.agents crb with busy := c.delays 0 } := setAgent_self _

@[simp] theorem agentLoad_self :
    (c.agentLoad crb).agents crb = { c.agents crb with
      rddata := Words.load 64 (c.mem crb) (c.agentAddr crb) 8
      busy := c.delays 0 } := setAgent_self _

end Card

theorem write32_addrLo (h : Reaches bus c) (data : BitVec 32) :
    write32 bus crb c miuTestAgtAddrLo data =
      c.setAgent crb { c.agents crb with addrLo := data } := by
  rw [write32_of_reaches h]
  rfl

theorem write32_addrHi (h : Reaches bus c) (data : BitVec 32) :
    write32 bus crb c miuTestAgtAddrHi data =
      c.setAgent crb { c.agents crb with addrHi := data } := by
  rw [write32_of_reaches h]
  rfl

theorem write32_wrdataLo (h : Reaches bus c) (data : BitVec 32) :
    write32 bus crb c miuTestAgtWrdataLo data =
      c.setAgent crb { c.agents crb with wrdataLo := data } := by
  rw [write32_of_reaches h]
  rfl

theorem write32_wrdataHi (h : Reaches bus c) (data : BitVec 32) :
    write32 bus crb c miuTestAgtWrdataHi data =
      c.setAgent crb { c.agents crb with wrdataHi := data } := by
  rw [write32_of_reaches h]
  rfl

/-- Without `MIU_TA_CTL_START` the agent does nothing. -/
theorem write32_enable (h : Reaches bus c) :
    write32 bus crb c miuTestAgtCtrl miuTaCtlEnable = c := by
  rw [write32_of_reaches h]
  rfl

theorem write32_enable_write (h : Reaches bus c) :
    write32 bus crb c miuTestAgtCtrl (miuTaCtlEnable ||| miuTaCtlWrite) = c := by
  rw [write32_of_reaches h]
  rfl

theorem write32_start_write (h : Reaches bus c) :
    write32 bus crb c miuTestAgtCtrl (miuTaCtlStart ||| miuTaCtlEnable ||| miuTaCtlWrite) =
      c.agentStore crb := by
  rw [write32_of_reaches h]
  rfl

theorem write32_start_read (h : Reaches bus c) :
    write32 bus crb c miuTestAgtCtrl (miuTaCtlStart ||| miuTaCtlEnable) = c.agentLoad crb := by
  rw [write32_of_reaches h]
  rfl

/-- The loop ends if the agent is busy for fewer polls than it makes. -/
theorem poll_spec (h : Reaches bus c) {n : Nat} (hbusy : (c.agents crb).busy < n) :
    poll bus crb n c = (true, c.setAgent crb { c.agents crb with busy := 0 }) := by
  induction n generalizing c with
  | zero => exact absurd hbusy (Nat.not_lt_zero _)
  | succ n ih =>
    rw [poll, read32_of_reaches h]
    cases hleft : (c.agents crb).busy with
    | zero =>
      have hread : c.readReg crb miuTestAgtCtrl = (0, c) := by
        simp only [Card.readReg, hleft, if_true]
      have hself : c.setAgent crb { c.agents crb with busy := 0 } = c := by
        rw [← hleft]
        simp only [Card.setAgent, Function.update_eq_self]
      rw [hread, hself]
      rfl
    | succ busy =>
      have hread : c.readReg crb miuTestAgtCtrl =
          (miuTaCtlBusy, c.setAgent crb { c.agents crb with busy := busy }) := by
        simp only [Card.readReg, hleft, if_true]
      have hrest := ih (c := c.setAgent crb { c.agents crb with busy := busy }) h
        (by rw [Card.setAgent_self]; show busy < n; omega)
      rw [Card.setAgent_self, Card.setAgent_setAgent] at hrest
      rw [hread]
      exact hrest

/-- Only the memory of the agent has changed, to `m`; the agents are in some state. -/
structure Changed (c : Card) (crb : MemCrb) (m : Bytes) (c' : Card) : Prop where
  mem : c'.mem = Function.update c.mem crb m
  delays : ∃ k, c'.delays = fun n => c.delays (n + k)
  currWindow : c'.currWindow = c.currWindow

theorem reaches_setAgent (a : AgentRegs) : Reaches bus (c.setAgent crb a) ↔ Reaches bus c := Iff.rfl

/-- The agent is started to write, and polled. -/
theorem poll_agentStore (crb : MemCrb) (h : Reaches bus c) (hdelay : c.delays 0 < maxCtlCheck) :
    ∃ c', poll bus crb maxCtlCheck (c.agentStore crb) = (true, c') ∧
      Changed c crb (Words.store (c.mem crb) (c.agentAddr crb) 8
        ((c.agents crb).wrdataHi ++ (c.agents crb).wrdataLo)) c' := by
  have hbusy : ((c.agentStore crb).agents crb).busy < maxCtlCheck := by
    rw [Card.agentStore_self]
    exact hdelay
  exact ⟨_, poll_spec (c := c.agentStore crb) h hbusy, rfl, ⟨1, rfl⟩, rfl⟩

/-- The same for a read; the agent has the word. -/
theorem poll_agentLoad (crb : MemCrb) (h : Reaches bus c) (hdelay : c.delays 0 < maxCtlCheck) :
    ∃ c', poll bus crb maxCtlCheck (c.agentLoad crb) = (true, c') ∧
      Changed c crb (c.mem crb) c' ∧
      (c'.agents crb).rddata = Words.load 64 (c.mem crb) (c.agentAddr crb) 8 := by
  have hbusy : ((c.agentLoad crb).agents crb).busy < maxCtlCheck := by
    rw [Card.agentLoad_self]
    exact hdelay
  refine ⟨_, poll_spec (c := c.agentLoad crb) h hbusy, ⟨?_, ⟨1, rfl⟩, rfl⟩, ?_⟩
  · exact (Function.update_eq_self ..).symm
  · rw [Card.setAgent_self, Card.agentLoad_self]

/-- A word that is split into halves and put together again. -/
theorem append_halves (word : BitVec 64) :
    (word >>> 32).setWidth 32 ++ word.setWidth 32 = word := by
  refine BitVec.eq_of_getLsbD_eq fun i hi => ?_
  rw [BitVec.getLsbD_append]
  split
  · rename_i hlow
    rw [BitVec.getLsbD_setWidth, decide_eq_true hlow, Bool.true_and]
  · rename_i hhigh
    rw [BitVec.getLsbD_setWidth, BitVec.getLsbD_ushiftRight, decide_eq_true (by omega),
      Bool.true_and, Nat.add_sub_cancel' (by omega)]

/-- **A word is written.** -/
theorem agentWrite_spec (crb : MemCrb) (h : Reaches bus c) (hdelay : c.delays 0 < maxCtlCheck)
    (addr : BitVec 32) (word : BitVec 64) :
    ∃ c', agentWrite bus crb c addr word = (true, c') ∧
      Changed c crb (Words.store (c.mem crb) (addr.toNat / 8 * 8) 8 word) c' := by
  unfold agentWrite
  simp only [write32_addrLo h, write32_addrHi, write32_wrdataLo, write32_wrdataHi,
    write32_enable_write, write32_start_write, reaches_setAgent, h, Card.setAgent_self,
    Card.setAgent_setAgent]
  generalize hset : AgentRegs.mk addr 0 (word.setWidth 32) ((word >>> 32).setWidth 32) _ _ = a
  have hreach : Reaches bus (c.setAgent crb a) := h
  obtain ⟨c', hpoll, hchanged⟩ := poll_agentStore crb hreach hdelay
  refine ⟨c', hpoll, ?_⟩
  rw [Card.agentAddr, Card.setAgent_self, ← hset, append_halves] at hchanged
  exact ⟨hchanged.mem, hchanged.delays, hchanged.currWindow⟩

/-- A half of the word is fetched. -/
theorem read32_rddata (h : Reaches bus c) {k : Nat} (hk : k < 2) :
    read32 bus crb c (miuTestAgtRddata k) =
      (((c.agents crb).rddata >>> (32 * k)).setWidth 32, c) := by
  rw [read32_of_reaches h]
  match k, hk with
  | 0, _ => rfl
  | 1, _ => rfl

/-- The halves that are fetched. -/
theorem readHalves_spec (crb : MemCrb) (h : Reaches bus c) {n k : Nat} (hn : k + n ≤ 2)
    (word : BitVec 64) :
    ∃ word', readHalves bus crb k n word c = (word', c) ∧ ∀ i, i < 8 →
      Words.byte word' i = if 4 * k ≤ i ∧ i < 4 * (k + n) then
        Words.byte word i ||| Words.byte (c.agents crb).rddata i else Words.byte word i := by
  induction n generalizing k word with
  | zero => exact ⟨word, rfl, fun i _ => by rw [if_neg (by omega)]⟩
  | succ n ih =>
    rw [readHalves, read32_rddata h (by omega)]
    obtain ⟨word', heq, hbytes⟩ := ih (k := k + 1) (by omega)
      (word ||| (((c.agents crb).rddata >>> (32 * k)).setWidth 32).setWidth 64 <<< (32 * k))
    refine ⟨word', heq, fun i hi => ?_⟩
    have hhalf : Words.byte ((((c.agents crb).rddata >>> (32 * k)).setWidth 32).setWidth 64 <<<
        (32 * k)) i =
          if 4 * k ≤ i ∧ i < 4 * (k + 1) then Words.byte (c.agents crb).rddata i else 0#8 := by
      rw [show 32 * k = 8 * (4 * k) by omega, Words.byte_shiftLeft _ _ (by omega)]
      by_cases hlow : i < 4 * k
      · rw [if_pos hlow, if_neg (by omega)]
      · rw [if_neg hlow, Words.byte_setWidth _ (by omega)]
        by_cases hhigh : i < 4 * (k + 1)
        · rw [if_pos (by omega), Words.byte_setWidth _ (by omega), Words.byte_shiftRight,
            Nat.add_sub_cancel' (by omega)]
        · rw [if_neg (by omega), Words.byte_of_le _ (by omega)]
    rw [hbytes i hi, Words.byte_or, hhalf]
    by_cases hhere : 4 * k ≤ i ∧ i < 4 * (k + 1)
    · rw [if_pos hhere, if_neg (by omega), if_pos (by omega)]
    · rw [if_neg hhere, BitVec.or_zero]
      by_cases hlater : 4 * (k + 1) ≤ i ∧ i < 4 * (k + 1 + n)
      · rw [if_pos hlater, if_pos (by omega)]
      · rw [if_neg hlater, if_neg (by omega)]

/-- **A word is read**: the bytes of the halves that are fetched. -/
theorem agentRead_spec (crb : MemCrb) (h : Reaches bus c) (hdelay : c.delays 0 < maxCtlCheck)
    (addr : BitVec 32) {first last : Nat} (hfirst : first ≤ last) (hlast : last ≤ 1) :
    ∃ c' word, agentRead bus crb c addr first last = (some word, c') ∧
      Changed c crb (c.mem crb) c' ∧ ∀ i, 4 * first ≤ i → i < 4 * (last + 1) →
        Words.byte word i = c.mem crb (addr.toNat / 8 * 8 + i) := by
  unfold agentRead
  simp only [write32_addrLo h, write32_addrHi, write32_enable, write32_start_read,
    reaches_setAgent, h, Card.setAgent_self, Card.setAgent_setAgent]
  generalize hset : AgentRegs.mk addr 0 _ _ _ _ = a
  have hreach : Reaches bus (c.setAgent crb a) := h
  obtain ⟨c', hpoll, hchanged, hrddata⟩ := poll_agentLoad crb hreach hdelay
  have hreach' : Reaches bus c' := fun hbus => hchanged.currWindow.trans (h hbus)
  obtain ⟨word, heq, hbytes⟩ := readHalves_spec crb hreach'
    (k := first) (n := last + 1 - first) (by omega) 0#64
  refine ⟨c', word, ?_, ⟨hchanged.mem, hchanged.delays, hchanged.currWindow⟩, fun i h1 h2 => ?_⟩
  · rw [hpoll]
    show (some (readHalves bus crb first (last + 1 - first) 0#64 c').1,
      (readHalves bus crb first (last + 1 - first) 0#64 c').2) = _
    rw [heq]
  · rw [hbytes i (by omega), if_pos (by omega), hrddata, Words.byte_zero, BitVec.zero_or,
      Words.byte_load _ _ _ (by omega), if_pos (by omega), Card.agentAddr, Card.setAgent_self,
      ← hset]
    rfl

end Mem
end NxNic

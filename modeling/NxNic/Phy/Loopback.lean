import NxNic.Phy.MiiMgmt
import NxNic.Phy.Transceiver

/-! # Loopback in the transceiver

`xge_loopback` sets or clears a bit or two of the transceiver under the PHY
semaphore, reading each register first.  Which bits they are depends on the chip
and, on P2, on what the transceiver identifies itself as.

The state (`Ports`) is the board with the lines of the management port and the management
block with the semaphore; a step is a whole call, and each of its accesses is clocked
through the port.  `Board.Holds` says that the registers of the transceiver hold a memory,
so that by `Phy/Transceiver` a call is an update of that memory.

`XgCard.Set` is what a memory is after loopback was set or cleared: the loopback bits
(`LoopbackBit`) on or off and all others as before.  A call that has the semaphore leaves
this, and one that has not leaves everything; `XgCard.loopbackAll_run` puts calls together,
where the last one with the semaphore decides.
-/
namespace NxNic
namespace Phy
open Serial

/-! ## The routines -/

/-- The management port and the management block of a card. -/
structure Ports where
  board : Board PhyRegs
  niu : Niu

abbrev Loop := StateM Ports

def onBoard {α : Type} (m : Mdio PhyRegs α) : Loop α := fun s =>
  ((m s.board).1, { s with board := (m s.board).2 })

def onNiu {α : Type} (m : Mii α) : Loop α := fun s =>
  ((m s.niu).1, { s with niu := (m s.niu).2 })

/-- `UNM_NIC_XGBE` and `UNM_NIC_GBE` -/
inductive BoardType where
  | gbe
  | xgbe
  | other
deriving DecidableEq

def devPmaPmd : BitVec 64 := 1
def devPhyXs : BitVec 64 := 4
def aelLoopbackEnReg : BitVec 64 := 0xc017
def pmdIdentifier : BitVec 64 := 2
def pmdIdQuake : BitVec 64 := 0x43
def pmdIdMysticom : BitVec 64 := 0x240

section Routines
variable (W : Wiring PhyRegs)

/-- A register of the adapter's port is read, and written with the bits on or off. -/
def updateReg (portnum : BitVec 16) (on : Bool) (devaddr addr mask : BitVec 64) :
    Mdio PhyRegs Unit := do
  let data ← unmXgeMdioRd W portnum devaddr addr
  unmXgeMdioWr W portnum devaddr addr (if on then data ||| mask else data &&& ~~~mask)

def doXgeLoopbackLocked (portnum : BitVec 16) (on : Bool) : Mdio PhyRegs Unit := do
  let data ← unmXgeMdioRd W portnum devPmaPmd pmdIdentifier
  if data = pmdIdQuake ∨ data = pmdIdMysticom then
    updateReg W portnum on devPmaPmd 0 1
  else if on then do
    updateReg W portnum on devPmaPmd aelLoopbackEnReg 4
    updateReg W portnum on devPhyXs 0xc000 0x8000
  else do
    updateReg W portnum on devPhyXs 0xc000 0x8000
    updateReg W portnum on devPmaPmd aelLoopbackEnReg 4

def doXgeLoopback (portnum : BitVec 16) (on : Bool) : Loop Int := do
  let ret ← onNiu phyLock
  if ret = 0 then do
    onBoard (doXgeLoopbackLocked W portnum on)
    onNiu phyUnlock
    return 0
  else return -1

/-- The bit in a word of 32 bits. -/
def loopbackBit (on : Bool) (data : BitVec 32) : BitVec 32 :=
  if on then data ||| 0x4000 else data &&& ~~~0x4000

def doXgeLoopbackP3Locked (portnum : BitVec 16) (on : Bool) : Mdio PhyRegs Unit := do
  let data ← unmXgeMdioRdPort W (portnum.setWidth 64) devPhyXs 0xc000
  unmXgeMdioWrPort W (portnum.setWidth 64) devPhyXs 0xc000
    ((loopbackBit on (data.setWidth 32)).setWidth 64)

/-- `stack` is what `data` holds where the read fails, which nothing looks at. -/
def doXgeLoopbackP3 (boardType : BoardType) (portnum physicalPort : BitVec 16)
    (stack : BitVec 32) (on : Bool) : Loop Int :=
  match boardType with
  | .xgbe => do
    let ret ← onNiu phyLock
    if ret = 0 then do
      onBoard (doXgeLoopbackP3Locked W portnum on)
      onNiu phyUnlock
      return 0
    else return -1
  | .gbe => do
    let data ← onNiu (unmNiuGbePhyRead physicalPort 0)
    onNiu (unmNiuGbePhyWrite physicalPort 0 (loopbackBit on (data.2.getD stack)))
  | .other => return 0

def xgeLoopback (boardType : BoardType) (portnum physicalPort : BitVec 16) (stack : BitVec 32)
    (on : Bool) : Loop Int :=
  if isRevisionP3 W.revisionId then doXgeLoopbackP3 W boardType portnum physicalPort stack on
  else doXgeLoopback W portnum on

end Routines

/-! ## The memory behind the port -/

section Memory
variable {present : Nat → Nat → Bool} {W : Wiring PhyRegs}

/-- The lines are at rest, and the registers hold `m`. -/
def Board.Holds (b : Board PhyRegs) (m : Memory) : Prop :=
  b.station.AtRest ∧ b.station.regs.word = m

theorem rdPort_holds (hW : W.device = transceiver present) {b : Board PhyRegs} {m : Memory}
    (h : b.Holds m) (port devaddr addr : BitVec 64) :
    (unmXgeMdioRdPort W port devaddr addr b).1 = memoryRd present W.pull m port devaddr addr ∧
      (unmXgeMdioRdPort W port devaddr addr b).2.Holds m := by
  obtain ⟨hrest, rfl⟩ := h
  obtain ⟨hret, hstation⟩ := unmXgeMdioRdPort_run W hrest port devaddr addr
  obtain ⟨hread, hword⟩ := deviceRd_word hW b.station.regs port devaddr addr
  refine ⟨hret.trans hread, ⟨0, by rw [hstation]⟩, ?_⟩
  rw [hstation, hword]

theorem wrPort_holds (hW : W.device = transceiver present) {b : Board PhyRegs} {m : Memory}
    (h : b.Holds m) (port devaddr addr data : BitVec 64) :
    (unmXgeMdioWrPort W port devaddr addr data b).2.Holds
      (memoryWr present m port devaddr addr data) := by
  obtain ⟨hrest, rfl⟩ := h
  have hstation := unmXgeMdioWrPort_run W hrest port devaddr addr data
  refine ⟨⟨0, by rw [hstation]⟩, ?_⟩
  rw [hstation, deviceWr_word hW]

end Memory

/-! ## Bits that are set -/

/-- `m'` is `m`, with the bits of the port's registers that meet `P` on or off. -/
def SetsBits (P : Nat → Nat → Nat → Prop) [∀ d a i, Decidable (P d a i)] (port : Nat) (on : Bool)
    (m m' : Memory) : Prop :=
  ∀ p d a i, i < 16 →
    (m' p d a).testBit i = if p = port ∧ P d a i then on else (m p d a).testBit i

section Bits
variable {P Q : Nat → Nat → Nat → Prop} [∀ d a i, Decidable (P d a i)]
  [∀ d a i, Decidable (Q d a i)] {port : Nat} {on on' : Bool} {m m' m'' : Memory}

theorem SetsBits.or (h : SetsBits P port on m m') (h' : SetsBits Q port on m' m'') :
    SetsBits (fun d a i => P d a i ∨ Q d a i) port on m m'' := by
  intro p d a i hi
  rw [h' p d a i hi, h p d a i hi]
  by_cases hport : p = port <;> by_cases hP : P d a i <;> by_cases hQ : Q d a i <;>
    simp [hport, hP, hQ]

theorem SetsBits.congr (h : SetsBits P port on m m') (hPQ : ∀ d a i, P d a i ↔ Q d a i) :
    SetsBits Q port on m m' := by
  intro p d a i hi
  rw [h p d a i hi]
  simp only [hPQ]

/-- The last setting counts. -/
theorem SetsBits.again (h : SetsBits P port on m m') (h' : SetsBits P port on' m' m'') :
    SetsBits P port on' m m'' := by
  intro p d a i hi
  rw [h' p d a i hi, h p d a i hi]
  split <;> rfl

/-- A register without such bits reads as before. -/
theorem SetsBits.mod_eq (h : SetsBits P port on m m') {p d a : Nat} (hP : ∀ i, ¬ P d a i) :
    m' p d a % 65536 = m p d a % 65536 := by
  apply Nat.eq_of_testBit_eq
  intro i
  rw [show 65536 = 2 ^ 16 from rfl, Nat.testBit_mod_two_pow, Nat.testBit_mod_two_pow]
  by_cases hi : i < 16
  · rw [h p d a i hi, if_neg fun hPi => hP i hPi.2]
  · rw [decide_eq_false hi, Bool.false_and, Bool.false_and]

end Bits

/-! ## What the routines set -/

section Sets
variable {present : Nat → Nat → Bool} {W : Wiring PhyRegs} {m : Memory}

/-- Bit `i` of a register, for the bits of a mask. -/
def MaskBit (devaddr addr mask : BitVec 64) (d a i : Nat) : Prop :=
  d = devaddr.toNat % 32 ∧ a = addr.toNat % 65536 ∧ mask.getLsbD i = true

instance maskBitDecidable (devaddr addr mask : BitVec 64) (d a i : Nat) :
    Decidable (MaskBit devaddr addr mask d a i) := inferInstanceAs (Decidable (_ ∧ _ ∧ _))

theorem testBit_mod_word (x : Nat) {i : Nat} (hi : i < 16) :
    (x % 65536).testBit i = x.testBit i := by
  rw [show 65536 = 2 ^ 16 from rfl, Nat.testBit_mod_two_pow, decide_eq_true hi, Bool.true_and]

/-- A bit of a register that is there. -/
theorem getLsbD_memoryRd (pull : Bool) {port devaddr : BitVec 64} (m : Memory)
    (hpresent : present (port.toNat % 32) (devaddr.toNat % 32) = true) (addr : BitVec 64) {i : Nat}
    (hi : i < 16) :
    (memoryRd present pull m port devaddr addr).getLsbD i =
      (m (port.toNat % 32) (devaddr.toNat % 32) (addr.toNat % 65536)).testBit i := by
  rw [memoryRd, if_pos hpresent, BitVec.getLsbD_ofNat, testBit_mod_word _ hi,
    decide_eq_true (Nat.lt_trans hi (by decide)), Bool.true_and]

/-- A register is written with what it held but for the bits of the mask. -/
theorem setsBits_memoryWr {port devaddr : BitVec 64}
    (hpresent : present (port.toNat % 32) (devaddr.toNat % 32) = true)
    {addr mask data : BitVec 64} {on : Bool}
    (hdata : ∀ i, i < 16 → data.getLsbD i = if mask.getLsbD i = true then on else
      (m (port.toNat % 32) (devaddr.toNat % 32) (addr.toNat % 65536)).testBit i) :
    SetsBits (MaskBit devaddr addr mask) (port.toNat % 32) on m
      (memoryWr present m port devaddr addr data) := by
  intro p d a i hi
  rw [memoryWr, if_pos hpresent, setWord]
  by_cases hreg : p = port.toNat % 32 ∧ d = devaddr.toNat % 32 ∧ a = addr.toNat % 65536
  · obtain ⟨rfl, rfl, rfl⟩ := hreg
    rw [if_pos ⟨rfl, rfl, rfl⟩, testBit_mod_word _ hi, BitVec.testBit_toNat, hdata i hi]
    simp only [MaskBit, true_and]
  · rw [if_neg hreg, if_neg]
    rintro ⟨hp, hd, ha, -⟩
    exact hreg ⟨hp, hd, ha⟩

theorem updateReg_sets (hW : W.device = transceiver present) {b : Board PhyRegs} (h : b.Holds m)
    (portnum : BitVec 16) (on : Bool) {devaddr : BitVec 64}
    (hpresent : present ((portnum.setWidth 64).toNat % 32) (devaddr.toNat % 32) = true)
    (addr mask : BitVec 64) :
    ∃ m', (updateReg W portnum on devaddr addr mask b).2.Holds m' ∧
      SetsBits (MaskBit devaddr addr mask) ((portnum.setWidth 64).toNat % 32) on m m' := by
  obtain ⟨hret, hholds⟩ := rdPort_holds hW h (portnum.setWidth 64) devaddr addr
  rw [updateReg, bind_run, unmXgeMdioRd_eq, unmXgeMdioWr_eq, hret]
  refine ⟨_, wrPort_holds hW hholds _ _ _ _, setsBits_memoryWr hpresent ?_⟩
  intro i hi
  have hbit := getLsbD_memoryRd W.pull m hpresent addr hi
  cases on with
  | true =>
    rw [if_pos rfl, BitVec.getLsbD_or, hbit]
    cases mask.getLsbD i <;> simp
  | false =>
    rw [if_neg Bool.false_ne_true, BitVec.getLsbD_and, BitVec.getLsbD_not, hbit,
      decide_eq_true (Nat.lt_trans hi (by decide))]
    cases mask.getLsbD i <;> simp

/-- Bit 14, in a word of 32 bits as in one of 64. -/
theorem loopbackMask_getLsbD :
    ∀ i, i < 16 →
      BitVec.getLsbD (0x4000 : BitVec 32) i = BitVec.getLsbD (0x4000 : BitVec 64) i := by
  decide

theorem getLsbD_loopbackBit (on : Bool) (data : BitVec 32) {i : Nat} (hi : i < 16) :
    (loopbackBit on data).getLsbD i =
      if BitVec.getLsbD (0x4000 : BitVec 64) i = true then on else data.getLsbD i := by
  rw [← loopbackMask_getLsbD i hi]
  cases on with
  | true =>
    rw [loopbackBit, if_pos rfl, BitVec.getLsbD_or]
    cases BitVec.getLsbD (0x4000 : BitVec 32) i <;> simp
  | false =>
    rw [loopbackBit, if_neg Bool.false_ne_true, BitVec.getLsbD_and, BitVec.getLsbD_not,
      decide_eq_true (Nat.lt_trans hi (by decide)), Bool.true_and]
    cases BitVec.getLsbD (0x4000 : BitVec 32) i <;> simp

theorem doXgeLoopbackP3Locked_sets (hW : W.device = transceiver present) {b : Board PhyRegs}
    (h : b.Holds m) (portnum : BitVec 16) (on : Bool)
    (hpresent : present ((portnum.setWidth 64).toNat % 32) (devPhyXs.toNat % 32) = true) :
    ∃ m', (doXgeLoopbackP3Locked W portnum on b).2.Holds m' ∧
      SetsBits (MaskBit devPhyXs 0xc000 0x4000) ((portnum.setWidth 64).toNat % 32) on m m' := by
  obtain ⟨hret, hholds⟩ := rdPort_holds hW h (portnum.setWidth 64) devPhyXs 0xc000
  rw [doXgeLoopbackP3Locked, bind_run, hret]
  refine ⟨_, wrPort_holds hW hholds _ _ _ _, setsBits_memoryWr hpresent ?_⟩
  intro i hi
  have hbit := getLsbD_memoryRd W.pull m hpresent 0xc000 hi
  rw [BitVec.getLsbD_setWidth, decide_eq_true (Nat.lt_trans hi (by decide)), Bool.true_and,
    getLsbD_loopbackBit on _ hi, BitVec.getLsbD_setWidth,
    decide_eq_true (Nat.lt_trans hi (by decide)), Bool.true_and, hbit]

/-- The loopback bits of a chip with a transceiver that identifies itself as `id`. -/
def LoopbackBit (revisionId : BitVec 8) (id d a i : Nat) : Prop :=
  if isRevisionP3 revisionId then MaskBit devPhyXs 0xc000 0x4000 d a i
  else if id = pmdIdQuake.toNat ∨ id = pmdIdMysticom.toNat then MaskBit devPmaPmd 0 1 d a i
  else MaskBit devPmaPmd aelLoopbackEnReg 4 d a i ∨ MaskBit devPhyXs 0xc000 0x8000 d a i

instance loopbackBitDecidable (revisionId : BitVec 8) (id d a i : Nat) :
    Decidable (LoopbackBit revisionId id d a i) := by
  unfold LoopbackBit
  infer_instance

/-- The identifier is no register with a loopback bit. -/
theorem not_loopbackBit_identifier (revisionId : BitVec 8) (id i : Nat) :
    ¬ LoopbackBit revisionId id 1 2 i := by
  rw [LoopbackBit]
  split
  · rintro ⟨hd, -⟩
    exact absurd hd (by decide)
  · split
    · rintro ⟨-, ha, -⟩
      exact absurd ha (by decide)
    · rintro (⟨-, ha, -⟩ | ⟨hd, -⟩)
      · exact absurd ha (by decide)
      · exact absurd hd (by decide)

/-- What the transceiver identifies itself as. -/
def identifier (m : Memory) (portnum : BitVec 16) : Nat :=
  m ((portnum.setWidth 64).toNat % 32) 1 2 % 65536

theorem doXgeLoopbackLocked_sets (hW : W.device = transceiver present)
    (hchip : ¬ isRevisionP3 W.revisionId) {b : Board PhyRegs} (h : b.Holds m) (portnum : BitVec 16)
    (on : Bool)
    (hpma : present ((portnum.setWidth 64).toNat % 32) (devPmaPmd.toNat % 32) = true)
    (hxs : present ((portnum.setWidth 64).toNat % 32) (devPhyXs.toNat % 32) = true) :
    ∃ m', (doXgeLoopbackLocked W portnum on b).2.Holds m' ∧
      SetsBits (LoopbackBit W.revisionId (identifier m portnum))
        ((portnum.setWidth 64).toNat % 32) on m m' := by
  obtain ⟨hret, hholds⟩ := rdPort_holds hW h (portnum.setWidth 64) devPmaPmd pmdIdentifier
  have hid : memoryRd present W.pull m (portnum.setWidth 64) devPmaPmd pmdIdentifier =
      BitVec.ofNat 64 (identifier m portnum) := by
    rw [memoryRd, if_pos hpma]
    rfl
  have hlt : identifier m portnum < 2 ^ 64 :=
    Nat.lt_trans (Nat.mod_lt _ (by decide)) (by decide)
  have hcase : (BitVec.ofNat 64 (identifier m portnum) = pmdIdQuake ∨
      BitVec.ofNat 64 (identifier m portnum) = pmdIdMysticom) ↔
        identifier m portnum = pmdIdQuake.toNat ∨ identifier m portnum = pmdIdMysticom.toNat := by
    simp only [← BitVec.toNat_inj, BitVec.toNat_ofNat, Nat.mod_eq_of_lt hlt]
  rw [doXgeLoopbackLocked, bind_run, unmXgeMdioRd_eq, hret, hid]
  by_cases hknown : identifier m portnum = pmdIdQuake.toNat ∨
      identifier m portnum = pmdIdMysticom.toNat
  · rw [if_pos (hcase.mpr hknown)]
    obtain ⟨m', hholds', hsets⟩ := updateReg_sets hW hholds portnum on hpma 0 1
    refine ⟨m', hholds', hsets.congr fun d a i => ?_⟩
    rw [LoopbackBit, if_neg hchip, if_pos hknown]
  · rw [if_neg fun hyes => hknown (hcase.mp hyes)]
    cases on with
    | true =>
      rw [if_pos rfl, bind_run]
      obtain ⟨m', hholds', hsets⟩ := updateReg_sets hW hholds portnum true hpma aelLoopbackEnReg 4
      obtain ⟨m'', hholds'', hsets'⟩ := updateReg_sets hW hholds' portnum true hxs 0xc000 0x8000
      refine ⟨m'', hholds'', (hsets.or hsets').congr fun d a i => ?_⟩
      rw [LoopbackBit, if_neg hchip, if_neg hknown]
    | false =>
      rw [if_neg Bool.false_ne_true, bind_run]
      obtain ⟨m', hholds', hsets⟩ := updateReg_sets hW hholds portnum false hxs 0xc000 0x8000
      obtain ⟨m'', hholds'', hsets'⟩ :=
        updateReg_sets hW hholds' portnum false hpma aelLoopbackEnReg 4
      refine ⟨m'', hholds'', (hsets.or hsets').congr fun d a i => ?_⟩
      rw [LoopbackBit, if_neg hchip, if_neg hknown, or_comm]

end Sets

/-! ## Runs -/

/-- A 10G card whose transceiver has the devices PMA/PMD and PHY XS at the adapter's
port. -/
structure XgCard where
  revisionId : BitVec 8
  present : Nat → Nat → Bool
  pull : Bool
  portnum : BitVec 16
  physicalPort : BitVec 16
  stack : BitVec 32
  pmaPmd : present ((portnum.setWidth 64).toNat % 32) (devPmaPmd.toNat % 32) = true
  phyXs : present ((portnum.setWidth 64).toNat % 32) (devPhyXs.toNat % 32) = true

namespace XgCard
variable (x : XgCard)

def wiring : Wiring PhyRegs := ⟨x.revisionId, transceiver x.present, x.pull⟩

def port : Nat := (x.portnum.setWidth 64).toNat % 32

/-- A call of `xge_loopback`. -/
def loopback (on : Bool) : Loop Int :=
  xgeLoopback x.wiring .xgbe x.portnum x.physicalPort x.stack on

def loopbackAll : List Bool → Loop (List Int)
  | [] => return []
  | on :: ons => do
    let ret ← x.loopback on
    let rets ← loopbackAll ons
    return ret :: rets

/-- What a memory is after loopback was set or cleared; `none` if it never was. -/
def Set (m m' : Memory) : Option Bool → Prop
  | none => m' = m
  | some on => SetsBits (LoopbackBit x.revisionId (identifier m x.portnum)) x.port on m m'

end XgCard

/-- Which of the calls get the semaphore. -/
def grants : List Nat → List Bool → List Bool
  | _, [] => []
  | reads, _ :: ons => decide (reads.headD 0 ≤ phyLockTimeout) :: grants reads.tail ons

/-- The last call that gets the semaphore. -/
def lastGranted : List Nat → List Bool → Option Bool
  | _, [] => none
  | reads, on :: ons =>
    (lastGranted reads.tail ons).or (if reads.headD 0 ≤ phyLockTimeout then some on else none)

section Runs
variable (x : XgCard)

theorem loop_bind_run {α β : Type} (l : Loop α) (f : α → Loop β) (s : Ports) :
    (l >>= f) s = f (l s).1 (l s).2 := rfl

theorem loop_pure_run {α : Type} (a : α) (s : Ports) : (pure a : Loop α) s = (a, s) := rfl

/-- A routine between the lock and the unlock. -/
theorem locked_run (body : Mdio PhyRegs Unit) (s : Ports) :
    (do
      let ret ← onNiu phyLock
      if ret = 0 then do
        onBoard body
        onNiu phyUnlock
        return 0
      else return -1 : Loop Int) s =
      if s.niu.view.Granted then (0, ⟨(body s.board).2, s.niu.withLock.unlock⟩)
      else (-1, { s with niu := { s.niu with lockReads := s.niu.lockReads.tail } }) := by
  rw [loop_bind_run, onNiu]
  by_cases hgranted : s.niu.view.Granted
  · rw [phyLock_granted hgranted, if_pos rfl, if_pos hgranted]
    rfl
  · rw [phyLock_late hgranted, if_neg (show ¬ (-1 : Int) = 0 by decide), if_neg hgranted]
    rfl

/-- Under the lock, the routine of either chip sets the bits of that chip. -/
theorem XgCard.loopback_eq (on : Bool) (s : Ports) :
    ∃ body : Mdio PhyRegs Unit,
      x.loopback on s =
          (if s.niu.view.Granted then (0, ⟨(body s.board).2, s.niu.withLock.unlock⟩)
          else (-1, { s with niu := { s.niu with lockReads := s.niu.lockReads.tail } })) ∧
        ∀ m, s.board.Holds m → ∃ m', (body s.board).2.Holds m' ∧ x.Set m m' (some on) := by
  by_cases hchip : isRevisionP3 x.revisionId
  · refine ⟨doXgeLoopbackP3Locked x.wiring x.portnum on, ?_, ?_⟩
    · rw [← locked_run, XgCard.loopback, xgeLoopback]
      exact congrFun (if_pos hchip) s
    · intro m hm
      obtain ⟨m', hholds, hsets⟩ :=
        doXgeLoopbackP3Locked_sets (W := x.wiring) rfl hm x.portnum on x.phyXs
      refine ⟨m', hholds, hsets.congr fun d a i => ?_⟩
      rw [LoopbackBit, if_pos hchip]
  · refine ⟨doXgeLoopbackLocked x.wiring x.portnum on, ?_, ?_⟩
    · rw [← locked_run, XgCard.loopback, xgeLoopback]
      exact congrFun (if_neg hchip) s
    · intro m hm
      exact doXgeLoopbackLocked_sets (W := x.wiring) rfl hchip hm x.portnum on x.pmaPmd x.phyXs

theorem XgCard.Set.identifier_eq {m m' : Memory} {o : Option Bool} (h : x.Set m m' o) :
    identifier m' x.portnum = identifier m x.portnum := by
  cases o with
  | none =>
    obtain rfl : m' = m := h
    rfl
  | some on => exact SetsBits.mod_eq h fun i => not_loopbackBit_identifier x.revisionId _ i

theorem XgCard.Set.trans {m m' m'' : Memory} {o o' : Option Bool} (h : x.Set m m' o)
    (h' : x.Set m' m'' o') : x.Set m m'' (o'.or o) := by
  cases o' with
  | none =>
    obtain rfl : m'' = m' := h'
    exact h
  | some on' =>
    have hid := h.identifier_eq
    simp only [XgCard.Set, hid] at h'
    cases o with
    | none =>
      obtain rfl : m' = m := h
      exact h'
    | some on => exact SetsBits.again h h'

/-- **One call** of `xge_loopback`. -/
theorem XgCard.loopback_run {s : Ports} {m : Memory} (h : s.board.Holds m) (on : Bool) :
    (x.loopback on s).1 = (if s.niu.view.Granted then 0 else -1) ∧
      (∃ m', (x.loopback on s).2.board.Holds m' ∧
        x.Set m m' (if s.niu.view.Granted then some on else none)) ∧
      (x.loopback on s).2.niu.lockReads = s.niu.lockReads.tail ∧
      s.niu.LeavesAlone (x.loopback on s).2.niu := by
  obtain ⟨body, hrun, hsets⟩ := x.loopback_eq on s
  rw [hrun]
  by_cases hgranted : s.niu.view.Granted
  · rw [if_pos hgranted, if_pos hgranted, if_pos hgranted]
    exact ⟨rfl, hsets m h, rfl, rfl, fun _ => rfl⟩
  · rw [if_neg hgranted, if_neg hgranted, if_neg hgranted]
    exact ⟨rfl, ⟨m, h, rfl⟩, rfl, rfl, fun hfree => hfree⟩

end Runs

/-- **Loopback on and off.**  Over any run of calls of `xge_loopback`, the loopback
bits are what the last call that got the semaphore asked for, and all else in the
transceiver, on the management block and of the semaphore is as it was; a call fails
just if it does not get the semaphore. -/
theorem XgCard.loopbackAll_run (x : XgCard) {s : Ports} {m : Memory} (h : s.board.Holds m)
    (ons : List Bool) :
    (x.loopbackAll ons s).1 =
        (grants s.niu.lockReads ons).map (fun granted => if granted then 0 else -1) ∧
      (∃ m', (x.loopbackAll ons s).2.board.Holds m' ∧
        x.Set m m' (lastGranted s.niu.lockReads ons)) ∧
      s.niu.LeavesAlone (x.loopbackAll ons s).2.niu := by
  induction ons generalizing s m with
  | nil => exact ⟨rfl, ⟨m, h, rfl⟩, rfl, fun hfree => hfree⟩
  | cons on ons ih =>
    obtain ⟨hret, ⟨m', hholds, hset⟩, hreads, hleaves⟩ := x.loopback_run h on
    obtain ⟨hrets, ⟨m'', hholds', hset'⟩, hleaves'⟩ := ih hholds
    rw [hreads] at hrets hset'
    rw [XgCard.loopbackAll, loop_bind_run, loop_bind_run, loop_pure_run, hret, hrets]
    refine ⟨?_, ⟨m'', hholds', hset.trans x hset'⟩, hleaves.trans hleaves'⟩
    by_cases hgranted : s.niu.lockReads.headD 0 ≤ phyLockTimeout
    · rw [grants, decide_eq_true hgranted, if_pos (show s.niu.view.Granted from hgranted)]
      rfl
    · rw [grants, decide_eq_false hgranted, if_neg (show ¬ s.niu.view.Granted from hgranted)]
      rfl

/-- A card with all devices, and its lines at rest. -/
def parkedCard : XgCard where
  revisionId := 0x25
  present := fun _ _ => true
  pull := true
  portnum := 1
  physicalPort := 0
  stack := 0
  pmaPmd := rfl
  phyXs := rfl

/-- Its registers are 0, and the semaphore is free. -/
def parkedPorts : Ports where
  board := ⟨fun _ => 0, ⟨⟨fun _ _ => 0, fun _ _ _ => 0⟩, .waiting 0⟩, []⟩
  niu := ⟨0, 0, 0, 0, fun _ _ => 0, ⟨0, 0⟩, [], [], false⟩

theorem XgCard.loopbackAll_parked :
    (parkedCard.loopbackAll [true, false] parkedPorts).1 =
        (grants parkedPorts.niu.lockReads [true, false]).map
          (fun granted => if granted then 0 else -1) ∧
      (∃ m', (parkedCard.loopbackAll [true, false] parkedPorts).2.board.Holds m' ∧
        parkedCard.Set (fun _ _ _ => 0) m'
          (lastGranted parkedPorts.niu.lockReads [true, false])) ∧
      parkedPorts.niu.LeavesAlone (parkedCard.loopbackAll [true, false] parkedPorts).2.niu :=
  XgCard.loopbackAll_run parkedCard ⟨⟨0, rfl⟩, rfl⟩ [true, false]

end Phy
end NxNic

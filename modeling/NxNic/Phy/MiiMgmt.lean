import Mathlib.Logic.Function.Basic
import Mathlib.Data.BitVec

/-! # The management interface of the GbE ports

The registers of the GbE PHYs are reached through one management block, that of
port 0, which works only while the MAC of port 0 is not in reset.  The functions of
the four ports share it under the PHY semaphore: each takes the MAC of port 0 out
of reset if it has to, waits for the block, and puts the MAC back.

The state (`Niu`) is the registers of the block, the registers of the PHYs, the access
under way and what the accesses and the locks to come will take.  The block answers an
access after a number of polls of its indicators; another access begins anew.  The
semaphore is granted after a number of reads.

`Phys` is what it all comes to: the registers of the PHYs, and for each call whether lock
and access are in time.  A read or a write of one register is compared with it
(`Niu.view`), including what a late access has done by then, and
`miiExecAll_eq_allOnPhys` follows for runs of calls of all ports.
-/
namespace NxNic
namespace Phy

/-! ## The block -/

/-- The polls for which the block is busy with an access, and those for which its
result is not valid. -/
structure Latency where
  busy : Nat
  notvalid : Nat
deriving DecidableEq

/-- The registers of port 0 that the routines use, the registers of the PHYs, the
access under way, and what the accesses and the calls of `phy_lock` to come will
take. -/
structure Niu where
  macConfig0 : BitVec 32
  mgmtAddr : BitVec 32
  mgmtCommand : BitVec 32
  mgmtStatus : BitVec 32
  phys : BitVec 5 → BitVec 5 → BitVec 16
  left : Latency
  latencies : List Latency
  lockReads : List Nat
  locked : Bool

namespace Niu
variable (n : Niu)

def softReset : Bool := n.macConfig0.getLsbD 31

/-- The fields of the address register: `phy_addr` and `reg_addr`. -/
def phyAddr : BitVec 5 := n.mgmtAddr.extractLsb' 8 5
def regAddr : BitVec 5 := n.mgmtAddr.extractLsb' 0 5

/-- An access begins. -/
def begin : Niu :=
  { n with left := n.latencies.headD ⟨0, 0⟩, latencies := n.latencies.tail }

/-- A write of the command register: `read_cycle` reads the register addressed. -/
def command (data : BitVec 32) : Niu :=
  if data.getLsbD 0 && !n.softReset then
    { n.begin with
      mgmtCommand := data
      mgmtStatus := (n.phys n.phyAddr n.regAddr).setWidth 32 }
  else { n with mgmtCommand := data }

def setPhy (phy reg : BitVec 5) (val : BitVec 16) : BitVec 5 → BitVec 5 → BitVec 16 :=
  fun p r => if p = phy ∧ r = reg then val else n.phys p r

/-- A write of the control register writes the register addressed. -/
def control (data : BitVec 32) : Niu :=
  if n.softReset then n
  else { n.begin with phys := n.setPhy n.phyAddr n.regAddr (data.setWidth 16) }

def setMacConfig0 (data : BitVec 32) : Niu := { n with macConfig0 := data }

def setMgmtAddr (data : BitVec 32) : Niu := { n with mgmtAddr := data }

def unlock : Niu := { n with locked := false }

/-- `busy` and `notvalid` of the indicators, and a poll less to wait. -/
def indicate : (Bool × Bool) × Niu :=
  ((decide (0 < n.left.busy), decide (0 < n.left.notvalid)),
    { n with left := ⟨n.left.busy - 1, n.left.notvalid - 1⟩ })

end Niu

/-! ## The routines -/

abbrev Mii := StateM Niu

/-- `phy_lock_timeout` -/
def phyLockTimeout : Nat := 100000000

/-- The loop of `phy_lock`, on a semaphore that is granted after `reads` more reads. -/
def phyLockLoop : Nat → Nat → Int
  | 0, _ => 0
  | reads + 1, timeout => if phyLockTimeout ≤ timeout then -1 else phyLockLoop reads (timeout + 1)

def phyLock : Mii Int := fun n =>
  let ret := phyLockLoop (n.lockReads.headD 0) 0
  (ret, { n with lockReads := n.lockReads.tail, locked := if ret = 0 then true else n.locked })

def phyUnlock : Mii Unit := modify Niu.unlock

/-- `UNM_NIU_PHY_WAITMAX` -/
def unmNiuPhyWaitmax : Nat := 50

/-- The loop on the indicators, which counts `timeout` twice in a round; `valid`
says whether it waits for the result as well.  It makes 26 polls at most. -/
def waitMgmt (valid : Bool) : Nat → Nat → Mii Nat
  | 0, timeout => return timeout
  | polls + 1, timeout => do
    let status ← fun n => n.indicate
    let timeout := timeout + 1
    if status.1 || (valid && status.2) then
      if timeout < unmNiuPhyWaitmax then waitMgmt valid polls (timeout + 1)
      else return timeout + 1
    else return timeout

/-- `tx_reset_pb`, `rx_reset_pb`, `tx_reset_mac` and `rx_reset_mac`. -/
def macResets : BitVec 32 := 0xf0000

/-- "MII mgmt all goes through port 0 MAC interface, so it cannot be in reset". -/
def macInUse (macCfg0 : BitVec 32) : BitVec 32 :=
  if macCfg0.getLsbD 31 then macResets else macCfg0

/-- The configuration of the MAC, which is out of reset from then on. -/
def takeMac : Mii (BitVec 32) := fun n =>
  (n.macConfig0, n.setMacConfig0 (macInUse n.macConfig0))

/-- "Restore the state of port 0 MAC in case we tampered with it." -/
def restoreMac (macCfg0 : BitVec 32) : Mii Unit :=
  modify fun n => if macCfg0.getLsbD 31 then n.setMacConfig0 macCfg0 else n

/-- `unm_niu_gb_mii_mgmt_address_t`, with the fields filled in. -/
def mgmtAddress (phy reg : BitVec 64) : BitVec 32 :=
  (reg.setWidth 5).setWidth 32 ||| (phy.setWidth 5).setWidth 32 <<< 8

/-- A read under the lock: what it returns, and the value if it stores one. -/
def phyReadLocked (phy reg : BitVec 64) : Mii (Int × Option (BitVec 32)) := do
  let macCfg0 ← takeMac
  modify fun n => n.setMgmtAddr (mgmtAddress phy reg)
  modify fun n => n.command 0
  modify fun n => n.command 1
  let timeout ← waitMgmt true 26 0
  let status := (← get).mgmtStatus
  restoreMac macCfg0
  phyUnlock
  return if timeout < unmNiuPhyWaitmax then (0, some status) else (-1, none)

def unmNiuGbePhyRead (physicalPort : BitVec 16) (reg : BitVec 64) :
    Mii (Int × Option (BitVec 32)) := do
  let ret ← phyLock
  if ret = 0 then phyReadLocked (physicalPort.setWidth 64) reg else return (-1, none)

def phyWriteLocked (phy reg : BitVec 64) (val : BitVec 32) : Mii Int := do
  let macCfg0 ← takeMac
  modify fun n => n.command 0
  modify fun n => n.setMgmtAddr (mgmtAddress phy reg)
  modify fun n => n.control val
  let timeout ← waitMgmt false 26 0
  restoreMac macCfg0
  phyUnlock
  return if timeout < unmNiuPhyWaitmax then 0 else -1

def unmNiuGbePhyWrite (physicalPort : BitVec 16) (reg : BitVec 64) (val : BitVec 32) :
    Mii Int := do
  let ret ← phyLock
  if ret = 0 then phyWriteLocked (physicalPort.setWidth 64) reg val else return -1

/-! ## Waiting -/

/-- `phy_lock` gets a semaphore that is granted in time. -/
theorem phyLockLoop_eq (reads timeout : Nat) (h : timeout ≤ phyLockTimeout) :
    phyLockLoop reads timeout = if reads + timeout ≤ phyLockTimeout then 0 else -1 := by
  induction reads generalizing timeout with
  | zero => rw [phyLockLoop, if_pos (by omega)]
  | succ reads ih =>
    rw [phyLockLoop]
    by_cases hlate : phyLockTimeout ≤ timeout
    · rw [if_pos hlate, if_neg (by omega)]
    · rw [if_neg hlate, ih (timeout + 1) (by omega)]
      congr 1
      rw [Nat.add_right_comm, Nat.add_assoc]

/-- The polls an access keeps the loop waiting. -/
def Latency.polls (l : Latency) (valid : Bool) : Nat :=
  if valid then max l.busy l.notvalid else l.busy

/-- After `k` polls. -/
def Latency.after (l : Latency) (k : Nat) : Latency := ⟨l.busy - k, l.notvalid - k⟩

theorem Latency.polls_after (l : Latency) (k : Nat) (valid : Bool) :
    (l.after k).polls valid = l.polls valid - k := by
  cases valid
  · rfl
  · simp only [Latency.polls, Latency.after, if_true]
    omega

/-- The indicators show that there is something to wait for. -/
theorem Latency.polls_pos (l : Latency) (valid : Bool) :
    (decide (0 < l.busy) || (valid && decide (0 < l.notvalid))) = decide (0 < l.polls valid) := by
  cases valid
  · simp [Latency.polls]
  · simp only [Latency.polls, if_true, Bool.true_and, ← Bool.decide_or]
    congr 1
    exact propext (by omega)

theorem Latency.after_after (l : Latency) (j k : Nat) : (l.after j).after k = l.after (j + k) := by
  simp only [Latency.after, Nat.sub_sub]

/-- **The loop on the indicators** is in time if the access keeps it waiting for 24
polls at most; it does nothing but poll. -/
theorem waitMgmt_run (valid : Bool) (polls timeout : Nat) (h : timeout + 2 * polls = 52)
    (hpos : 0 < polls) (n : Niu) :
    ∃ k, (waitMgmt valid polls timeout n).2 = { n with left := n.left.after k } ∧
      ((waitMgmt valid polls timeout n).1 < unmNiuPhyWaitmax ↔
        n.left.polls valid + 1 < polls) := by
  induction polls generalizing timeout n with
  | zero => exact absurd hpos (Nat.lt_irrefl 0)
  | succ polls ih =>
    have hround : waitMgmt valid (polls + 1) timeout n =
        if 0 < n.left.polls valid then
          if timeout + 1 < unmNiuPhyWaitmax then
            waitMgmt valid polls (timeout + 2) { n with left := n.left.after 1 }
          else (timeout + 2, { n with left := n.left.after 1 })
        else (timeout + 1, { n with left := n.left.after 1 }) := by
      show (if (decide (0 < n.left.busy) || (valid && decide (0 < n.left.notvalid))) = true
        then _ else _ : Mii Nat) _ = _
      rw [Latency.polls_pos]
      simp only [decide_eq_true_eq]
      split
      · split <;> rfl
      · rfl
    rw [hround]
    split
    · rename_i hwait
      split
      · rename_i hmore
        have hleft : 0 < polls := by
          rw [unmNiuPhyWaitmax] at hmore
          omega
        obtain ⟨k, hn, htime⟩ := ih (timeout + 2) (by omega) hleft
          { n with left := n.left.after 1 }
        rw [Latency.polls_after] at htime
        refine ⟨1 + k, ?_, ?_⟩
        · rw [hn, Latency.after_after]
        · rw [htime]
          omega
      · rename_i hlate
        rw [unmNiuPhyWaitmax] at hlate ⊢
        exact ⟨1, rfl, by omega⟩
    · rename_i hdone
      rw [unmNiuPhyWaitmax]
      exact ⟨1, rfl, by omega⟩

/-! ## What a call does -/

/-- The registers of the PHYs, and what is to come. -/
structure Phys where
  phys : BitVec 5 → BitVec 5 → BitVec 16
  latencies : List Latency
  lockReads : List Nat

def Niu.view (n : Niu) : Phys := ⟨n.phys, n.latencies, n.lockReads⟩

namespace Phys
variable (m : Phys)

/-- The call of `phy_lock` that comes next is in time. -/
def Granted : Prop := m.lockReads.headD 0 ≤ phyLockTimeout

/-- The access that comes next is in time. -/
def InTime (valid : Bool) : Prop := (m.latencies.headD ⟨0, 0⟩).polls valid ≤ 24

instance grantedDecidable : Decidable m.Granted := inferInstanceAs (Decidable (_ ≤ _))

instance inTimeDecidable (valid : Bool) : Decidable (m.InTime valid) :=
  inferInstanceAs (Decidable (_ ≤ _))

def lock : Phys := { m with lockReads := m.lockReads.tail }

def access : Phys := { m.lock with latencies := m.latencies.tail }

/-- A read of a register of the PHY of a port. -/
def read (physicalPort : BitVec 16) (reg : BitVec 64) : (Int × Option (BitVec 32)) × Phys :=
  if m.Granted then
    if m.InTime true then
      ((0, some ((m.phys (physicalPort.setWidth 5) (reg.setWidth 5)).setWidth 32)), m.access)
    else ((-1, none), m.access)
  else ((-1, none), m.lock)

/-- A write, which reaches the PHY also where it is not in time. -/
def write (physicalPort : BitVec 16) (reg : BitVec 64) (val : BitVec 32) : Int × Phys :=
  if m.Granted then
    (if m.InTime false then 0 else -1,
      { m.access with
        phys := fun p r =>
          if p = physicalPort.setWidth 5 ∧ r = reg.setWidth 5 then val.setWidth 16
          else m.phys p r })
  else (-1, m.lock)

end Phys

/-- What a call leaves behind: the MAC of port 0 as it was, and the semaphore. -/
structure Niu.LeavesAlone (n n' : Niu) : Prop where
  macConfig0 : n'.macConfig0 = n.macConfig0
  locked : n.locked = false → n'.locked = false

theorem Niu.LeavesAlone.trans {n n' n'' : Niu} (h : n.LeavesAlone n') (h' : n'.LeavesAlone n'') :
    n.LeavesAlone n'' where
  macConfig0 := h'.macConfig0.trans h.macConfig0
  locked hlocked := h'.locked (h.locked hlocked)

section Calls

theorem mii_bind_run {α β : Type} (m : Mii α) (f : α → Mii β) (n : Niu) :
    (m >>= f) n = f (m n).1 (m n).2 := rfl

theorem mii_pure_run {α : Type} (a : α) (n : Niu) : (pure a : Mii α) n = (a, n) := rfl

theorem mii_get_run (n : Niu) : (get : Mii Niu) n = (n, n) := rfl

theorem mii_modify_run (f : Niu → Niu) (n : Niu) : (modify f : Mii Unit) n = ((), f n) := rfl

theorem phyLock_run (n : Niu) :
    phyLock n = (if n.view.Granted then 0 else -1,
      { n with
        lockReads := n.lockReads.tail
        locked := if n.view.Granted then true else n.locked }) := by
  have hloop := phyLockLoop_eq (n.lockReads.headD 0) 0 (Nat.zero_le _)
  rw [Nat.add_zero] at hloop
  by_cases hgranted : n.view.Granted
  · have hreads : n.lockReads.headD 0 ≤ phyLockTimeout := hgranted
    rw [if_pos hgranted, if_pos hgranted, phyLock, hloop, if_pos hreads]
    rfl
  · have hreads : ¬ n.lockReads.headD 0 ≤ phyLockTimeout := hgranted
    rw [if_neg hgranted, if_neg hgranted, phyLock, hloop, if_neg hreads]
    rfl

theorem phyAddr_mgmtAddress (n : Niu) (phy reg : BitVec 64)
    (h : n.mgmtAddr = mgmtAddress phy reg) : n.phyAddr = phy.setWidth 5 := by
  rw [Niu.phyAddr, h, mgmtAddress]
  ext i hi
  have hin : 8 + i < 32 := by omega
  have hout : ¬ 8 + i < 5 := by omega
  simp [hin, hout, hi]

theorem regAddr_mgmtAddress (n : Niu) (phy reg : BitVec 64)
    (h : n.mgmtAddr = mgmtAddress phy reg) : n.regAddr = reg.setWidth 5 := by
  rw [Niu.regAddr, h, mgmtAddress]
  ext i hi
  have hword : i < 32 := by omega
  have hlow : i < 8 := by omega
  simp [hword, hlow, hi]

theorem macInUse_getLsbD (macCfg0 : BitVec 32) : (macInUse macCfg0).getLsbD 31 = false := by
  rw [macInUse]
  split
  · decide
  · rename_i h
    exact Bool.eq_false_iff.mpr h

/-- What is taken is put back. -/
theorem restoreMac_run (macCfg0 : BitVec 32) (n : Niu) (h : n.macConfig0 = macInUse macCfg0) :
    restoreMac macCfg0 n = ((), n.setMacConfig0 macCfg0) := by
  rw [restoreMac, mii_modify_run]
  split
  · rfl
  · rename_i hreset
    rw [macInUse, if_neg hreset] at h
    rw [← h]
    rfl

/-- The read command, with the MAC out of reset and the address in place. -/
theorem command_one (n : Niu) (phy reg : BitVec 64) (hreset : n.softReset = false)
    (haddr : n.mgmtAddr = mgmtAddress phy reg) :
    n.command 1 = { n.begin with
      mgmtCommand := 1
      mgmtStatus := (n.phys (phy.setWidth 5) (reg.setWidth 5)).setWidth 32 } := by
  rw [Niu.command, hreset, phyAddr_mgmtAddress n phy reg haddr, regAddr_mgmtAddress n phy reg haddr]
  rfl

theorem control_run (n : Niu) (phy reg : BitVec 64) (data : BitVec 32)
    (hreset : n.softReset = false) (haddr : n.mgmtAddr = mgmtAddress phy reg) :
    n.control data =
      { n.begin with phys := n.setPhy (phy.setWidth 5) (reg.setWidth 5) (data.setWidth 16) } := by
  rw [Niu.control, hreset, phyAddr_mgmtAddress n phy reg haddr, regAddr_mgmtAddress n phy reg haddr]
  rfl

/-- The block, ready for an access. -/
def Niu.ready (n : Niu) (phy reg : BitVec 64) : Niu :=
  ((n.setMacConfig0 (macInUse n.macConfig0)).setMgmtAddr (mgmtAddress phy reg)).command 0

theorem phyReadLocked_run (n : Niu) (phy reg : BitVec 64) :
    (phyReadLocked phy reg n).1 =
        (if n.view.InTime true then
          (0, some ((n.phys (phy.setWidth 5) (reg.setWidth 5)).setWidth 32)) else (-1, none)) ∧
      (phyReadLocked phy reg n).2.view = { n.view with latencies := n.latencies.tail } ∧
      (phyReadLocked phy reg n).2.macConfig0 = n.macConfig0 ∧
      (phyReadLocked phy reg n).2.locked = false := by
  have hready : (n.ready phy reg).softReset = false := macInUse_getLsbD n.macConfig0
  have hr := command_one (n.ready phy reg) phy reg hready rfl
  obtain ⟨k, hwait, htime⟩ := waitMgmt_run true 26 0 rfl (by decide)
    ((n.ready phy reg).command 1)
  have hrun : phyReadLocked phy reg n =
      (if (waitMgmt true 26 0 ((n.ready phy reg).command 1)).1 < unmNiuPhyWaitmax then
          (0, some ((waitMgmt true 26 0 ((n.ready phy reg).command 1)).2).mgmtStatus)
        else (-1, none),
        ((restoreMac n.macConfig0
          (waitMgmt true 26 0 ((n.ready phy reg).command 1)).2).2).unlock) := by
    rw [phyReadLocked]
    simp only [mii_bind_run, mii_modify_run, mii_get_run, mii_pure_run, takeMac, phyUnlock,
      Niu.ready]
    rfl
  have htime' : (waitMgmt true 26 0 ((n.ready phy reg).command 1)).1 < unmNiuPhyWaitmax ↔
      n.view.InTime true := by
    have hleft : ((n.ready phy reg).command 1).left = n.latencies.headD ⟨0, 0⟩ := by
      rw [hr]
      rfl
    rw [htime, hleft]
    exact Nat.lt_succ_iff.trans Nat.succ_le_succ_iff
  rw [hrun, hwait, hr, restoreMac_run n.macConfig0 _ rfl]
  simp only [← hr, htime']
  exact ⟨rfl, rfl, rfl, rfl⟩

/-- A write of a PHY register under the lock. -/
theorem phyWriteLocked_run (n : Niu) (phy reg : BitVec 64) (val : BitVec 32) :
    (phyWriteLocked phy reg val n).1 = (if n.view.InTime false then 0 else -1) ∧
      (phyWriteLocked phy reg val n).2.view =
        { n.view with
          phys := n.setPhy (phy.setWidth 5) (reg.setWidth 5) (val.setWidth 16)
          latencies := n.latencies.tail } ∧
      (phyWriteLocked phy reg val n).2.macConfig0 = n.macConfig0 ∧
      (phyWriteLocked phy reg val n).2.locked = false := by
  have hready : (n.ready phy reg).softReset = false := macInUse_getLsbD n.macConfig0
  have hr := control_run (n.ready phy reg) phy reg val hready rfl
  obtain ⟨k, hwait, htime⟩ := waitMgmt_run false 26 0 rfl (by decide)
    ((n.ready phy reg).control val)
  have hrun : phyWriteLocked phy reg val n =
      (if (waitMgmt false 26 0 ((n.ready phy reg).control val)).1 < unmNiuPhyWaitmax then 0 else -1,
        ((restoreMac n.macConfig0
          (waitMgmt false 26 0 ((n.ready phy reg).control val)).2).2).unlock) := by
    rw [phyWriteLocked]
    simp only [mii_bind_run, mii_modify_run, mii_pure_run, takeMac, phyUnlock]
    rfl
  have htime' : (waitMgmt false 26 0 ((n.ready phy reg).control val)).1 < unmNiuPhyWaitmax ↔
      n.view.InTime false := by
    have hleft : ((n.ready phy reg).control val).left = n.latencies.headD ⟨0, 0⟩ := by
      rw [hr]
      rfl
    rw [htime, hleft]
    exact Nat.lt_succ_iff.trans Nat.succ_le_succ_iff
  rw [hrun, hwait, hr, restoreMac_run n.macConfig0 _ rfl]
  simp only [← hr, htime']
  exact ⟨trivial, rfl, rfl, rfl⟩

end Calls

/-! ## Runs of calls -/

/-- The calls of the four ports. -/
inductive MiiCall where
  | read (physicalPort : BitVec 16) (reg : BitVec 64)
  | write (physicalPort : BitVec 16) (reg : BitVec 64) (val : BitVec 32)
deriving DecidableEq

/-- What a call returns, and the value it stores if it does. -/
def MiiCall.exec : MiiCall → Mii (Int × Option (BitVec 32))
  | .read physicalPort reg => unmNiuGbePhyRead physicalPort reg
  | .write physicalPort reg val => do
    let ret ← unmNiuGbePhyWrite physicalPort reg val
    return (ret, none)

def miiExecAll : List MiiCall → Mii (List (Int × Option (BitVec 32)))
  | [] => return []
  | c :: l => do
    let r ← c.exec
    let rs ← miiExecAll l
    return r :: rs

def MiiCall.onPhys (m : Phys) : MiiCall → (Int × Option (BitVec 32)) × Phys
  | .read physicalPort reg => m.read physicalPort reg
  | .write physicalPort reg val =>
    let r := m.write physicalPort reg val
    ((r.1, none), r.2)

def allOnPhys (m : Phys) : List MiiCall → List (Int × Option (BitVec 32)) × Phys
  | [] => ([], m)
  | c :: l =>
    let r := c.onPhys m
    let rs := allOnPhys r.2 l
    (r.1 :: rs.1, rs.2)

theorem setWidth_port (physicalPort : BitVec 16) :
    (physicalPort.setWidth 64).setWidth 5 = physicalPort.setWidth 5 :=
  BitVec.setWidth_setWidth_of_le physicalPort (by decide)

/-- The port, under the lock. -/
def Niu.withLock (n : Niu) : Niu := { n with lockReads := n.lockReads.tail, locked := true }

theorem phyLock_granted {n : Niu} (h : n.view.Granted) : phyLock n = (0, n.withLock) := by
  rw [phyLock_run, if_pos h, if_pos h]
  rfl

theorem phyLock_late {n : Niu} (h : ¬ n.view.Granted) :
    phyLock n = (-1, { n with lockReads := n.lockReads.tail }) := by
  rw [phyLock_run, if_neg h, if_neg h]

/-- **A read of a PHY register.** -/
theorem unmNiuGbePhyRead_run (n : Niu) (physicalPort : BitVec 16) (reg : BitVec 64) :
    (unmNiuGbePhyRead physicalPort reg n).1 = (n.view.read physicalPort reg).1 ∧
      (unmNiuGbePhyRead physicalPort reg n).2.view = (n.view.read physicalPort reg).2 ∧
      n.LeavesAlone (unmNiuGbePhyRead physicalPort reg n).2 := by
  rw [unmNiuGbePhyRead, mii_bind_run, Phys.read]
  by_cases hgranted : n.view.Granted
  · obtain ⟨hret, hview, hmac, hlocked⟩ :=
      phyReadLocked_run n.withLock (physicalPort.setWidth 64) reg
    rw [setWidth_port] at hret
    rw [phyLock_granted hgranted, if_pos rfl, if_pos hgranted, hret, hview]
    refine ⟨?_, ?_, hmac, fun _ => hlocked⟩
    · by_cases htime : n.view.InTime true
      · rw [if_pos htime]
        exact if_pos htime
      · rw [if_neg htime]
        exact if_neg htime
    · split <;> rfl
  · rw [phyLock_late hgranted, if_neg (show ¬ (-1 : Int) = 0 by decide), if_neg hgranted]
    exact ⟨rfl, rfl, rfl, fun h => h⟩

/-- **A write of a PHY register.** -/
theorem unmNiuGbePhyWrite_run (n : Niu) (physicalPort : BitVec 16) (reg : BitVec 64)
    (val : BitVec 32) :
    (unmNiuGbePhyWrite physicalPort reg val n).1 = (n.view.write physicalPort reg val).1 ∧
      (unmNiuGbePhyWrite physicalPort reg val n).2.view = (n.view.write physicalPort reg val).2 ∧
      n.LeavesAlone (unmNiuGbePhyWrite physicalPort reg val n).2 := by
  rw [unmNiuGbePhyWrite, mii_bind_run, Phys.write]
  by_cases hgranted : n.view.Granted
  · obtain ⟨hret, hview, hmac, hlocked⟩ :=
      phyWriteLocked_run n.withLock (physicalPort.setWidth 64) reg val
    rw [setWidth_port] at hview
    rw [phyLock_granted hgranted, if_pos rfl, if_pos hgranted, hret, hview]
    exact ⟨rfl, rfl, hmac, fun _ => hlocked⟩
  · rw [phyLock_late hgranted, if_neg (show ¬ (-1 : Int) = 0 by decide), if_neg hgranted]
    exact ⟨rfl, rfl, rfl, fun h => h⟩

theorem MiiCall.exec_run (n : Niu) (c : MiiCall) :
    (c.exec n).1 = (c.onPhys n.view).1 ∧ (c.exec n).2.view = (c.onPhys n.view).2 ∧
      n.LeavesAlone (c.exec n).2 := by
  cases c with
  | read physicalPort reg => exact unmNiuGbePhyRead_run n physicalPort reg
  | write physicalPort reg val =>
    obtain ⟨hret, hview, hleaves⟩ := unmNiuGbePhyWrite_run n physicalPort reg val
    rw [MiiCall.exec, mii_bind_run, mii_pure_run, hret]
    exact ⟨rfl, hview, hleaves⟩

/-- **The block is a memory of PHY registers.**  However long the semaphore and the
accesses take, a run of calls of the four ports returns what the calls return on the
registers themselves: a value that is read is the low 16 bits of what was last
written there, and a call fails just if the semaphore or the access is too late.
The MAC of port 0 is as it was, in reset or not, and the semaphore is free. -/
theorem miiExecAll_eq_allOnPhys (n : Niu) (calls : List MiiCall) :
    (miiExecAll calls n).1 = (allOnPhys n.view calls).1 ∧
      (miiExecAll calls n).2.view = (allOnPhys n.view calls).2 ∧
      n.LeavesAlone (miiExecAll calls n).2 := by
  induction calls generalizing n with
  | nil => exact ⟨rfl, rfl, rfl, fun h => h⟩
  | cons c l ih =>
    obtain ⟨hret, hview, hleaves⟩ := c.exec_run n
    obtain ⟨hrets, hviews, hleaves'⟩ := ih (c.exec n).2
    rw [hview] at hrets hviews
    rw [miiExecAll, mii_bind_run, mii_bind_run, mii_pure_run, hret, hrets]
    exact ⟨rfl, hviews, hleaves.trans hleaves'⟩

end Phy
end NxNic

import NxNic.Lib.Locked
import NxNic.Lib.Machine

/-! # Firmware recovery

The functions that share the register `UNM_FW_RESET` (`unm_nic_main.c`): the
requests of the tx-timeout task of each PCI function, the firmware watchdog task
of function 0, and the callbacks for PCI errors.  Each access to the register and
to the hardware semaphore that `api_lock` takes is one step, and the tasks
interleave in any order.

What the watchdog and the callbacks do to the device between these accesses is
left out, but for the states they are in while they do it.
-/
namespace NxNic
namespace Fw

/-! ## The register and the functions that rewrite it -/

/-- The values of `UNM_FW_RESET`. -/
inductive DevState where
  | ready
  | txTimeout
  | reset
  | aer
  | failed
deriving DecidableEq

/-- `NX_NIC_DEV_READY` and so on. -/
def DevState.val : DevState → Nat
  | .ready => 0
  | .txTimeout => 1
  | .reset => 2
  | .aer => 3
  | .failed => 4

/-- What a function does with the value it has read: the value it stores, if any,
and whether it returns 0. -/
structure Answer where
  store : Option DevState
  ok : Bool

def nxDevRequestTxTimeout (devState : DevState) : Answer :=
  if devState ≠ .ready then ⟨none, false⟩ else ⟨some .txTimeout, true⟩

def nxDevRequestReset (devState : DevState) : Answer :=
  if devState = .reset then ⟨none, true⟩
  else if devState ≠ .ready then ⟨none, false⟩
  else ⟨some .reset, true⟩

def nxDevRequestAer (pciFunc : Nat) (devState : DevState) : Answer :=
  if devState = .aer then ⟨none, true⟩
  else if pciFunc ≠ 0 ∨ devState ≠ .ready then ⟨none, false⟩
  else ⟨some .aer, true⟩

def nxClearAerState (devState : DevState) : Answer :=
  if devState = .aer then ⟨some .ready, true⟩ else ⟨none, true⟩

/-! What each of them stores. -/

theorem nxDevRequestTxTimeout_store {v u : DevState} :
    (nxDevRequestTxTimeout v).store = some u ↔ v = .ready ∧ .txTimeout = u := by
  cases v <;> simp [nxDevRequestTxTimeout]

theorem nxDevRequestReset_store {v u : DevState} :
    (nxDevRequestReset v).store = some u ↔ v = .ready ∧ .reset = u := by
  cases v <;> simp [nxDevRequestReset]

theorem nxDevRequestAer_store {g : Nat} {v u : DevState} :
    (nxDevRequestAer g v).store = some u ↔ v = .ready ∧ g = 0 ∧ .aer = u := by
  cases v <;> by_cases hg : g = 0 <;> simp [nxDevRequestAer, hg]

/-- A function that does not claim the device itself joins those that have. -/
theorem nxDevRequestAer_joins {g : Nat} {v : DevState} (hnone : (nxDevRequestAer g v).store = none)
    (hok : (nxDevRequestAer g v).ok = true) : v = .aer := by
  by_contra haer
  rw [nxDevRequestAer, if_neg haer] at hnone hok
  by_cases hno : g ≠ 0 ∨ v ≠ .ready
  · rw [if_pos hno] at hok
    cases hok
  · rw [if_neg hno] at hnone
    cases hnone

theorem nxClearAerState_store {v u : DevState} :
    (nxClearAerState v).store = some u ↔ v = .aer ∧ .ready = u := by
  cases v <;> simp [nxClearAerState]

/-! ## Where the tasks are -/

/-- The tasks: the tx-timeout task of a function, the watchdog task, and the
error callback of a function. -/
inductive Party where
  | tx (f : Nat)
  | watchdog
  | aer (f : Nat)
deriving DecidableEq

/-- Inside a function that takes the lock: before it, with it, after the read,
and before the unlock, with the value read. -/
inductive SectionPc where
  | entering
  | locked
  | seen (v : DevState)
  | leaving (v : DevState)
deriving DecidableEq

/-- Inside `nx_set_dev_ready`, which does not read. -/
inductive ReadyPc where
  | entering
  | locked
  | leaving
deriving DecidableEq

/-- Where a task is. -/
inductive Pc where
  /-- A task that is not running. -/
  | idle
  /-- `nx_dev_request_tx_timeout`. -/
  | txTimeout (pc : SectionPc)
  /-- The first and the second look at the register in
  `unm_watchdog_task_fw_reset`, and what comes after each. -/
  | firstRead (pc : SectionPc)
  | checks
  | secondRead (pc : SectionPc)
  | timedOut
  | alive
  /-- `nx_dev_request_reset`, and after it has returned 0. -/
  | requestReset (pc : SectionPc)
  | requested
  /-- The ports are detached, the firmware is restarted and the ports are
  attached again, on the watchdog's own request or a tx timeout. -/
  | recover (own : Bool)
  | setReady (own : Bool) (pc : ReadyPc)
  /-- Before `nx_set_dev_failed`. -/
  | failing
  /-- A callback that has not been called in this phase. -/
  | todo
  /-- `nx_dev_request_aer`, of function `f`. -/
  | requestAer (f : Nat) (pc : SectionPc)
  /-- `nx_nic_detach_func`. -/
  | detaching
  /-- `nx_nic_attach_func`. -/
  | attaching
  /-- `nx_clear_aer_state`. -/
  | clearAer (pc : SectionPc)
  | done
deriving DecidableEq

/-- The phases of error recovery in the PCI core. -/
inductive Phase where
  | quiet
  | errorDetected
  | slotReset
  | resume
deriving DecidableEq

/-- The register, the semaphore and the tasks; the phase; and whether a recovery
by the watchdog or by the error callbacks is under way: from the request in the
register until it is set to ready again. -/
structure FwState extends Locked Party Pc DevState where
  phase : Phase
  fwAliveFailures : Nat
  wdOpen : Bool
  aerOpen : Bool

/-- What a step finds outside the model: the outcome of `unm_nic_check_temp`,
`auto_fw_reset`, whether the firmware is older than 4.0.222, whether its counter
has moved, the outcome of `check_fw_reset_failure`, whether the error is fatal,
and whether the PCI channel has failed for good. -/
structure Env where
  overheated : Bool
  autoFwReset : Bool
  oldFirmware : Bool
  counterMoved : Bool
  resetFailure : Bool
  fatal : Bool
  permFailure : Bool
deriving DecidableEq

namespace FwState
variable (st : FwState)

/-- The task goes on at `pc`. -/
def goto (me : Party) (pc : Pc) : FwState := { st with pc := Function.update st.pc me pc }

/-- A task stores to the register.  A request opens a recovery; the end of one
closes it. -/
def put (me : Party) (w : DevState) : FwState :=
  { st with
    reg := w
    wdOpen := match w, me with
      | .txTimeout, _ => true
      | .reset, _ => true
      | .ready, .watchdog => false
      | _, _ => st.wdOpen
    aerOpen := match w, me with
      | .aer, _ => true
      | .ready, .aer _ => false
      | _, _ => st.aerOpen }

/-- A step of a function that takes the lock, reads the register, stores to it
or not, and unlocks.  `api_lock` succeeds once the semaphore is free. -/
def inSection (me : Party) (mk : SectionPc → Pc) (f : DevState → Answer) (ret : DevState → Pc) :
    SectionPc → Option FwState
  | .entering =>
      if st.sem = none then some { st.goto me (mk .locked) with sem := some me } else none
  | .locked => some (st.goto me (mk (.seen st.reg)))
  | .seen v =>
      match (f v).store with
      | none => some (st.goto me (mk (.leaving v)))
      | some w => some ((st.put me w).goto me (mk (.leaving v)))
  | .leaving v => some { st.goto me (ret v) with sem := none }

/-- A section that only reads. -/
def readOnly (_ : DevState) : Answer := ⟨none, true⟩

/-- A step of `nx_set_dev_ready`. -/
def inSetReady (me : Party) (mk : ReadyPc → Pc) : ReadyPc → Option FwState
  | .entering =>
      if st.sem = none then some { st.goto me (mk .locked) with sem := some me } else none
  | .locked => some ((st.put me .ready).goto me (mk .leaving))
  | .leaving => some { st.goto me .idle with sem := none }

/-- A step of the tx-timeout task of function `f`; it ignores the outcome of its
request. -/
def txStep (f : Nat) : Option FwState :=
  match st.pc (.tx f) with
  | .idle => some (st.goto (.tx f) (.txTimeout .entering))
  | .txTimeout pc => st.inSection (.tx f) .txTimeout nxDevRequestTxTimeout (fun _ => .idle) pc
  | _ => none

/-- A step of `unm_watchdog_task_fw_reset`. -/
def watchdogStep (env : Env) : Option FwState :=
  match st.pc .watchdog with
  | .idle => some (st.goto .watchdog (.firstRead .entering))
  | .firstRead pc =>
      st.inSection .watchdog .firstRead readOnly
        (fun v => if DevState.txTimeout.val < v.val then .idle else .checks) pc
  | .checks =>
      some (st.goto .watchdog
        (if env.overheated || !env.autoFwReset then .idle else .secondRead .entering))
  | .secondRead pc =>
      st.inSection .watchdog .secondRead readOnly
        (fun v => if v = .txTimeout then .timedOut else .alive) pc
  | .timedOut => some (st.goto .watchdog (if env.resetFailure then .idle else .recover false))
  | .alive =>
      if env.oldFirmware then some (st.goto .watchdog .idle)
      else if env.counterMoved then some { st.goto .watchdog .idle with fwAliveFailures := 0 }
      else if st.fwAliveFailures &&& 7 = 0 ∧ st.fwAliveFailures ≠ 0 then
        some (st.goto .watchdog (.requestReset .entering))
      else some { st.goto .watchdog .idle with fwAliveFailures := st.fwAliveFailures + 1 }
  | .requestReset pc =>
      st.inSection .watchdog .requestReset nxDevRequestReset
        (fun v => if (nxDevRequestReset v).ok then .requested else .idle) pc
  | .requested =>
      some (st.goto .watchdog (if env.resetFailure || env.fatal then .failing else .recover true))
  | .recover own => some (st.goto .watchdog (.setReady own .entering))
  | .setReady own pc =>
      (st.inSetReady .watchdog (.setReady own) pc).map fun st' =>
        { st' with fwAliveFailures :=
            st'.fwAliveFailures + if own = true ∧ pc = .leaving then 1 else 0 }
  | .failing => some ((st.put .watchdog .failed).goto .watchdog .idle)
  | _ => none

/-- A step of the error callback of function `f`: `nx_nic_io_error_detected`,
`nx_nic_io_slot_reset` or `nx_nic_io_resume`, by the phase. -/
def aerStep (f : Nat) (env : Env) : Option FwState :=
  match st.pc (.aer f) with
  | .todo =>
      match st.phase with
      | .quiet => none
      | .errorDetected =>
          some (st.goto (.aer f) (if env.permFailure then .done else .requestAer f .entering))
      | .slotReset => some (st.goto (.aer f) .attaching)
      | .resume => some (st.goto (.aer f) (.clearAer .entering))
  | .requestAer g pc =>
      st.inSection (.aer f) (.requestAer g) (nxDevRequestAer g)
        (fun v => if (nxDevRequestAer g v).ok then .detaching else .done) pc
  | .detaching => some (st.goto (.aer f) .done)
  | .attaching => some (st.goto (.aer f) .done)
  | .clearAer pc => st.inSection (.aer f) .clearAer nxClearAerState (fun _ => .done) pc
  | _ => none

/-- Each callback is to be called again. -/
def nextPhase (phase : Phase) : FwState :=
  { st with
    phase := phase
    pc := fun p => match p with
      | .aer _ => .todo
      | .tx f => st.pc (.tx f)
      | .watchdog => st.pc .watchdog }

end FwState

/-- The order of the phases.  The device is resumed without a reset if no driver
asked for one, and not at all if recovery fails. -/
def Phase.follows : Phase → Phase → Bool
  | .quiet, .errorDetected => true
  | .errorDetected, .slotReset => true
  | .errorDetected, .resume => true
  | .errorDetected, .quiet => true
  | .slotReset, .resume => true
  | .slotReset, .quiet => true
  | .resume, .quiet => true
  | _, _ => false

/-- What happens next: a task takes a step, or the PCI core goes on to another
phase. -/
inductive FwAction where
  | step (p : Party) (env : Env)
  | phase (next : Phase)
deriving DecidableEq

/-- The machine, for a device with `n` functions.  A phase is over when the
callbacks of all functions have returned. -/
def fwMachine (n : Nat) : Machine FwState FwAction where
  next st
    | .step (.tx f) _ => if f < n then st.txStep f else none
    | .step .watchdog env => st.watchdogStep env
    | .step (.aer f) env => if f < n then st.aerStep f env else none
    | .phase next =>
        if st.phase.follows next = true ∧ (st.phase = .quiet ∨ ∀ f < n, st.pc (.aer f) = .done) then
          some (st.nextPhase next)
        else none

/-- The driver has set the device ready, and nothing is running. -/
def initialFw : FwState where
  pc
    | .aer _ => .todo
    | .tx _ => .idle
    | .watchdog => .idle
  sem := none
  reg := .ready
  phase := .quiet
  fwAliveFailures := 0
  wdOpen := false
  aerOpen := false

def ReachableFw (n : Nat) (st : FwState) : Prop := ∃ l, (fwMachine n).run initialFw l = some st

end Fw
end NxNic

import Mathlib.Data.List.FinRange
import Mathlib.Logic.Function.Basic
import NxNic.Lib.Machine

/-! # The default contexts

The HAL keeps a pointer to the receive context and to the transmit context that it uses by
default.  Making a context in the firmware sets them when they are `NULL`, destroying it there
clears them, and freeing it does neither.  `unm_nic_attach` and `unm_nic_detach` make, destroy
and free, each on several ways out; with the firmware 3.4 nothing is destroyed.

Which of the free entries a new context gets depends on `rx_ctxs_state` and is left open here.

The state is `HostNic`, with the address and the state of each context in the table, the default
pointers and whether the adapter is up.  A step (`halMachine`) is a whole operation, and its plan
says which of the calls on the way fail; an operation whose destroy loop never ends leaves no state.
-/
namespace NxNic
namespace Ctx

/-- `nx_host_rx_ctx_t` and `nx_host_tx_ctx_t`: where the context is, and its `state`. -/
structure HostCtx where
  addr : Nat
  state : BitVec 32
deriving DecidableEq

def nxHostCtxStateAllocated : BitVec 32 := 1
def nxHostCtxStateActive : BitVec 32 := 2
def nxHostCtxStateMax : BitVec 32 := 5

/-- `adapter->is_up`. -/
inductive IsUp where
  | down
  | adapterUpMagic
  | fwDead
deriving DecidableEq

/-- The id of the default context. -/
def firstId (k : Nat) : Fin (k + 1) := ⟨0, Nat.zero_lt_succ k⟩

/-- `nx_host_nic_t` with `k + 1` entries in `rx_ctxs` and one in `tx_ctxs`. -/
structure HostNic (k : Nat) where
  rxCtxs : Fin (k + 1) → Option HostCtx
  txCtx : Option HostCtx
  defaultRxCtx : Option Nat
  defaultTxCtx : Option Nat
  isUp : IsUp

/-- What happens once the memory of a receive context is there: its rings cannot be had, or the
memory for the firmware's command cannot, or the command fails or returns a state; `tx` is the
address for a transmit context of the firmware 3.4. -/
inductive RxOutcome where
  | ringsFail
  | noDma
  | command (tx : Option Nat) (state : Option (BitVec 32))

/-- `nx_nic_create_rx_ctx`: no context can be had, or one in entry `i` at `addr`. -/
inductive RxPlan (k : Nat) where
  | noCtx
  | ctx (i : Fin (k + 1)) (addr : Nat) (outcome : RxOutcome)

/-- `unm_nic_new_tx_context_prepare`: the same for a transmit context. -/
inductive TxPlan where
  | noMem
  | noDma (addr : Nat)
  | command (addr : Nat) (state : Option (BitVec 32))

/-- What happens in `unm_nic_attach`, from its first steps (up to the command buffers) on: the
blocks of memory, the contexts and what comes between them, the buffers and the interrupt. -/
structure AttachPlan (k : Nat) where
  earlyFails : Bool
  blocksFail : Bool
  rx : RxPlan k
  pexqFails : Bool
  tx : TxPlan
  bufsFail : Bool
  irqFails : Bool

namespace HostNic
variable {k : Nat} (d : HostNic k)

/-! ## Receive contexts -/

/-- `nx_dev->active_rx_ctxs`: the number of contexts in the table. -/
def activeRxCtxs : Nat := (List.finRange (k + 1)).countP fun i => (d.rxCtxs i).isSome

/-- The address of the context in an entry. -/
def rxAddr (i : Fin (k + 1)) : Option Nat := (d.rxCtxs i).map HostCtx.addr

/-- The address is that of no receive context. -/
def Fresh (addr : Nat) : Prop := ∀ i, d.rxAddr i ≠ some addr

instance (addr : Nat) : Decidable (d.Fresh addr) :=
  inferInstanceAs (Decidable (∀ i, d.rxAddr i ≠ some addr))

/-- `nx_fw_cmd_create_rx_ctx_alloc`, with the entry found. -/
def rxAlloc (i : Fin (k + 1)) (addr : Nat) : HostNic k :=
  { d with rxCtxs := Function.update d.rxCtxs i (some ⟨addr, nxHostCtxStateAllocated⟩) }

/-- `nx_fw_cmd_create_rx_ctx_free`. -/
def rxFree (i : Fin (k + 1)) : HostNic k := { d with rxCtxs := Function.update d.rxCtxs i none }

/-- A context is in the firmware: its new state, and the default pointer. -/
def rxMade (i : Fin (k + 1)) (addr : Nat) (state : BitVec 32) : HostNic k :=
  { d with
    rxCtxs := Function.update d.rxCtxs i (some ⟨addr, state⟩)
    defaultRxCtx := some (d.defaultRxCtx.getD addr) }

/-- `nx_fw_cmd_destroy_rx_ctx`. -/
def nxFwCmdDestroyRxCtx (c : HostCtx) : HostNic k :=
  if nxHostCtxStateMax < c.state then d
  else if d.defaultRxCtx = some c.addr then { d with defaultRxCtx := none }
  else d

/-- The loop of `unm_nic_new_rx_context_destroy` over entries; at one that is `NULL` it stays
forever (`none`). -/
def destroyRxLoop : List (Fin (k + 1)) → HostNic k → Option (HostNic k)
  | [], d => some d
  | i :: rest, d =>
    match d.rxCtxs i with
    | none => none
    | some c => destroyRxLoop rest (d.nxFwCmdDestroyRxCtx c)

/-- `unm_nic_new_rx_context_destroy`. -/
def unmNicNewRxContextDestroy : Option (HostNic k) :=
  destroyRxLoop ((List.finRange (k + 1)).take d.activeRxCtxs) d

/-! ## Transmit contexts -/

/-- A transmit context is in the firmware. -/
def txMade (addr : Nat) (state : BitVec 32) : HostNic k :=
  { d with
    txCtx := some ⟨addr, state⟩
    defaultTxCtx := some (d.defaultTxCtx.getD addr) }

/-- `nx_fw_cmd_destroy_tx_ctx`. -/
def nxFwCmdDestroyTxCtx (c : HostCtx) : HostNic k :=
  if nxHostCtxStateMax < c.state then d
  else if d.defaultTxCtx = some c.addr then { d with defaultTxCtx := none }
  else d

/-- `nx_fw_cmd_create_tx_ctx_free`. -/
def txFree : HostNic k := { d with txCtx := none }

/-- `unm_nic_new_tx_context_destroy`. -/
def unmNicNewTxContextDestroy : HostNic k :=
  match d.txCtx with
  | none => d
  | some c => (d.nxFwCmdDestroyTxCtx c).txFree

/-- `unm_nic_new_tx_context_prepare`, and whether it succeeds. -/
def unmNicNewTxContextPrepare (plan : TxPlan) : Bool × HostNic k :=
  if d.txCtx.isSome then (false, d)
  else
    match plan with
    | .noMem => (false, d)
    | .noDma addr => (true, { d with txCtx := some ⟨addr, nxHostCtxStateAllocated⟩ })
    | .command _ none => (false, d)
    | .command addr (some state) => (true, d.txMade addr state)

/-! ## Making a receive context -/

/-- `unm_nic_v34_context_prepare`: a transmit context is allocated when there is none. -/
def unmNicV34ContextPrepare (tx : Option Nat) : HostNic k :=
  match d.txCtx, tx with
  | none, some addr => { d with txCtx := some ⟨addr, nxHostCtxStateAllocated⟩ }
  | _, _ => d

/-- `nx_fw_cmd_v34_create_ctx`, on the contexts in the first entries whichever is new, with
`taken` as the result of the command; `none` where it follows a pointer that is `NULL`. -/
def nxFwCmdV34CreateCtx (taken : Bool) : Option (Bool × HostNic k) :=
  match d.rxCtxs (firstId k) with
  | none => some (false, d)
  | some rx =>
    if rx.state ≠ nxHostCtxStateAllocated then some (false, d)
    else
      match d.txCtx with
      | none => none
      | some tx =>
        if taken then
          some (true, (d.rxMade (firstId k) rx.addr nxHostCtxStateActive).txMade tx.addr
            nxHostCtxStateActive)
        else some (false, d)

/-- `unm_nic_new_rx_context_prepare`. -/
def unmNicNewRxContextPrepare (fwV34 : Bool) (i : Fin (k + 1)) (addr : Nat) (tx : Option Nat)
    (state : Option (BitVec 32)) : Option (Bool × HostNic k) :=
  if fwV34 then (d.unmNicV34ContextPrepare tx).nxFwCmdV34CreateCtx state.isSome
  else
    match state with
    | none => some (false, d)
    | some s => some (true, d.rxMade i addr s)

/-- `nx_nic_create_rx_ctx`, with the entry of the new context, or no entry for -1; `none` where the
plan is none for this state, or a pointer that is `NULL` is followed. -/
def nxNicCreateRxCtx (fwV34 : Bool) (plan : RxPlan k) :
    Option (Option (Fin (k + 1)) × HostNic k) :=
  match plan with
  | .noCtx => some (none, d)
  | .ctx i addr outcome =>
    if (d.rxCtxs i).isSome ∨ ¬d.Fresh addr then none
    else
      let d := d.rxAlloc i addr
      match outcome with
      | .ringsFail => some (none, d.rxFree i)
      | .noDma => some (some i, d)
      | .command tx state =>
        match d.unmNicNewRxContextPrepare fwV34 i addr tx state with
        | none => none
        | some (true, d) => some (some i, d)
        | some (false, d) => some (none, d.rxFree i)

/-! ## Attach and detach -/

/-- `unm_nic_free_ring_context`, of the contexts. -/
def unmNicFreeRingContext : HostNic k := { d with rxCtxs := fun _ => none }

/-- `unm_nic_free_ring_context_in_fw`. -/
def unmNicFreeRingContextInFw (fwV34 : Bool) : Option (HostNic k) :=
  if fwV34 then some d.txFree
  else d.unmNicNewRxContextDestroy.map unmNicNewTxContextDestroy

/-- `unm_nic_attach` after `unm_nic_hw_resources`; `none` where it follows `rx_ctxs[0]`, which is
`NULL`. -/
def attachRest (fwV34 bufsFail irqFails : Bool) : Option (HostNic k) :=
  if bufsFail then (d.unmNicFreeRingContextInFw fwV34).map unmNicFreeRingContext
  else if (d.rxCtxs (firstId k)).isNone then none
  else if irqFails then (d.unmNicFreeRingContextInFw fwV34).map unmNicFreeRingContext
  else some { d with isUp := .adapterUpMagic }

/-- `unm_nic_hw_resources` after a receive context has been made in entry `i`, and what follows it;
the 3.4 firmware's id is taken for an error unless it is 0. -/
def attachMade (fwV34 : Bool) (plan : AttachPlan k) (i : Fin (k + 1)) : Option (HostNic k) :=
  if fwV34 then
    if i.val ≠ 0 then some d.unmNicFreeRingContext
    else d.attachRest fwV34 plan.bufsFail plan.irqFails
  else if plan.pexqFails then some d.unmNicFreeRingContext
  else
    match d.unmNicNewTxContextPrepare plan.tx with
    | (false, d) => d.unmNicNewRxContextDestroy.map unmNicFreeRingContext
    | (true, d) => d.attachRest fwV34 plan.bufsFail plan.irqFails

/-- `unm_nic_attach`. -/
def unmNicAttach (fwV34 : Bool) (plan : AttachPlan k) : Option (HostNic k) :=
  if d.isUp = .adapterUpMagic ∨ plan.earlyFails then some d
  else if plan.blocksFail then some d.unmNicFreeRingContext
  else
    match d.nxNicCreateRxCtx fwV34 plan.rx with
    | none => none
    | some (none, d) => some d.unmNicFreeRingContext
    | some (some i, d) => d.attachMade fwV34 plan i

/-- `unm_nic_detach`. -/
def unmNicDetach (fwV34 : Bool) : Option (HostNic k) :=
  (if d.isUp = .down then some d else d.unmNicFreeRingContextInFw fwV34).map fun d =>
    { d.unmNicFreeRingContext with isUp := .down }

/-- `nx_nic_multictx_free_rx_ctx`, with an id in the table. -/
def nxNicMultictxFreeRxCtx (i : Fin (k + 1)) : HostNic k :=
  match d.rxCtxs i with
  | none => d
  | some c => (d.nxFwCmdDestroyRxCtx c).rxFree i

end HostNic

/-- The operations, a reset of the firmware being a detach and an attach and allocations after it;
`die` is what `netxen_nic_detach_all_ports` does when the firmware is gone for good. -/
inductive HalAction (k : Nat) where
  | attach (plan : AttachPlan k)
  | detach
  | die
  | alloc (plan : RxPlan k)
  | free (i : Fin (k + 1))

/-- The HAL for one kind of firmware. -/
def halMachine (k : Nat) (fwV34 : Bool) : Machine (HostNic k) (HalAction k) where
  next d
    | .attach plan => d.unmNicAttach fwV34 plan
    | .detach => d.unmNicDetach fwV34
    | .die => some { d with isUp := .fwDead }
    | .alloc plan => (d.nxNicCreateRxCtx fwV34 plan).map Prod.snd
    | .free i => some (d.nxNicMultictxFreeRxCtx i)

/-- After `nx_os_dev_alloc`. -/
def HostNic.initial (k : Nat) : HostNic k := ⟨fun _ => none, none, none, none, .down⟩

end Ctx
end NxNic

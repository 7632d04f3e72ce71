import Mathlib.Data.Fintype.Card
import NxNic.Lib.Bits

/-! # The registry of receive contexts

The contexts of an adapter are in the table `rx_ctxs`; their number is in `active_rx_ctxs`, and
`rx_ctxs_state` has a bit for each that `nx_nic_multictx_alloc_rx_ctx` has handed out.  After
a reset of the firmware `nx_reset_netq_rx_queues` creates them anew, from the bits and
the rules kept in `saved_rules`.

Before that the detach destroys the contexts in the firmware, in a loop that never gets past an
entry without a context.
-/
namespace NxNic
namespace Ctx

/-- `nx_rx_rule_t`. -/
structure RxRule where
  id : Nat
  active : Bool
  mac : BitVec 48
deriving DecidableEq

/-- `nx_host_rx_ctx_t`, in an adapter with `k` queues beside the default one; `num_rules` is the
number of `rules`. -/
structure RxCtx (k : Nat) where
  thisId : Fin (k + 1)
  activeRxRules : Nat
  rules : List RxRule
deriving DecidableEq

/-- `nx_host_nic_t`; `alloc_rx_ctxs` is `k + 1`. -/
structure NxDev (k : Nat) where
  rxCtxs : Fin (k + 1) → Option (RxCtx k)
  savedRules : Fin (k + 1) → RxRule
  rxCtxsState : BitVec 32
  activeRxCtxs : Nat

/-- The steps of `nx_nic_create_rx_ctx` that can fail. -/
inductive CreateStep where
  | contextMem
  | hostRxResources
  | hwRxResources
  | stsRings
  | contextPrepare
deriving DecidableEq

/-- What happens in a call of `nx_nic_multictx_alloc_rx_ctx`: the step of the creation that
fails, if any, whether `nx_register_irq` fails, and whether the firmware takes a rule that is
set afterwards. -/
structure AllocOutcome where
  failed : Option CreateStep
  irqFails : Bool
  macTaken : Bool
deriving DecidableEq

namespace NxDev
variable {k : Nat} (d : NxDev k)

/-- `find_open_rx_id`. -/
def findOpenRxId : Option (Fin (k + 1)) :=
  Fin.find? fun i => (d.rxCtxs i).isNone && !d.rxCtxsState.getLsbD i

/-- The context that `nx_fw_cmd_create_rx_ctx_alloc` makes, with one rule. -/
def blank (i : Fin (k + 1)) : RxCtx k := ⟨i, 0, [⟨0, false, 0⟩]⟩

/-- `nx_fw_cmd_create_rx_ctx_alloc`, with the index found. -/
def nxFwCmdCreateRxCtxAlloc (i : Fin (k + 1)) : NxDev k :=
  { d with
    rxCtxs := Function.update d.rxCtxs i (some (blank i))
    activeRxCtxs := d.activeRxCtxs + 1 }

/-- `nx_fw_cmd_create_rx_ctx_free`. -/
def nxFwCmdCreateRxCtxFree (c : RxCtx k) : NxDev k :=
  if d.rxCtxs c.thisId ≠ some c ∨ d.activeRxCtxs < 1 then d
  else
    { d with
      rxCtxs := Function.update d.rxCtxs c.thisId none
      activeRxCtxs := d.activeRxCtxs - 1 }

/-- `nx_nic_create_rx_ctx`; `none` where it returns -1. -/
def nxNicCreateRxCtx (failed : Option CreateStep) : Option (Fin (k + 1)) × NxDev k :=
  match d.findOpenRxId, failed with
  | none, _ => (none, d)
  | some _, some .contextMem => (none, d)
  | some i, some _ => (none, (d.nxFwCmdCreateRxCtxAlloc i).nxFwCmdCreateRxCtxFree (blank i))
  | some i, none => (some i, d.nxFwCmdCreateRxCtxAlloc i)

/-- `nx_nic_multictx_alloc_rx_ctx`. -/
def nxNicMultictxAllocRxCtx (o : AllocOutcome) : Option (Fin (k + 1)) × NxDev k :=
  match d.nxNicCreateRxCtx o.failed with
  | (none, d) => (none, d)
  | (some i, d) =>
    if o.irqFails then (none, d)
    else (some i, { d with rxCtxsState := d.rxCtxsState ||| Bits.bit 32 i })

/-- What is at `rx_ctxs[id]`, where `beyond` says whether a word before or after the table is
other than `NULL`. -/
inductive Entry (k : Nat) where
  | ctx (i : Fin (k + 1)) (c : RxCtx k)
  | null
  | foreign

def entry (id : Int) (beyond : Bool) : Entry k :=
  if h : 0 ≤ id ∧ id.toNat < k + 1 then
    match d.rxCtxs ⟨id.toNat, h.2⟩ with
    | some c => .ctx ⟨id.toNat, h.2⟩ c
    | none => .null
  else if beyond then .foreign
  else .null

/-- What a call with an `id` of its caller comes to. -/
inductive Result (k : Nat) where
  /-- It returns -1 or, with `ok`, what it has to return. -/
  | returned (ok : Bool) (d : NxDev k)
  /-- It follows a pointer that is not one to a receive context. -/
  | astray

/-- `nx_nic_multictx_free_rx_ctx`. -/
def nxNicMultictxFreeRxCtx (id : Int) (beyond : Bool) : Result k :=
  if (k + 1 : Int) < id then .returned false d
  else
    match d.entry id beyond with
    | .foreign => .astray
    | .null => .returned false d
    | .ctx i c =>
      let d := d.nxFwCmdCreateRxCtxFree c
      .returned true { d with rxCtxsState := d.rxCtxsState &&& ~~~Bits.bit 32 i }

/-- The rule `j` of a context is given the MAC address and is active from now on. -/
def addRule (i : Fin (k + 1)) (c : RxCtx k) (j : Nat) (mac : BitVec 48) : NxDev k :=
  { d with
    rxCtxs := Function.update d.rxCtxs i (some { c with
      activeRxRules := c.activeRxRules + 1
      rules := c.rules.set j ⟨j, true, mac⟩ })
    savedRules := Function.update d.savedRules i ⟨j, true, mac⟩ }

/-- The rule `j` of a context is given its id. -/
def numberRule (i : Fin (k + 1)) (c : RxCtx k) (j : Nat) : NxDev k :=
  { d with
    rxCtxs := Function.update d.rxCtxs i (some { c with
      rules := c.rules.modify j fun r => { r with id := j } }) }

/-- `nx_nic_multictx_set_rx_rule`; `taken` says whether `nx_os_pf_add_l2_mac` succeeds. -/
def nxNicMultictxSetRxRule (id : Int) (beyond : Bool) (mac : BitVec 48) (taken : Bool) :
    Result k :=
  if (k + 1 : Int) < id then .returned false d
  else
    match d.entry id beyond with
    | .foreign => .astray
    | .null => .returned false d
    | .ctx i c =>
      if c.rules.length ≤ c.activeRxRules then .returned false d
      else
        match c.rules.findIdx? fun r => !r.active with
        | none => .returned false d
        | some j =>
          if taken then .returned true (d.addRule i c j mac)
          else .returned false (d.numberRule i c j)

/-- The rule `j` of a context is no longer active. -/
def dropRule (i : Fin (k + 1)) (c : RxCtx k) (j : Nat) : NxDev k :=
  { d with
    rxCtxs := Function.update d.rxCtxs i (some { c with
      activeRxRules := c.activeRxRules - 1
      rules := c.rules.modify j fun r => { r with active := false } }) }

/-- `nx_nic_multictx_remove_rx_rule`; `taken` says whether `nx_os_pf_remove_l2_mac` succeeds. -/
def nxNicMultictxRemoveRxRule (id : Int) (beyond : Bool) (ruleId : Nat) (taken : Bool) :
    Result k :=
  if (k + 1 : Int) < id then .returned false d
  else
    match d.entry id beyond with
    | .foreign => .astray
    | .null => .returned false d
    | .ctx i c =>
      match c.rules[ruleId]? with
      | none => .returned false d
      | some r =>
        if !r.active then .returned false d
        else if taken then .returned true (d.dropRule i c ruleId)
        else .returned false d

/-! ## A reset of the firmware -/

/-- A round of the loop of `unm_nic_free_ring_context`. -/
def freeEntry (i : Fin (k + 1)) : NxDev k :=
  match d.rxCtxs i with
  | some c => d.nxFwCmdCreateRxCtxFree c
  | none => d

/-- `unm_nic_free_ring_context`. -/
def unmNicFreeRingContext : NxDev k := (List.finRange (k + 1)).foldl freeEntry d

/-- The loop of `unm_nic_new_rx_context_destroy` over entries; at one that is `NULL` it stays
forever (`none`).  The table is not changed. -/
def destroyLoop : List (Fin (k + 1)) → Option (NxDev k)
  | [] => some d
  | i :: rest => if (d.rxCtxs i).isSome then destroyLoop rest else none

/-- `unm_nic_new_rx_context_destroy`. -/
def unmNicNewRxContextDestroy : Option (NxDev k) :=
  d.destroyLoop ((List.finRange (k + 1)).take d.activeRxCtxs)

/-- `unm_nic_detach`; `isUp` says whether `is_up` is other than 0. -/
def unmNicDetach (fwV34 isUp : Bool) : Option (NxDev k) :=
  (if isUp && !fwV34 then d.unmNicNewRxContextDestroy else some d).map unmNicFreeRingContext

/-- `unm_nic_attach` creates the default context and works with `rx_ctxs[0]`: the new `is_up`, or
`none` where that is not a context. -/
def attach : Option (Bool × NxDev k) :=
  match d.nxNicCreateRxCtx none with
  | (none, d) => some (false, d)
  | (some i, d) => if i.val = 0 then some (true, d) else none

/-- The rule of a context that has been created anew is set again; the result of
`nx_nic_multictx_set_rx_rule` is not looked at. -/
def replayRule (i : Fin (k + 1)) (taken : Bool) : NxDev k :=
  match d.nxNicMultictxSetRxRule i false (d.savedRules i).mac taken with
  | .returned _ d => d
  | .astray => d

/-- A round of the loop of `nx_reset_netq_rx_queues`. -/
def resetRound (o : AllocOutcome) : NxDev k :=
  match d.nxNicMultictxAllocRxCtx o with
  | (none, d) => d
  | (some i, d) => if 0 < i.val then d.replayRule i o.macTaken else d

end NxDev

/-- The loop of `nx_reset_netq_rx_queues`, with what happens in each of its rounds. -/
def resetLoop {k : Nat} : List AllocOutcome → BitVec 32 → NxDev k → Option (NxDev k)
  | [], numOfQueues, d => if numOfQueues = 0 then some d else none
  | o :: outs, numOfQueues, d =>
    if numOfQueues = 0 then none
    else resetLoop outs (numOfQueues &&& (numOfQueues - 1)) (d.resetRound o)

/-- `nx_reset_netq_rx_queues`. -/
def NxDev.nxResetNetqRxQueues {k : Nat} (d : NxDev k) (outs : List AllocOutcome) :
    Option (NxDev k) :=
  (resetLoop outs d.rxCtxsState { d with rxCtxsState := ~~~d.rxCtxsState }).map fun t =>
    { t with rxCtxsState := d.rxCtxsState }

end Ctx
end NxNic

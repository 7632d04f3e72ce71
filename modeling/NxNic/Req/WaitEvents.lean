import Mathlib.Logic.Function.Basic

/-! # Requests that wait for an answer

`nx_os_send_nic_request` (`nxhal.c`) for a request that needs a completion, and
the wait list of `unm_nic_main.c`.  A request carries a completion id, and the
firmware's answer carries it back; the answer is for the entry of the wait list
that has the id.

A waiter is an entry on the caller's stack, on a list of the adapter, and its id is a bit of the
bitmap; what is here is what the setup, the end of a wait and an answer do to the two.
-/
namespace NxNic
namespace Req

inductive RCode where
  | success
  | cmdFailed
  | timeout
deriving DecidableEq

/-! ## Completion ids -/

def nxMaxCompId : Nat := 256

/-- `(uint64_t)(1 << (i & 0x3F))`.  The shift is of an `int`, by a count that the
processor takes modulo 32, and the result is sign-extended. -/
def bitMap (i : Nat) : BitVec 64 := (1#32 <<< ((i &&& 0x3F) % 32)).signExtend 64

/-- `(i & 0xC0) >> 6`. -/
def mapIndex (i : Nat) : Fin 4 :=
  ⟨(i &&& 0xC0) >>> 6, by
    have : i &&& 0xC0 ≤ 0xC0 := Nat.and_le_right
    rw [Nat.shiftRight_eq_div_pow]
    omega⟩

/-! ## The wait list -/

/-- `nx_os_wait_event_t`, with what has been stored through `rsp_word`, which
`nx_os_send_nic_request` never leaves null. -/
structure WaitEvent where
  compId : BitVec 8
  active : Bool
  trigger : Bool
  rspWord : Option (BitVec 64)
deriving DecidableEq

/-- What the adapter keeps about the requests that wait.  The entry of a call lies
on its stack, and the list links the entries: both go by the number of the call. -/
structure Adapter where
  waitBitMap : Fin 4 → BitVec 64
  waitEvents : Nat → WaitEvent
  waitList : List Nat

namespace Adapter
variable (a : Adapter)

/-- An entry is written. -/
def setEvent (k : Nat) (wait : WaitEvent) : Adapter :=
  { a with waitEvents := Function.update a.waitEvents k wait }

/-- The test that `nx_os_event_wait_setup` makes of an id. -/
def compIdFree (i : Nat) : Bool := decide (bitMap i &&& a.waitBitMap (mapIndex i) = 0#64)

/-- The loop of `nx_os_event_wait_setup`. -/
def findCompId : Option Nat := (List.range nxMaxCompId).find? a.compIdFree

/-- `nx_os_event_wait_setup` by the call `k`; `none` where it fails. -/
def nxOsEventWaitSetup (k : Nat) : Option (BitVec 8 × Adapter) :=
  a.findCompId.map fun i =>
    (BitVec.ofNat 8 i,
      { waitBitMap := Function.update a.waitBitMap (mapIndex i)
          (a.waitBitMap (mapIndex i) ||| bitMap i)
        waitEvents := Function.update a.waitEvents k ⟨BitVec.ofNat 8 i, true, false, none⟩
        waitList := k :: a.waitList })

/-- The end of `nx_os_event_wait`. -/
def finishWait (k : Nat) : Adapter :=
  let compId := (a.waitEvents k).compId.toNat
  { a with
    waitBitMap := Function.update a.waitBitMap (mapIndex compId)
      (a.waitBitMap (mapIndex compId) &&& ~~~ bitMap compId)
    waitList := a.waitList.erase k }

end Adapter

/-! ## Answers -/

/-- `nic_response_t`. -/
structure NicResponse where
  opcode : BitVec 8
  compid : BitVec 8
  word : BitVec 64
deriving DecidableEq

/-- `NX_NIC_C2H_OPCODE_LRO_DELETE_RESPONSE` and so on: the answers that are not
for the wait list. -/
def lroDeleteResponse : BitVec 8 := 134
def lroAddFailureResponse : BitVec 8 := 135
def getLinkeventResponse : BitVec 8 := 141

/-- An entry with its answer. -/
def WaitEvent.wakeup (wait : WaitEvent) (word : BitVec 64) : WaitEvent :=
  { wait with rspWord := some word, trigger := true, active := false }

/-- `nx_os_event_wakeup_on_response`.  The other two handlers leave the wait list
alone. -/
def Adapter.nxOsEventWakeupOnResponse (a : Adapter) (rsp : NicResponse) : RCode × Adapter :=
  if rsp.opcode = lroDeleteResponse ∨ rsp.opcode = lroAddFailureResponse then (.success, a)
  else if rsp.opcode = getLinkeventResponse then (.success, a)
  else match a.waitList.find? fun k => decide ((a.waitEvents k).compId = rsp.compid) with
    | none => (.cmdFailed, a)
    | some k =>
        if (a.waitEvents k).active ≠ true then (.cmdFailed, a)
        else (.success, a.setEvent k ((a.waitEvents k).wakeup rsp.word))

/-! ## Requests -/

/-- `nic_request_t`. -/
structure NicRequest where
  opcode : Nat
  reqOpcode : Nat
  compId : BitVec 8
  ctxid : Nat
  needCompletion : Bool
  words : List (BitVec 64)
deriving DecidableEq

def nxNicHostRequest : Nat := 0x13
def nicRequest : Nat := 0x14
def configL2Mac : Nat := 6
def unmMacEvent : Nat := 1

/-- What a caller asks for. -/
structure Args where
  opcode : Nat
  contextId : Nat
  rqbody : List (BitVec 64)
deriving DecidableEq

/-- The request that `nx_os_send_nic_request` puts together. -/
def Args.request (args : Args) (compId : BitVec 8) : NicRequest where
  opcode := if args.opcode = configL2Mac then nicRequest else nxNicHostRequest
  reqOpcode := if args.opcode = configL2Mac then unmMacEvent else args.opcode
  compId := compId
  ctxid := args.contextId
  needCompletion := true
  words := args.rqbody

/-- `NX_OS_CRB_RETRY_COUNT * NX_OS_CRB_UDELAY_VALUE`. -/
def utimelimit : Int := 4000 * 1000

end Req
end NxNic

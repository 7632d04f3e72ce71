import Mathlib.Data.BitVec
import NxNic.Lib.Ring

/-! # The status ring

The status descriptors the card writes (`statusDesc_t`, `nic_cmn.h`), with the
views that its union members give of the same two words, and the loop of
`unm_process_rcv_ring` (`unm_nic_main.c`) that takes messages off the ring.

The loop is modelled without its handlers: its result lists what it handed to
which handler (`Dispatch`), in order.  No handler touches the status ring.
-/
namespace NxNic
namespace Rx

/-! ## Status descriptors -/

/-- `statusDesc_t`: `body[0]` and `body[1]`. -/
structure StatusDesc where
  body0 : BitVec 64
  body1 : BitVec 64
deriving DecidableEq

def statusOwnerHost : BitVec 2 := 0x1
def statusOwnerPhantom : BitVec 2 := 0x2

namespace StatusDesc

/-! The descriptor of a received packet. -/
def port (d : StatusDesc) : BitVec 4 := d.body0.extractLsb' 0 4
def type (d : StatusDesc) : BitVec 4 := d.body0.extractLsb' 8 4
def totalLength (d : StatusDesc) : BitVec 16 := d.body0.extractLsb' 12 16
def referenceHandle (d : StatusDesc) : BitVec 16 := d.body0.extractLsb' 28 16
def descCnt (d : StatusDesc) : BitVec 3 := d.body0.extractLsb' 53 3
def owner (d : StatusDesc) : BitVec 2 := d.body0.extractLsb' 56 2
def opcode (d : StatusDesc) : BitVec 6 := d.body0.extractLsb' 58 6

/-! `tnic_rxbuff_t`. -/
def tnicRingType (d : StatusDesc) : BitVec 4 := d.body0.extractLsb' 40 4
def tnicRefHandle (d : StatusDesc) : BitVec 16 := d.body1.extractLsb' 32 16

/-! `nx_lro_hdr_desc_t`. -/
def lroRefHandle (d : StatusDesc) : BitVec 16 := d.body0.extractLsb' 0 16
def lroCount (d : StatusDesc) : BitVec 8 := d.body1.extractLsb' 0 8
def lroType (d : StatusDesc) : BitVec 4 := d.body1.extractLsb' 12 4

/-! `nx_lro2_hdr_desc_t`. -/
def lro2RefHandle (d : StatusDesc) : BitVec 16 := d.body0.extractLsb' 0 16
def lro2Length (d : StatusDesc) : BitVec 16 := d.body0.extractLsb' 16 16
def lro2Type (d : StatusDesc) : BitVec 3 := d.body0.extractLsb' 49 3

/-- `lro_frags.pkts[j].s.ref_handle`. -/
def fragRefHandle (d : StatusDesc) (j : Nat) : BitVec 16 :=
  if j < 2 then d.body0.extractLsb' (32 * j) 16 else d.body1.extractLsb' (32 * (j - 2)) 16

/-- `desc->owner & STATUS_OWNER_HOST`. -/
def hostOwned (d : StatusDesc) : Bool := d.owner &&& statusOwnerHost ≠ 0

/-- The descriptor after `desc->owner = STATUS_OWNER_PHANTOM`. -/
def phantom (d : StatusDesc) : StatusDesc :=
  { d with body0 :=
      (d.body0 &&& ~~~(3#64 <<< 56)) ||| (statusOwnerPhantom.setWidth 64 <<< 56) }

theorem owner_phantom (d : StatusDesc) : d.phantom.owner = statusOwnerPhantom := by
  apply BitVec.eq_of_getLsbD_eq
  intro i hi
  have hcases : i = 0 ∨ i = 1 := by omega
  rcases hcases with rfl | rfl <;>
    simp [owner, phantom, statusOwnerPhantom]

@[simp] theorem hostOwned_phantom (d : StatusDesc) : d.phantom.hostOwned = false := by
  rw [hostOwned, owner_phantom]
  decide

/-- Below the owner bits nothing changes. -/
theorem getLsbD_phantom (d : StatusDesc) {i : Nat} (hi : i < 56) :
    d.phantom.body0.getLsbD i = d.body0.getLsbD i := by
  have hkeep : ∀ i < 56, (~~~(3#64 <<< 56)).getLsbD i = true := by decide
  have hset : ∀ i < 56, (statusOwnerPhantom.setWidth 64 <<< 56).getLsbD i = false := by decide
  rw [phantom, BitVec.getLsbD_or, BitVec.getLsbD_and, hkeep i hi, hset i hi, Bool.and_true,
    Bool.or_false]

theorem extractLsb'_phantom (d : StatusDesc) {start len : Nat} (h : start + len ≤ 56) :
    d.phantom.body0.extractLsb' start len = d.body0.extractLsb' start len := by
  apply BitVec.eq_of_getLsbD_eq
  intro i hi
  rw [BitVec.getLsbD_extractLsb', BitVec.getLsbD_extractLsb', d.getLsbD_phantom (by omega)]

end StatusDesc

/-! ## The loop -/

/-- The opcodes of received packets (`adapter->msg_type_rx_desc` and
`adapter->msg_type_sync_offload`), which depend on the firmware. -/
structure RcvOpcodes where
  msgTypeRxDesc : BitVec 6 := 0x04
  msgTypeSyncOffload : BitVec 6 := 0x03

def unmMsgtypeTnicGlobalBuffers : BitVec 6 := 0x01
def unmMsgtypeNicLroChained : BitVec 6 := 0x11
def unmMsgtypeNicLroContiguous : BitVec 6 := 0x12

/-- A call of a handler.  For an extended message `values` has the words stored
to `msg.body.values`, from index 0 on. -/
inductive Dispatch where
  /-- `unm_process_rcv`. -/
  | rcv (desc : StatusDesc)
  /-- `unm_process_lro_contiguous`. -/
  | lroContiguous (desc : StatusDesc)
  /-- `unm_process_lro`, with the `num_desc` elements of `desc_list`. -/
  | lro (desc : StatusDesc) (descList : List StatusDesc)
  /-- The handler of `nx_sds_msg_cb_tbl[msg.hdr.type]`. -/
  | msg (hdr : BitVec 64) (values : List (BitVec 64))
deriving DecidableEq

/-- An index into the ring: `x & (MaxRxDescCount - 1)`, for a 32-bit `x`. -/
def ringIndex (n x : Nat) : Nat := x % 2 ^ 32 &&& (n - 1)

/-- The ring's memory. -/
abbrev StatusRing := Nat → StatusDesc

/-- Whether the descriptor is that of a received packet. -/
def isRcv (ops : RcvOpcodes) (d : StatusDesc) : Bool :=
  d.opcode = ops.msgTypeRxDesc || d.opcode = ops.msgTypeSyncOffload ||
    d.opcode = unmMsgtypeTnicGlobalBuffers

/-- `desc->owner = STATUS_OWNER_PHANTOM`, for the descriptor in slot `i`. -/
def setPhantom (ring : StatusRing) (i : Nat) : StatusRing :=
  Function.update ring i (ring i).phantom

/-- The loops over the middle descriptors of a message: `k` of them, each read
and given back.  The result has the ring, the consumer and the descriptors. -/
def takeMiddle (n : Nat) : Nat → StatusRing → Nat → StatusRing × Nat × List StatusDesc
  | 0, ring, consumer => (ring, consumer, [])
  | k + 1, ring, consumer =>
      let consumer := ringIndex n (consumer + 1)
      let d := ring consumer
      let r := takeMiddle n k (setPhantom ring consumer) consumer
      (r.1, r.2.1, d :: r.2.2)

/-- What one round of the loop does: it leaves the loop, with the count rewritten
or not, or it hands a message to its handler. -/
inductive Round where
  | stop
  | stopLro
  | dispatch (ring : StatusRing) (consumer : Nat) (call : Dispatch)

/-- The end of a round: the descriptor at `consumer` is given back, and the
consumer moves past it. -/
def Round.finish (n : Nat) (ring : StatusRing) (consumer : Nat) (call : Dispatch) : Round :=
  .dispatch (setPhantom ring consumer) (ringIndex n (consumer + 1)) call

/-- A message of several descriptors is given back: its first one, the middle
ones, which are read, and the last, which is not. -/
def Round.many (n : Nat) (ring : StatusRing) (consumer k : Nat)
    (call : StatusRing → List StatusDesc → Dispatch) : Round :=
  let r := takeMiddle n k (setPhantom ring consumer) consumer
  Round.finish n r.1 (ringIndex n (r.2.1 + 1)) (call r.1 r.2.2)

/-- A chained LRO message.  `desc_cnt - 1` wraps around when it is negative; the
handler's `desc` points to a descriptor that has been given back already. -/
def lroChainedRound (n : Nat) (ring : StatusRing) (consumer : Nat) : Round :=
  let cnt := (ring consumer).descCnt.toNat
  let last := ring (ringIndex n (consumer + cnt + (2 ^ 32 - 1)))
  if !last.hostOwned then .stopLro
  else Round.many n ring consumer (cnt - 2) fun ring list => .lro (ring consumer) list

/-- Any other message: it is extended when it has more than one descriptor. -/
def msgRound (n : Nat) (ring : StatusRing) (consumer : Nat) : Round :=
  let desc := ring consumer
  let cnt := desc.descCnt.toNat
  if 1 < cnt then
    let last := ring (ringIndex n (consumer + cnt - 1))
    if !last.hostOwned then .stop
    else
      Round.many n ring consumer (cnt - 2) fun _ list =>
        .msg desc.body0 (desc.body1 :: list.flatMap fun d => [d.body0, d.body1])
  else Round.finish n ring consumer (.msg desc.body0 [desc.body0, desc.body1])

/-- One round of the loop of `unm_process_rcv_ring`. -/
def rcvRound (ops : RcvOpcodes) (n : Nat) (ring : StatusRing) (consumer : Nat) : Round :=
  let desc := ring consumer
  if !desc.hostOwned then .stop
  else if isRcv ops desc then Round.finish n ring consumer (.rcv desc)
  else if desc.opcode = unmMsgtypeNicLroContiguous then
    Round.finish n ring consumer (.lroContiguous desc)
  else if desc.opcode = unmMsgtypeNicLroChained then lroChainedRound n ring consumer
  else msgRound n ring consumer

/-- The ring, the consumer, the count and the calls made. -/
structure RcvResult where
  ring : StatusRing
  consumer : Nat
  count : Nat
  calls : List Dispatch

/-- The loop, for at most `max` more messages. -/
def rcvLoop (ops : RcvOpcodes) (n : Nat) : Nat → StatusRing → Nat → Nat → RcvResult
  | 0, ring, consumer, count => ⟨ring, consumer, count, []⟩
  | max + 1, ring, consumer, count =>
      match rcvRound ops n ring consumer with
      | .stop => ⟨ring, consumer, count, []⟩
      | .stopLro => ⟨ring, consumer, if count = 0 then 0 else 1, []⟩
      | .dispatch ring consumer call =>
          let r := rcvLoop ops n max ring consumer (count + 1)
          { r with calls := call :: r.calls }

/-- `unm_process_rcv_ring`, for the status ring at `host_sds_ring->consumer`.
The consumer is stored only if the count is not zero. -/
def unmProcessRcvRing (ops : RcvOpcodes) (n : Nat) (ring : StatusRing) (consumer max : Nat) :
    RcvResult :=
  let r := rcvLoop ops n max ring consumer 0
  { r with consumer := if r.count = 0 then consumer else r.consumer }

end Rx
end NxNic

import NxNic.Lib.Machine
import NxNic.Lib.Ring

/-! # The transmit side of the adapter

The data the transmit path works on (`unm_nic.h`, `nic_cmn.h`), for the native
Linux build: the command descriptors, the software command buffers that shadow
them, the queue of pending commands, and the part of `unm_adapter_s` that holds
the ring indices.

A driver function is modelled by the ordered list of its `Effect`s: its stores
to memory others can see, its calls of the DMA API and the allocator, and its
register writes.  `Adapter.exec` is one effect's action on the adapter.  A call
that runs undisturbed performs its effects in one go (`Adapter.execAll`); calls
that overlap interleave theirs.
-/
namespace NxNic
namespace Tx

/-- `MAX_BUFFERS_PER_CMD`. -/
def maxBuffersPerCmd : Nat := 16
/-- `NX_NIC_MAX_SG_PER_TX`. -/
def nxNicMaxSgPerTx : Nat := maxBuffersPerCmd - 2
/-- `MAX_PENDING_DESC_BLOCK_SIZE`. -/
def maxPendingDescBlockSize : Nat := 64
/-- `MAX_STATUS_HANDLE`. -/
def maxStatusHandle : Nat := 128
/-- `sizeof(cmdDescType0_t)`. -/
def descSize : Nat := 64
/-- `IP_ALIGNMENT_BYTES`. -/
def ipAlignmentBytes : Nat := 2
/-- `VLAN_HLEN`. -/
def vlanHlen : Nat := 4

/-- `cmdDescType0_t`, every field with the width of its bit field. -/
structure CmdDescType0 where
  tcpHdrOffset : BitVec 8 := 0
  ipHdrOffset : BitVec 8 := 0
  flags : BitVec 7 := 0
  opcode : BitVec 6 := 0
  unused : BitVec 3 := 0
  numOfBuffers : BitVec 8 := 0
  totalLength : BitVec 24 := 0
  addrBuffer2 : BitVec 64 := 0
  referenceHandle : BitVec 16 := 0
  mss : BitVec 16 := 0
  port : BitVec 4 := 0
  ctxId : BitVec 4 := 0
  totalHdrLength : BitVec 8 := 0
  connID : BitVec 16 := 0
  addrBuffer3 : BitVec 64 := 0
  addrBuffer1 : BitVec 64 := 0
  buffer1Length : BitVec 16 := 0
  buffer2Length : BitVec 16 := 0
  buffer3Length : BitVec 16 := 0
  buffer4Length : BitVec 16 := 0
  addrBuffer4 : BitVec 64 := 0
  mcastAddr : BitVec 64 := 0
deriving DecidableEq

/-- `unm_skb_frag`: the DMA address and length of one mapped piece of a packet. -/
structure UnmSkbFrag where
  dma : BitVec 64 := 0
  length : Nat := 0
deriving DecidableEq

/-- `unm_cmd_buffer`: what the driver remembers about the command in one slot.
`skb` names the packet, if there is one. -/
structure UnmCmdBuffer where
  skb : Option Nat := none
  fragArray : Nat → UnmSkbFrag := fun _ => {}
  totalLength : Nat := 0
  mss : Nat := 0
  port : BitVec 16 := 0
  cmd : BitVec 8 := 0
  fragCount : BitVec 8 := 0

/-- `unm_pending_cmd_desc_block_t`: an array of commands, `cnt` of them in use. -/
structure PendingCmdDescBlock where
  cnt : Nat
  cmd : Nat → CmdDescType0

/-- `unm_pending_cmd_descs_t`: the commands waiting for room on the ring. -/
structure PendingCmdDescs where
  cnt : Nat := 0
  freeList : List PendingCmdDescBlock := []
  cmdList : List PendingCmdDescBlock := []
  currBlock : Option PendingCmdDescBlock := none

/-- The transmit part of `unm_adapter_s`, with the word `*cmdConsumer` the
device writes and the state of the network queue. -/
structure Adapter where
  maxTxDescCount : Nat
  cmdProducer : Nat := 0
  lastCmdConsumer : Nat := 0
  cmdConsumer : Nat := 0
  cmdDescHead : Nat → CmdDescType0 := fun _ => {}
  cmdBufArr : Nat → UnmCmdBuffer := fun _ => {}
  pendingCmds : PendingCmdDescs := {}
  queueStopped : Bool := false
  running : Bool := true
  txTimeoutCount : Nat := 0

/-- What a transmit function does to the world, one access at a time. -/
inductive Effect where
  /-- A store through a descriptor pointer; `d` is the whole descriptor after it. -/
  | desc (slot : Nat) (d : CmdDescType0)
  /-- A copy of `len` bytes to byte `off` of the descriptor ring's memory. -/
  | copy (off : Nat) (src : Nat → BitVec 8) (len : Nat)
  /-- A store to `cmd_buf_arr[slot]`; `b` is the whole entry after it. -/
  | buf (slot : Nat) (b : UnmCmdBuffer)
  /-- The pending queue after an operation on it. -/
  | pending (p : PendingCmdDescs)
  /-- `adapter->cmdProducer = producer`, `moved` slots after the last value. -/
  | produce (producer moved : Nat)
  /-- `unm_nic_update_cmd_producer`. -/
  | doorbell (producer : Nat)
  /-- `adapter->lastCmdConsumer = consumer`, `moved` slots after the last value. -/
  | consume (consumer moved : Nat)
  /-- A DMA mapping is made, and undone. -/
  | map (dma : BitVec 64) (len : Nat)
  | unmap (dma : BitVec 64) (len : Nat)
  /-- `dev_kfree_skb_any`. -/
  | kfreeSkb (skb : Nat)
  /-- `netif_stop_queue`, and `netif_wake_queue` with the timeout count cleared. -/
  | stopQueue
  | wakeQueue
  /-- The message "*BUG** This should never happen". -/
  | bug

/-- The little-endian 32-bit word at byte `base` after a copy to byte `off`. -/
def wordAfterCopy (base off : Nat) (src : Nat → BitVec 8) (len w : Nat) : Nat :=
  (List.range 4).foldr (fun i higher =>
    (if off ≤ base + i ∧ base + i < off + len then (src (base + i - off)).toNat
      else w / 256 ^ i % 256) + 256 * higher) 0

/-- The adapter with another value in the device's word `*cmdConsumer`. -/
def Adapter.setCmdConsumer (a : Adapter) (w : Nat) : Adapter := { a with cmdConsumer := w }

@[simp] theorem Adapter.setCmdConsumer_maxTxDescCount (a : Adapter) (w : Nat) :
    (a.setCmdConsumer w).maxTxDescCount = a.maxTxDescCount := rfl

@[simp] theorem Adapter.setCmdConsumer_cmdProducer (a : Adapter) (w : Nat) :
    (a.setCmdConsumer w).cmdProducer = a.cmdProducer := rfl

@[simp] theorem Adapter.setCmdConsumer_lastCmdConsumer (a : Adapter) (w : Nat) :
    (a.setCmdConsumer w).lastCmdConsumer = a.lastCmdConsumer := rfl

@[simp] theorem Adapter.setCmdConsumer_cmdDescHead (a : Adapter) (w : Nat) :
    (a.setCmdConsumer w).cmdDescHead = a.cmdDescHead := rfl

@[simp] theorem Adapter.setCmdConsumer_cmdBufArr (a : Adapter) (w : Nat) :
    (a.setCmdConsumer w).cmdBufArr = a.cmdBufArr := rfl

@[simp] theorem Adapter.setCmdConsumer_pendingCmds (a : Adapter) (w : Nat) :
    (a.setCmdConsumer w).pendingCmds = a.pendingCmds := rfl

/-- One effect's action on the adapter.  `*cmdConsumer` is the word right after
the last descriptor of the ring (`unm_nic_hw_resources`), so a copy past the end
of the ring lands on it. -/
def Adapter.exec (a : Adapter) : Effect → Adapter
  | .desc slot d => { a with cmdDescHead := Function.update a.cmdDescHead slot d }
  | .copy off src len =>
      a.setCmdConsumer (wordAfterCopy (descSize * a.maxTxDescCount) off src len a.cmdConsumer)
  | .buf slot b => { a with cmdBufArr := Function.update a.cmdBufArr slot b }
  | .pending p => { a with pendingCmds := p }
  | .produce producer _ => { a with cmdProducer := producer }
  | .consume consumer _ => { a with lastCmdConsumer := consumer }
  | .stopQueue => { a with queueStopped := true }
  | .wakeQueue => { a with queueStopped := false, txTimeoutCount := 0 }
  | .doorbell _ | .map _ _ | .unmap _ _ | .kfreeSkb _ | .bug => a

/-- A call that runs undisturbed. -/
def Adapter.execAll (a : Adapter) (es : List Effect) : Adapter := es.foldl Adapter.exec a

@[simp] theorem Adapter.execAll_nil (a : Adapter) : a.execAll [] = a := rfl

@[simp] theorem Adapter.execAll_cons (a : Adapter) (e : Effect) (es : List Effect) :
    a.execAll (e :: es) = (a.exec e).execAll es := rfl

theorem Adapter.execAll_append (a : Adapter) (es fs : List Effect) :
    a.execAll (es ++ fs) = (a.execAll es).execAll fs := List.foldl_append ..

@[simp] theorem Adapter.exec_maxTxDescCount (a : Adapter) (e : Effect) :
    (a.exec e).maxTxDescCount = a.maxTxDescCount := by
  cases e with
  | copy off src len => rw [Adapter.exec, Adapter.setCmdConsumer_maxTxDescCount]
  | _ => rfl

@[simp] theorem Adapter.execAll_maxTxDescCount (a : Adapter) (es : List Effect) :
    (a.execAll es).maxTxDescCount = a.maxTxDescCount := by
  induction es generalizing a with
  | nil => rfl
  | cons e es ih => rw [Adapter.execAll_cons, ih, Adapter.exec_maxTxDescCount]

end Tx
end NxNic

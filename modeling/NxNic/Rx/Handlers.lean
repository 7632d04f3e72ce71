import NxNic.Rx.Status

/-! # The receive handlers

What `unm_process_rcv`, `unm_process_lro_contiguous` and `unm_process_lro`
(`unm_nic_main.c`) do with the receive buffers that a message names: which
elements of `rx_buf_arr` they index, which buffers they put on the lists of
freed buffers, and what becomes of their skbs.  The delivery of the packet is
left out.

The state they change is the receive context (`RxCtx`): for each ring the buffers, the free list and
the counter of failures, and for each status ring the list of the buffers its messages have freed.
Each access to an array is put into the log, in its order.
-/
namespace NxNic
namespace Rx

/-! ## Receive buffers and rings -/

/-- `struct unm_rx_buffer`.  An skb is known by a number. -/
structure RxBuffer where
  skb : Option Nat
  dma : Nat
  refHandle : Nat
deriving DecidableEq

/-- `nx_free_rbufs_t`: the buffers of the list by their index in `rx_buf_arr`. -/
structure FreeRbufs where
  count : Nat
  head : List Nat
deriving DecidableEq

/-- `rcvDesc_t`. -/
structure RcvDesc where
  addrBuffer : Nat
  referenceHandle : Nat
  bufferLength : Nat
deriving DecidableEq

/-- `rds_host_ring_t`, with the descriptors at `host_addr` and the register
`host_rx_producer` of its `nx_host_rds_ring_t`. -/
structure RdsRing where
  rxBufArr : Nat → RxBuffer
  allocFailures : Nat
  freeRxbufs : FreeRbufs
  posting : Bool
  producer : Nat
  hostAddr : Nat → RcvDesc
  hostRxProducer : Nat

/-- An element of an array that is read or written. -/
inductive Access where
  | rxBufArr (ring index : Nat)
  | accumulation (index : Int)
  | bufsize (index : Nat)
  | descList (index : Nat)
  | msgValues (index : Nat)
deriving DecidableEq

/-- What the handlers of one receive context work on: its receive rings,
`free_rbufs[ring]` of each of its status rings, how many skbs it has asked for,
and the array elements accessed so far. -/
structure RxCtx where
  rdsRings : Nat → RdsRing
  freeRbufs : Nat → Nat → FreeRbufs
  allocs : Nat
  log : List Access

/-- The sizes of the receive rings, which are those of the adapter's parameters
and the same in every context, and the outcomes of the calls of
`nx_alloc_rx_skb`: an skb and its DMA address, or none. -/
structure RxCfg where
  maxRdsRings : Nat
  ringSize : Nat → Nat
  dmaSize : Nat → Nat
  alloc : Nat → Option (Nat × Nat)

def nxNicRxPostThres : Nat := 4
def nxMaxPktsPerLro : Nat := 10
def nx1kPerLro : Nat := 16
def nxLroPktsPerStatusDesc : Nat := 4

/-- `list_add_tail`, with the count. -/
def FreeRbufs.addTail (l : FreeRbufs) (index : Nat) : FreeRbufs :=
  ⟨l.count + 1, l.head ++ [index]⟩

/-- `nx_alloc_rx_skb`, with what comes of the allocation.  When it fails it does
not modify the buffer. -/
def nxAllocRxSkb (o : Option (Nat × Nat)) (buffer : RxBuffer) : Option RxBuffer :=
  o.map fun (skb, dma) => { buffer with skb := some skb, dma := dma }

def RdsRing.setBuf (r : RdsRing) (index : Nat) (buffer : RxBuffer) : RdsRing :=
  { r with rxBufArr := Function.update r.rxBufArr index buffer }

/-- The part of `process_rxbuffer` that takes the skb of a buffer and allocates
another one: in case of failure the buffer is left without. -/
def RdsRing.consume (r : RdsRing) (index : Nat) (o : Option (Nat × Nat)) : RdsRing :=
  let buffer := { r.rxBufArr index with skb := none }
  match nxAllocRxSkb o buffer with
  | none => { r.setBuf index buffer with allocFailures := r.allocFailures + 1 }
  | some buffer => r.setBuf index buffer

namespace RxCtx

def touch (ctx : RxCtx) (a : Access) : RxCtx := { ctx with log := ctx.log ++ [a] }

def setRds (ctx : RxCtx) (ring : Nat) (r : RdsRing) : RxCtx :=
  { ctx with rdsRings := Function.update ctx.rdsRings ring r }

/-- `rx_buf_arr[index]`. -/
def buf (ctx : RxCtx) (ring index : Nat) : RxBuffer := (ctx.rdsRings ring).rxBufArr index

def setFreeRbufs (ctx : RxCtx) (s ring : Nat) (l : FreeRbufs) : RxCtx :=
  { ctx with
    freeRbufs := Function.update ctx.freeRbufs s (Function.update (ctx.freeRbufs s) ring l) }

/-- The buffer is put on `free_rbufs[ring]` of the status ring `s`. -/
def free (ctx : RxCtx) (s ring index : Nat) : RxCtx :=
  ctx.setFreeRbufs s ring ((ctx.freeRbufs s ring).addTail index)

end RxCtx

variable (cfg : RxCfg)

/-! ## The handlers -/

/-- `process_rxbuffer`, on the status ring `s`. -/
def processRxbuffer (s : Nat) (ctx : RxCtx) (descCtx index : Nat) : RxCtx × Option Nat :=
  let ctx := ctx.touch (.rxBufArr descCtx index)
  match (ctx.buf descCtx index).skb with
  | none => (ctx, none)
  | some skb =>
      let r := (ctx.rdsRings descCtx).consume index (cfg.alloc ctx.allocs)
      ({ ctx.setRds descCtx r with allocs := ctx.allocs + 1 }.free s descCtx index, some skb)

/-- `ring_size - alloc_failures < NX_NIC_RX_POST_THRES`, on 32 bits. -/
def lowOnBuffers (ctx : RxCtx) (ring : Nat) : Bool :=
  (cfg.ringSize ring + 2 ^ 32 - (ctx.rdsRings ring).allocFailures % 2 ^ 32) % 2 ^ 32 <
    nxNicRxPostThres

/-- When buffers are low, the packet is dropped and its buffer goes back to the
card as it is. -/
def repost (s : Nat) (ctx : RxCtx) (descCtx index : Nat) : RxCtx :=
  (ctx.touch (.rxBufArr descCtx index)).free s descCtx index

/-- The receive ring and the buffer that the descriptor of a packet names; those
of `UNM_MSGTYPE_TNIC_GLOBAL_BUFFERS` are elsewhere. -/
def rcvDescCtx (d : StatusDesc) : Nat :=
  if d.opcode = unmMsgtypeTnicGlobalBuffers then d.tnicRingType.toNat else d.type.toNat

def rcvIndex (d : StatusDesc) : Nat :=
  if d.opcode = unmMsgtypeTnicGlobalBuffers then d.tnicRefHandle.toNat
  else d.referenceHandle.toNat

/-- `unm_process_rcv`. -/
def unmProcessRcv (s : Nat) (ctx : RxCtx) (desc : StatusDesc) : RxCtx :=
  let index := rcvIndex desc
  let descCtx := rcvDescCtx desc
  if cfg.maxRdsRings ≤ descCtx then ctx
  else if cfg.ringSize descCtx < index then ctx
  else if lowOnBuffers cfg ctx descCtx then repost s ctx descCtx index
  else (processRxbuffer cfg s ctx descCtx index).1

/-- `unm_process_lro_contiguous`. -/
def unmProcessLroContiguous (s : Nat) (ctx : RxCtx) (desc : StatusDesc) : RxCtx :=
  let descCtx := desc.lro2Type.toNat
  if descCtx ≠ 1 then ctx
  else
    let ctx := ctx.touch (.bufsize (min (desc.lro2Length.toNat >>> 10) (nx1kPerLro - 1)))
    let refHandle := desc.lro2RefHandle.toNat
    if lowOnBuffers cfg ctx descCtx then
      if cfg.ringSize descCtx ≤ refHandle then ctx
      else repost s ctx descCtx refHandle
    else (processRxbuffer cfg s ctx descCtx refHandle).1

/-- `lro_frags.pkts[jj].s.ref_handle`, for each `jj`. -/
def lroFragHandles (d : StatusDesc) : List Nat :=
  (List.range nxLroPktsPerStatusDesc).map fun jj => (d.fragRefHandle jj).toNat

/-- The loop of `unm_process_lro` over the fragments, while `nr_skbs` is not
zero.  The handle of a fragment is checked. -/
def lroLoop (s descCtx : Nat) : List Nat → Int → RxCtx → RxCtx
  | [], _, ctx => ctx
  | refHandle :: rest, nrSkbs, ctx =>
      if nrSkbs = 0 then ctx
      else if cfg.ringSize descCtx ≤ refHandle then ctx
      else
        let r := processRxbuffer cfg s ctx descCtx refHandle
        match r.2 with
        | none => r.1
        | some _ => lroLoop s descCtx rest (nrSkbs - 1) r.1

/-- `unm_process_lro`.  The handle of the first packet is not checked. -/
def unmProcessLro (s : Nat) (ctx : RxCtx) (desc : StatusDesc) (descList : List StatusDesc) :
    RxCtx :=
  let nrSkbs := desc.lroCount.toNat
  let descCtx := desc.lroType.toNat
  if descCtx ≠ 0 then ctx
  else
    let ctx := if nrSkbs ≤ nxMaxPktsPerLro then ctx.touch (.accumulation (nrSkbs - 1)) else ctx
    let r := processRxbuffer cfg s ctx descCtx desc.lroRefHandle.toNat
    match r.2 with
    | none => r.1
    | some _ => lroLoop cfg s descCtx (descList.flatMap lroFragHandles) (nrSkbs - 1) r.1

/-- The elements of `desc_list` and `msg.body.values` that a message fills. -/
def Dispatch.stores : Dispatch → List Access
  | .rcv _ => []
  | .lroContiguous _ => []
  | .lro _ descList => (List.range descList.length).map .descList
  | .msg _ values => (List.range values.length).map .msgValues

/-- A message taken off the status ring `s`.  The handlers of extended messages
do not touch the receive buffers. -/
def handle (s : Nat) (ctx : RxCtx) (call : Dispatch) : RxCtx :=
  let ctx := { ctx with log := ctx.log ++ call.stores }
  match call with
  | .rcv desc => unmProcessRcv cfg s ctx desc
  | .lroContiguous desc => unmProcessLroContiguous cfg s ctx desc
  | .lro desc descList => unmProcessLro cfg s ctx desc descList
  | .msg _ _ => ctx

end Rx
end NxNic

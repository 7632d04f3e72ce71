import NxNic.Tx.Xmit

/-! # Commands, completions and teardown

The other functions that touch the command ring (`unm_nic_main.c`):
`nx_nic_send_cmd_descs` and the queue it falls back to when the ring is full,
`unm_proc_pending_cmd_desc`, the completion handler `unm_process_cmd_ring`, and
`nx_free_tx_resources`.

Like the transmitter each of them is a plan of effects on the adapter, with what it returns, and
`reapLoop` and the loop of the pending queue go slot by slot.
-/
namespace NxNic
namespace Tx

/-! ## The pending queue -/

/-- `unm_free_pend_cmd_desc_block`. -/
def freePendCmdDescBlock (p : PendingCmdDescs) (b : PendingCmdDescBlock) : PendingCmdDescs :=
  { p with freeList := p.freeList ++ [{ b with cnt := 0 }] }

/-- `nx_make_available_pend_cmd_desc`; `alloc` is the block `kmalloc` returns.
`none` is `-ENOMEM`. -/
def nxMakeAvailablePendCmdDesc (p : PendingCmdDescs) (cnt : Nat)
    (alloc : Option PendingCmdDescBlock) : Option PendingCmdDescs :=
  if p.currBlock.any fun b => b.cnt ≤ maxPendingDescBlockSize - cnt then some p
  else if p.freeList ≠ [] then some p
  else alloc.map (freePendCmdDescBlock p)

/-- The block with one more command in it. -/
def PendingCmdDescBlock.push (b : PendingCmdDescBlock) (d : CmdDescType0) : PendingCmdDescBlock :=
  ⟨b.cnt + 1, Function.update b.cmd b.cnt d⟩

/-- The end of `nx_queue_pend_cmd_desc`, for the block that takes the command. -/
def putPendCmdDesc (p : PendingCmdDescs) (b : PendingCmdDescBlock) (d : CmdDescType0) :
    PendingCmdDescs :=
  let b := b.push d
  if b.cnt = maxPendingDescBlockSize then
    { p with cmdList := p.cmdList ++ [b], currBlock := none, cnt := p.cnt + 1 }
  else { p with currBlock := some b, cnt := p.cnt + 1 }

/-- `nx_queue_pend_cmd_desc`.  Without a current block and without a free one it
prints its message and drops the command. -/
def nxQueuePendCmdDesc (p : PendingCmdDescs) (d : CmdDescType0) :
    List Effect × PendingCmdDescs :=
  match p.currBlock, p.freeList with
  | some b, _ => ([], putPendCmdDesc p b d)
  | none, b :: rest => ([], putPendCmdDesc { p with freeList := rest } { b with cnt := 0 } d)
  | none, [] => ([.bug], p)

/-- The loop of `nx_queue_pend_cmd_desc_list`. -/
def queueAll : List CmdDescType0 → PendingCmdDescs → List Effect × PendingCmdDescs
  | [], p => ([], p)
  | d :: rest, p =>
      let q := nxQueuePendCmdDesc p d
      let r := queueAll rest q.2
      (q.1 ++ r.1, r.2)

/-- `nx_queue_pend_cmd_desc_list`: `none` is `-ENOMEM`. -/
def nxQueuePendCmdDescList (p : PendingCmdDescs) (descs : List CmdDescType0)
    (alloc : Option PendingCmdDescBlock) : Option (List Effect × PendingCmdDescs) :=
  (nxMakeAvailablePendCmdDesc p descs.length alloc).map (queueAll descs)

/-- `unm_dequeue_pending_cmd_desc`: the next block, if it fits in `length` slots. -/
def unmDequeuePendingCmdDesc (p : PendingCmdDescs) (length : Nat) :
    Option (PendingCmdDescBlock × PendingCmdDescs) :=
  match p.cmdList, p.currBlock with
  | b :: rest, _ =>
      if length < maxPendingDescBlockSize then none
      else some (b, { p with cmdList := rest, cnt := p.cnt - b.cnt })
  | [], some b =>
      if length < b.cnt then none else some (b, { p with currBlock := none, cnt := p.cnt - b.cnt })
  | [], none => none

/-! ## Commands on the ring -/

def pegnetRequest : BitVec 8 := 0x11

/-- The entry of `cmd_buf_arr` of a command that carries no packet. -/
def UnmCmdBuffer.ofCommand (old : UnmCmdBuffer) (cmd : BitVec 8) : UnmCmdBuffer :=
  { old with mss := 0, totalLength := 0, skb := none, cmd := cmd, fragCount := 0, port := 0 }

/-- The commands are put on the ring one after the other, from slot `producer`
on.  The result has the effects and the producer after the last command. -/
def postDescs (a : Adapter) (cmd : BitVec 8) : List CmdDescType0 → Nat → List Effect × Nat
  | [], producer => ([], producer)
  | d :: rest, producer =>
      let r := postDescs a cmd rest (Ring.next a.maxTxDescCount producer)
      (.buf producer ((a.cmdBufArr producer).ofCommand cmd) :: .desc producer d :: r.1, r.2)

def einval : Int := -22
def enomem : Int := -12

/-- The test for room of `nx_nic_send_cmd_descs`. -/
def commandsWait (a : Adapter) (nrElements : Nat) : Prop :=
  a.pendingCmds.cnt ≠ 0 ∨
    Ring.bound a.maxTxDescCount a.lastCmdConsumer a.cmdProducer ≤ a.cmdProducer + nrElements

instance (a : Adapter) (k : Nat) : Decidable (commandsWait a k) := by
  unfold commandsWait; infer_instance

/-- `nx_nic_send_cmd_descs`, with its return value. -/
def nxNicSendCmdDescs (descs : List CmdDescType0) (alloc : Option PendingCmdDescBlock)
    (a : Adapter) : List Effect × Int :=
  if maxPendingDescBlockSize < descs.length ∨ descs.length = 0 then ([], einval)
  else if commandsWait a descs.length then
    match nxQueuePendCmdDescList a.pendingCmds descs alloc with
    | none => ([], enomem)
    | some r => (r.1 ++ [.pending r.2], 0)
  else
    let r := postDescs a 0 descs a.cmdProducer
    (r.1 ++ [.produce r.2 descs.length, .doorbell r.2], 0)

/-- The free slots `unm_proc_pending_cmd_desc` counts. -/
def freeLength (n producer consumer : Nat) : Nat :=
  if producer = consumer then n - 1
  else if consumer < producer then n - producer + consumer - 1
  else consumer - producer - 1

/-- The commands in a block. -/
def PendingCmdDescBlock.descs (b : PendingCmdDescBlock) : List CmdDescType0 :=
  (List.range b.cnt).map b.cmd

/-- The local variables of `unm_proc_pending_cmd_desc`, with the number of slots
`producer` has moved. -/
structure ProcLocals where
  producer : Nat
  moved : Nat
  length : Nat
  pend : PendingCmdDescs

/-- The loop of `unm_proc_pending_cmd_desc`.  Every round takes one block off
the queue, so the number of blocks is fuel enough (`procLoop_fuel`). -/
def procLoop (a : Adapter) : Nat → ProcLocals → List Effect × ProcLocals
  | 0, v => ([], v)
  | fuel + 1, v =>
      if v.length = 0 then ([], v)
      else
        match unmDequeuePendingCmdDesc v.pend v.length with
        | none => ([], v)
        | some (b, p) =>
            let r := postDescs a pegnetRequest b.descs v.producer
            let w : ProcLocals :=
              ⟨r.2, v.moved + b.cnt, v.length - b.cnt, freePendCmdDescBlock p b⟩
            let q := procLoop a fuel w
            (r.1 ++ q.1, q.2)

/-- The number of blocks in the queue. -/
def PendingCmdDescs.blockCount (p : PendingCmdDescs) : Nat :=
  p.cmdList.length + p.currBlock.toList.length

/-- `unm_proc_pending_cmd_desc`. -/
def unmProcPendingCmdDesc (a : Adapter) : List Effect :=
  let length := freeLength a.maxTxDescCount a.cmdProducer a.lastCmdConsumer
  let r := procLoop a a.pendingCmds.blockCount ⟨a.cmdProducer, 0, length, a.pendingCmds⟩
  r.1 ++ .pending r.2.pend ::
    if a.cmdProducer = r.2.producer then []
    else [.produce r.2.producer r.2.moved, .doorbell r.2.producer]

/-! ## Completions -/

/-- What `unm_process_cmd_ring` does with one completed slot. -/
def reapSlot (slot : Nat) (b : UnmCmdBuffer) : List Effect :=
  match b.skb with
  | none => []
  | some skb =>
      (List.range (max 1 b.fragCount.toNat)).map
          (fun i => .unmap (b.fragArray i).dma (b.fragArray i).length) ++
        [.kfreeSkb skb, .buf slot { b with skb := none }]

theorem mem_reapSlot {slot : Nat} {b : UnmCmdBuffer} {e : Effect} (he : e ∈ reapSlot slot b) :
    (∃ dma len, e = .unmap dma len) ∨ (∃ skb, e = .kfreeSkb skb) ∨ ∃ c, e = .buf slot c := by
  unfold reapSlot at he
  split at he
  · cases he
  · simp only [List.mem_append, List.mem_map, List.mem_cons, List.not_mem_nil, or_false] at he
    rcases he with ⟨i, -, rfl⟩ | rfl | rfl
    · exact .inl ⟨_, _, rfl⟩
    · exact .inr (.inl ⟨_, rfl⟩)
    · exact .inr (.inr ⟨_, rfl⟩)

/-- The loop of `unm_process_cmd_ring`, for at most `fuel` slots.  The result
has the effects, `lastConsumer` and the number of slots done. -/
def reapLoop (consumer : Nat) : Nat → Adapter → Nat → Nat → List Effect × Nat × Nat
  | 0, _, lastConsumer, count => ([], lastConsumer, count)
  | fuel + 1, a, lastConsumer, count =>
      if lastConsumer = consumer then ([], lastConsumer, count)
      else
        let es := reapSlot lastConsumer (a.cmdBufArr lastConsumer)
        let r := reapLoop consumer fuel (a.execAll es)
          (Ring.next a.maxTxDescCount lastConsumer) (count + 1)
        (es ++ r.1, r.2)

/-- `unm_process_cmd_ring`, run undisturbed, with its return value. -/
def unmProcessCmdRing (a : Adapter) : List Effect × Bool :=
  let r := reapLoop a.cmdConsumer maxStatusHandle a a.lastCmdConsumer 0
  let store : List Effect :=
    if r.2.2 = 0 then []
    else .consume r.2.1 r.2.2 :: if a.queueStopped && a.running then [.wakeQueue] else []
  (r.1 ++ store, (if r.2.2 = 0 then a.lastCmdConsumer else r.2.1) = a.cmdConsumer)

/-! ## Teardown -/

/-- The mappings `nx_free_tx_resources` undoes for one slot: it looks at entries
`0`, …, `fragCount` and takes a zero address for none. -/
def teardownFrags (b : UnmCmdBuffer) : List UnmSkbFrag :=
  ((List.range (b.fragCount.toNat + 1)).map b.fragArray).filter fun f => f.dma ≠ 0

/-- The entry `nx_free_tx_resources` leaves behind. -/
def UnmCmdBuffer.tornDown (b : UnmCmdBuffer) : UnmCmdBuffer :=
  { b with
    skb := none
    fragArray := fun j =>
      if j ≤ b.fragCount.toNat then { b.fragArray j with dma := 0 } else b.fragArray j }

/-- What `nx_free_tx_resources` does with one slot. -/
def teardownSlot (slot : Nat) (b : UnmCmdBuffer) : List Effect :=
  (teardownFrags b).map (fun f => .unmap f.dma f.length) ++
    b.skb.toList.map .kfreeSkb ++ [.buf slot b.tornDown]

/-- `nx_free_tx_resources`. -/
def nxFreeTxResources (a : Adapter) : List Effect :=
  (List.range a.maxTxDescCount).flatMap fun i => teardownSlot i (a.cmdBufArr i)

end Tx
end NxNic

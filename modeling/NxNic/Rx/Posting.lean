import NxNic.Lib.Machine
import NxNic.Lib.Ring
import NxNic.Rx.Handlers

/-! # Posting receive buffers

`nx_post_freed_rxbufs`, `unm_post_rx_buffers` and `nx_post_rx_descriptors`
(`unm_nic_main.c`), the start of a receive context (`initialize_adapter_sw`),
and the machine in which they interleave with the handlers of any number of
status rings and with the card.

**The state** (`RxState`) has the driver's rings and lists (`RxCtx`), the calls
of `nx_post_rx_descriptors` that are under way, with their local variables
(`Poster`), and what the card has of each ring: the buffers whose descriptors it
has not read yet, and those it holds (`Card`).

**A step** (`rxMachine`) is the handler of one message, a section under
`buf_post_lock`, or the card reading a descriptor.  `nx_post_rx_descriptors` runs
without a lock: it is cut into steps, one for each buffer it posts and one for
each store to shared state after that.

The card returns a buffer by naming it in a message (`returned`): which buffers a
message names, and of which ring, is read off its descriptors alone, whatever the
handler then does with them.  It may return what it holds, and each buffer once
(`CanReturn`).  The handlers of LRO messages drop a message for another ring than
the one they work on (`Dispatch.Misdirected`), with the buffers it returns; the
state keeps these (`lost`).
-/
namespace NxNic
namespace Rx

/-! ## `nx_post_rx_descriptors` -/

/-- Where a call of `nx_post_rx_descriptors` is. -/
inductive PostPc where
  /-- In the loop. -/
  | posting
  /-- Past the loop: the count is corrected, and what is left of the list is
  spliced back. -/
  | returning
  /-- Before the store of the producer. -/
  | storing
  /-- Before the store to the register. -/
  | ringing
  /-- Before `posting` is cleared. -/
  | finishing
deriving DecidableEq

/-- A call of `nx_post_rx_descriptors`, with its local variables. -/
structure Poster where
  ring : Nat
  freeList : FreeRbufs
  producer : Nat
  count : Nat
  pc : PostPc
deriving DecidableEq

/-- What a step of `nx_post_rx_descriptors` leads to: the ring, the call unless
it has returned, whether an allocation was made, the buffer posted, and whether
that buffer got its skb while `alloc_failures` was zero. -/
structure PostResult where
  rds : RdsRing
  poster : Option Poster
  allocated : Bool
  posted : Option Nat
  unaccounted : Bool

/-- `if (atomic_read(&alloc_failures) > 0) atomic_dec(&alloc_failures)`. -/
def RdsRing.decFailures (r : RdsRing) : RdsRing :=
  if 0 < r.allocFailures then { r with allocFailures := r.allocFailures - 1 } else r

/-- The descriptor of the buffer is written to slot `producer`. -/
def RdsRing.writeDesc (r : RdsRing) (dmaSize producer index : Nat) : RdsRing :=
  let buffer := r.rxBufArr index
  { r with
    hostAddr := Function.update r.hostAddr producer ⟨buffer.dma, buffer.refHandle, dmaSize⟩ }

/-- The buffer at the front of the list has been posted. -/
def Poster.advance (p : Poster) (size : Nat) (rest : List Nat) : Poster :=
  { p with
    freeList := { p.freeList with head := rest }
    producer := Ring.next size p.producer
    count := p.count + 1 }

/-- A round of the loop; `o` is what comes of the allocation, if one is made. -/
def nxPostRound (size dmaSize : Nat) (o : Option (Nat × Nat)) (r : RdsRing) (p : Poster) :
    PostResult :=
  match p.freeList.head with
  | [] => ⟨r, some { p with pc := .returning }, false, none, false⟩
  | index :: rest =>
      let buffer := r.rxBufArr index
      if buffer.skb = none then
        match nxAllocRxSkb o buffer with
        | none => ⟨r, some { p with pc := .returning }, true, none, false⟩
        | some buffer =>
            ⟨((r.setBuf index buffer).decFailures).writeDesc dmaSize p.producer index,
              some (p.advance size rest), true, some index, r.allocFailures = 0⟩
      else ⟨r.writeDesc dmaSize p.producer index, some (p.advance size rest), false, some index,
        false⟩

/-- `list_splice_tail`, with the counts. -/
def FreeRbufs.splice (l : FreeRbufs) (count : Nat) (head : List Nat) : FreeRbufs :=
  ⟨l.count + count, l.head ++ head⟩

/-- The next step of `nx_post_rx_descriptors`. -/
def nxPostStep (size dmaSize : Nat) (o : Option (Nat × Nat)) (r : RdsRing) (p : Poster) :
    PostResult :=
  match p.pc with
  | .posting => nxPostRound size dmaSize o r p
  | .returning =>
      let count := p.freeList.count - p.count
      if p.freeList.head = [] then
        ⟨r, some { p with freeList := ⟨count, []⟩, pc := .storing }, false, none, false⟩
      else
        ⟨{ r with freeRxbufs := r.freeRxbufs.splice count p.freeList.head },
          some { p with freeList := ⟨count, []⟩, pc := .storing }, false, none, false⟩
  | .storing =>
      ⟨{ r with producer := p.producer }, some { p with pc := .ringing }, false, none, false⟩
  | .ringing =>
      let data := ringIndex size (p.producer + (2 ^ 32 - 1))
      ⟨if p.count = 0 then r else { r with hostRxProducer := data },
        some { p with pc := .finishing }, false, none, false⟩
  | .finishing => ⟨{ r with posting := false }, none, false, none, false⟩

/-! ## The callers -/

/-- `free_rxbufs` is taken over by a call of `nx_post_rx_descriptors`. -/
def RdsRing.startPosting (r : RdsRing) : RdsRing :=
  { r with freeRxbufs := ⟨0, []⟩, posting := true }

def RdsRing.poster (r : RdsRing) (ring : Nat) : Poster :=
  ⟨ring, r.freeRxbufs, r.producer, 0, .posting⟩

/-- The locked part of `unm_post_rx_buffers`. -/
def unmPostRxBuffers (r : RdsRing) (ring : Nat) : RdsRing × Option Poster :=
  if r.posting = true ∨ r.freeRxbufs.head = [] then (r, none)
  else (r.startPosting, some (r.poster ring))

/-- The locked part of `nx_post_freed_rxbufs`, for one receive ring: the buffers
freed on the status ring are put on `free_rxbufs`, and posted unless another
call is posting.  The test of the counts before it takes no lock; when it skips
the ring there is nothing here to do. -/
def nxPostFreedRxbufs (r : RdsRing) (freeRbufs : FreeRbufs) (ring : Nat) :
    RdsRing × FreeRbufs × Option Poster :=
  let spliced := { r with freeRxbufs := r.freeRxbufs.splice freeRbufs.count freeRbufs.head }
  let (r, freeRbufs) := if freeRbufs.head = [] then (r, freeRbufs) else (spliced, ⟨0, []⟩)
  if r.posting = false ∧ r.freeRxbufs.count ≠ 0 then
    (r.startPosting, freeRbufs, some (r.poster ring))
  else (r, freeRbufs, none)

/-- A receive ring after `initialize_adapter_sw`. -/
def initializeRdsRing (size : Nat) : RdsRing where
  rxBufArr i := ⟨none, 0, i⟩
  allocFailures := 0
  freeRxbufs := (List.range size).foldl FreeRbufs.addTail ⟨0, []⟩
  posting := false
  producer := 0
  hostAddr _ := ⟨0, 0, 0⟩
  hostRxProducer := 0

/-! ## The machine -/

/-- What the card has of a receive ring: how many descriptors it has read, the
buffers of the descriptors it has not read yet, and those it holds.  It may read
a descriptor from the moment it is written. -/
structure Card where
  read : Nat
  unread : List Nat
  held : List Nat

/-- The driver, its calls of `nx_post_rx_descriptors` by the thread they run on,
and the card.  `fills ring` counts the buffers that got their skb from
`nx_post_rx_descriptors` while `alloc_failures` was zero, and `lost ring` has the
buffers that came back in misdirected messages. -/
structure RxState where
  ctx : RxCtx
  posters : Nat → Option Poster
  card : Nat → Card
  fills : Nat → Nat
  lost : Nat → List Nat

/-- What happens next. -/
inductive RxAction where
  /-- The handler of a message on the status ring `s`. -/
  | receive (s : Nat) (call : Dispatch)
  /-- The thread `t` enters the locked part of `nx_post_freed_rxbufs`, for the
  status ring `s`. -/
  | postFreed (t s ring : Nat)
  /-- The thread `t` enters the locked part of `unm_post_rx_buffers`. -/
  | postBuffers (t ring : Nat)
  /-- The thread `t` goes on with `nx_post_rx_descriptors`. -/
  | post (t : Nat)
  /-- The card reads a descriptor. -/
  | fetch (ring : Nat)
deriving DecidableEq

variable (cfg : RxCfg)

/-- The fragments that `unm_process_lro` goes through. -/
def lroTaken (count : Nat) (handles : List Nat) : List Nat :=
  if count = 0 then handles else handles.take (count - 1)

/-! The receive handles that a message returns, with the ring that it names. -/
def rcvReturned (desc : StatusDesc) : List (Nat × Nat) := [(rcvDescCtx desc, rcvIndex desc)]

def lroContiguousReturned (desc : StatusDesc) : List (Nat × Nat) :=
  [(desc.lro2Type.toNat, desc.lro2RefHandle.toNat)]

def lroReturned (desc : StatusDesc) (descList : List StatusDesc) : List (Nat × Nat) :=
  (desc.lroRefHandle.toNat ::
    lroTaken desc.lroCount.toNat (descList.flatMap lroFragHandles)).map
      fun i => (desc.lroType.toNat, i)

def returned : Dispatch → List (Nat × Nat)
  | .rcv desc => rcvReturned desc
  | .lroContiguous desc => lroContiguousReturned desc
  | .lro desc descList => lroReturned desc descList
  | .msg _ _ => []

/-- An LRO message for a ring that its handler does not work on: `unm_process_lro`
works on ring 0, `unm_process_lro_contiguous` on ring 1. -/
def Dispatch.Misdirected : Dispatch → Prop
  | .rcv _ => False
  | .lroContiguous desc => desc.lro2Type.toNat ≠ 1
  | .lro desc _ => desc.lroType.toNat ≠ 0
  | .msg _ _ => False

instance Dispatch.decidableMisdirected (call : Dispatch) : Decidable call.Misdirected :=
  match call with
  | .rcv _ => inferInstanceAs (Decidable False)
  | .lroContiguous desc => inferInstanceAs (Decidable (desc.lro2Type.toNat ≠ 1))
  | .lro desc _ => inferInstanceAs (Decidable (desc.lroType.toNat ≠ 0))
  | .msg _ _ => inferInstanceAs (Decidable False)

/-- The card returns handles that it holds, each once. -/
def CanReturn (st : RxState) (call : Dispatch) : Prop :=
  (returned call).Nodup ∧ ∀ x ∈ returned call, x.2 ∈ (st.card x.1).held

instance decidableCanReturn (st : RxState) (call : Dispatch) : Decidable (CanReturn st call) :=
  inferInstanceAs (Decidable (_ ∧ _))

/-- The card no longer holds the buffer. -/
def release (card : Nat → Card) (x : Nat × Nat) : Nat → Card :=
  Function.update card x.1 { card x.1 with held := (card x.1).held.erase x.2 }

/-- The buffer has come back in a message that is dropped. -/
def lose (lost : Nat → List Nat) (x : Nat × Nat) : Nat → List Nat :=
  Function.update lost x.1 (lost x.1 ++ [x.2])

/-- The buffers that are lost once the card has sent the message. -/
def Dispatch.losing (call : Dispatch) (lost : Nat → List Nat) : Nat → List Nat :=
  if call.Misdirected then (returned call).foldl lose lost else lost

/-- The card reads the descriptor in its next slot. -/
def Card.fetch (c : Card) (size : Nat) (hostAddr : Nat → RcvDesc) : Card :=
  ⟨c.read + 1, c.unread.tail, c.held ++ [(hostAddr (c.read % size)).referenceHandle]⟩

/-- The machine.  The card reads the descriptors of the rings it was told of. -/
def rxMachine : Machine RxState RxAction where
  next st
    | .receive s call =>
        if CanReturn st call then
          some { st with
            ctx := handle cfg s st.ctx call
            card := (returned call).foldl release st.card
            lost := call.losing st.lost }
        else none
    | .postFreed t s ring =>
        if st.posters t = none then
          let r := nxPostFreedRxbufs (st.ctx.rdsRings ring) (st.ctx.freeRbufs s ring) ring
          some { st with
            ctx := (st.ctx.setRds ring r.1).setFreeRbufs s ring r.2.1
            posters := Function.update st.posters t r.2.2 }
        else none
    | .postBuffers t ring =>
        if st.posters t = none then
          let r := unmPostRxBuffers (st.ctx.rdsRings ring) ring
          some { st with
            ctx := st.ctx.setRds ring r.1
            posters := Function.update st.posters t r.2 }
        else none
    | .post t =>
        (st.posters t).map fun p =>
          let r := nxPostStep (cfg.ringSize p.ring) (cfg.dmaSize p.ring)
            (cfg.alloc st.ctx.allocs) (st.ctx.rdsRings p.ring) p
          let card := st.card p.ring
          { ctx := { st.ctx.setRds p.ring r.rds with
              allocs := st.ctx.allocs + if r.allocated then 1 else 0 }
            posters := Function.update st.posters t r.poster
            card := Function.update st.card p.ring
              { card with unread := card.unread ++ r.posted.toList }
            fills := Function.update st.fills p.ring
              (st.fills p.ring + if r.unaccounted then 1 else 0)
            lost := st.lost }
    | .fetch ring =>
        if cfg.maxRdsRings ≤ ring ∨ (st.card ring).unread = [] then none
        else some { st with
          card := Function.update st.card ring
            ((st.card ring).fetch (cfg.ringSize ring) (st.ctx.rdsRings ring).hostAddr) }

/-- The state after `initialize_adapter_sw`. -/
def initialRx : RxState where
  ctx := ⟨fun ring => initializeRdsRing (cfg.ringSize ring), fun _ _ => ⟨0, []⟩, 0, []⟩
  posters _ := none
  card _ := ⟨0, [], []⟩
  fills _ := 0
  lost _ := []

/-- The states that runs from there lead to. -/
def ReachableRx (st : RxState) : Prop := ∃ l, (rxMachine cfg).run (initialRx cfg) l = some st

end Rx
end NxNic

import NxNic.Esx.Bounce
import NxNic.Tx.Headers

/-! # Packets that are bounced

`unm_nic_xmit_frame` in the ESX build (`unm_nic_main.c`), with `unm_process_cmd_ring` and the
posting of commands, as far as they deal with bounce buffers.  The transmitter goes from fragment
to fragment, and the completion handler from buffer to buffer, so that the two overlap; what holds
`tx_lock` excludes the rest of what takes it.  The indices of the ring are those of the counters
`posted` and `reaped`.

The state (`World`) has the bounce buffers, the slots with their fragments, and where the two
parties are in a packet (`Call`, `Reaper`); a step of either deals with one part or one buffer.
-/
namespace NxNic
namespace Esx
open Tx

/-- `HDR_CP`. -/
def hdrCp : Nat := 64
/-- `MAX_TCP_HDR`. -/
def maxTcpHdr : Int := 64
/-- `ETH_P_RARP`. -/
def ethPRarp : BitVec 16 := 0x8035

/-- What does not change: the size of the ring, `dma_mask`, and whether the card is a P2. -/
structure Card where
  maxTxDescCount : Nat
  dmaMask : BitVec 64
  revisionP2 : Bool
  pos : 0 < maxTxDescCount
  word : maxTxDescCount ≤ 256 ^ 4

/-- A packet with what else the ESX build reads of it.  Only a TCP packet has a segment size. -/
structure EsxSkb extends Skb where
  ipSummed : Bool := false
  notAligned : Bool := false
  rarp : protocol = ethPRarp → gsoSize = 0

/-- What the kernel answers, with the physical addresses of the parts of the packet and of the
slot's `vlan_buf`.  `uaddr` says that `esx_mcast_egress` leaves a source address. -/
structure EsxIo extends XmitIo where
  pagePhys : Nat → BitVec 64
  vlanPhys : BitVec 64 := 0
  restPhys : BitVec 64 := 0
  uaddr : Bool := false

/-- `unm_cmd_buffer`, with the `bounce_buf` of each of its fragments. -/
structure CmdBuffer where
  skb : Option Nat
  fragCount : BitVec 8
  bounceBuf : Nat → BounceBuf

def CmdBuffer.setBounce (b : CmdBuffer) (j : Nat) (frag : BounceBuf) : CmdBuffer :=
  { b with bounceBuf := Function.update b.bounceBuf j frag }

@[simp] theorem CmdBuffer.setBounce_skb (b : CmdBuffer) (j : Nat) (frag : BounceBuf) :
    (b.setBounce j frag).skb = b.skb := rfl

@[simp] theorem CmdBuffer.setBounce_fragCount (b : CmdBuffer) (j : Nat) (frag : BounceBuf) :
    (b.setBounce j frag).fragCount = b.fragCount := rfl

@[simp] theorem CmdBuffer.setBounce_self (b : CmdBuffer) (j : Nat) (frag : BounceBuf) :
    (b.setBounce j frag).bounceBuf j = frag := Function.update_self ..

theorem CmdBuffer.setBounce_of_ne (b : CmdBuffer) {j k : Nat} (frag : BounceBuf) (h : k ≠ j) :
    (b.setBounce j frag).bounceBuf k = b.bounceBuf k := Function.update_of_ne h _ _

/-! ## Parts of a packet -/

/-- A part of a packet in the order in which they are dealt with: its fragment, whether it can be
mapped, where it is, and the fragments that are given back where it cannot be bounced. -/
structure Piece where
  frag : Nat
  mapped : Bool
  phys : BitVec 64
  len : Nat
  page : Bool
  onFail : List Nat

/-- `vlan_copy`. -/
def vlanCopy (card : Card) (dev : NetDev) (skb : EsxSkb) : Bool :=
  card.revisionP2 && tagged dev skb.toSkb ≠ 0 && skb.ipSummed && skb.notAligned

/-- The linear part: `HDR_CP` bytes of it are a fragment of their own where it is copied to
`vlan_buf` and does not fit.  The lengths pass through 16-bit fields. -/
def headPieces (io : EsxIo) (vlanCopy vlanFrag : Bool) (firstSegLen : Nat) : List Piece :=
  if vlanFrag then
    [⟨1, true, io.restPhys, (firstSegLen - hdrCp) % 65536, false, []⟩,
      ⟨0, true, io.vlanPhys, hdrCp, false, [1]⟩]
  else if vlanCopy then [⟨0, true, io.vlanPhys, firstSegLen % 65536, false, []⟩]
  else [⟨0, io.mapSkb.isSome, io.mapSkb.getD 0, firstSegLen % 65536, false, []⟩]

/-- The loop over the pages, from fragment `i` on. -/
def pagePieces (io : EsxIo) (vlanFrag : Nat) : Nat → List Nat → List Piece
  | _, [] => []
  | i, len :: rest =>
      ⟨i + vlanFrag, (io.mapPage i).isSome, io.pagePhys i, len, true, List.range (i + vlanFrag)⟩ ::
        pagePieces io vlanFrag (i + 1) rest

/-- The local variables of `unm_nic_xmit_frame` once there is room for the packet. -/
structure Job where
  dev : NetDev
  skb : Skb
  vlanFrag : Nat
  uaddr : Bool
  moves : Nat

/-- `fragCount`. -/
def esxFragCount (skb : Skb) (vlanFrag : Nat) : Nat := skb.fragCount + vlanFrag

/-- `no_of_desc`. -/
def esxNoOfDesc (skb : Skb) (vlanFrag : Nat) : Nat := (esxFragCount skb vlanFrag + 3) / 4

/-- How often the loop over the pages goes to the next descriptor. -/
def descMoves (pages : List Piece) : Nat := (pages.filter fun p => p.frag % 4 = 0).length

/-- The slots of the packet: its descriptors, its headers, and the filter of `esx_send_filter`. -/
def Job.slots (job : Job) : Nat :=
  (job.moves + 1) +
    (if lsoPacket job.dev job.skb then headerSlots (lsoHdrLen job.dev job.skb) else 0) +
    (if job.uaddr && job.skb.protocol = ethPRarp then 1 else 0)

/-- `validate_tso`, which finds nothing wrong. -/
def validateTso (dev : NetDev) (skb : Skb) : Bool :=
  !(dev.tsoEnabled && 0 < skb.gsoSize) ||
    (5 ≤ skb.doff && 20 + (skb.doff - 5 : Int) * 4 ≤ maxTcpHdr &&
      skb.transportOffset + (20 + (skb.doff - 5 : Int) * 4) =
        14 + tagged dev skb * 4 + skb.nwHdrLen + skb.doff * 4)

/-! ## The state -/

/-- A call of `unm_nic_xmit_frame` under the lock: the fragments done and the parts to do, or the
fragments that are still to be given back. -/
inductive Call where
  | mapping (job : Job) (done : List Nat) (todo : List Piece)
  | undoing (todo : List Nat)

/-- A call of `unm_process_cmd_ring`: `consumer` is what it has read, and `frag` is the fragment
it has come to. -/
structure Reaper where
  lastConsumer : Nat
  consumer : Nat
  count : Nat
  frag : Nat

/-- `stale` says that a buffer was given back that was not in use, and `overrun` that something was
stored past a `bounce_buf`. -/
structure World where
  bounce : VmkBounce
  cmdBufArr : Nat → CmdBuffer
  posted : Nat
  completed : Nat
  reaped : Nat
  cmdConsumer : Nat
  call : Option Call
  reaper : Option Reaper
  stale : Bool
  overrun : Bool

/-- The buffers are set up, and the ring is empty. -/
def World.initial : World where
  bounce := VmkBounce.initial
  cmdBufArr := fun _ => ⟨none, 0, fun _ _ => none⟩
  posted := 0
  completed := 0
  reaped := 0
  cmdConsumer := 0
  call := none
  reaper := none
  stale := false
  overrun := false

/-! ## The transmitter -/

namespace World
variable (card : Card) (w : World)

def slot : Nat := w.posted % card.maxTxDescCount

/-- `nx_free_frag_bounce_buf` for a fragment of the ring. -/
def freeFrag (s j : Nat) : World :=
  let frag := (w.cmdBufArr s).bounceBuf j
  { w with
    bounce := nxFreeFragBounceBuf frag w.bounce
    stale := w.stale || frag.held.any fun k => !w.bounce.busy k }

/-- There is no room for the packet and two more slots. -/
def ringFull (noOfDesc : Nat) : Bool :=
  Ring.bound card.maxTxDescCount (w.reaped % card.maxTxDescCount) (w.slot card) ≤
    w.slot card + noOfDesc + 2

/-- The packet is put in its slot. -/
def startJob (job : Job) (pieces : List Piece) : World :=
  let b := w.cmdBufArr (w.slot card)
  { w with
    cmdBufArr := Function.update w.cmdBufArr (w.slot card)
      { b with
        skb := some job.skb.id
        fragCount := BitVec.ofNat 8 (esxFragCount job.skb job.vlanFrag) }
    call := some (.mapping job [] pieces) }

/-- `unm_nic_xmit_frame` up to the first mapping.  A packet that is dropped or sent back here
changes nothing. -/
def xmitBegin (dev : NetDev) (io : EsxIo) (skb : EsxSkb) : World :=
  if skb.len = 0 then w
  else
    match linearize io.toXmitIo (tagged dev skb.toSkb) skb.toSkb with
    | none => w
    | some s =>
        let firstSegLen := s.len - s.dataLen
        let copy := vlanCopy card dev skb
        let vlanFrag := copy && hdrCp < firstSegLen
        let pages := pagePieces io vlanFrag.toNat 1 s.frags
        if !dev.carrierOk && !dev.loopbackStart then w
        else if !validateTso dev s then w
        else if w.ringFull card (esxNoOfDesc s vlanFrag.toNat) then w
        else
          w.startJob card ⟨dev, s, vlanFrag.toNat, io.uaddr, descMoves pages⟩
            (headPieces io copy vlanFrag firstSegLen ++ pages)

/-- A part has what buffers it needs, and the loop goes on. -/
def putBounced (job : Job) (done : List Nat) (p : Piece) (rest : List Piece) (r : Bounced) :
    World :=
  { w with
    bounce := r.bounce
    cmdBufArr := Function.update w.cmdBufArr (w.slot card)
      ((w.cmdBufArr (w.slot card)).setBounce p.frag r.frag)
    call := some (.mapping job (done ++ [p.frag]) rest)
    overrun := w.overrun || r.overrun }

/-- One part of the packet.  One that cannot be mapped ends the call; one that cannot be bounced
has the fragments before it given back. -/
def xmitPiece (job : Job) (done : List Nat) (p : Piece) (rest : List Piece) : World :=
  if !p.mapped then { w with call := none }
  else if p.page && card.dmaMask ≤ p.phys + BitVec.ofNat 64 p.len &&
      maxPagesPerFrag * pageSize < p.len then { w with call := some (.undoing p.onFail) }
  else
    let frag := (w.cmdBufArr (w.slot card)).bounceBuf p.frag
    match nxHandleLargeAddr card.dmaMask w.bounce frag p.phys p.len with
    | none => { w with call := some (.undoing p.onFail) }
    | some r => w.putBounced card job done p rest r

/-- The copies of `nx_nic_tso_copy_headers`, which may pass the end of the ring. -/
def headerStores (job : Job) : List Tx.Effect :=
  if lsoPacket job.dev job.skb then
    headerCopies { maxTxDescCount := card.maxTxDescCount, cmdProducer := w.slot card } job.skb
      (job.moves + 1) (lsoHdrLen job.dev job.skb)
  else []

/-- The end of the call: the packet is on the ring. -/
def xmitPost (job : Job) : World :=
  let ring : Adapter := { maxTxDescCount := card.maxTxDescCount, cmdConsumer := w.cmdConsumer }
  { w with
    posted := w.posted + job.slots
    cmdConsumer := (ring.execAll (w.headerStores card job)).cmdConsumer
    call := none }

/-- The next step of the call that holds the lock. -/
def xmitStep : Call → World
  | .mapping job done (p :: rest) => w.xmitPiece card job done p rest
  | .mapping job _ [] => w.xmitPost card job
  | .undoing (j :: rest) => { w.freeFrag (w.slot card) j with call := some (.undoing rest) }
  | .undoing [] => { w with call := none }

/-! ## Commands and completions -/

/-- The stores to `cmd_buf_arr` for `k` commands, from counter `i` on. -/
def clearSlots (n : Nat) : Nat → Nat → (Nat → CmdBuffer) → Nat → CmdBuffer
  | _, 0, arr => arr
  | i, k + 1, arr =>
      clearSlots n (i + 1) k
        (Function.update arr (i % n) { arr (i % n) with skb := none, fragCount := 0 })

/-- `k` commands of `nx_nic_send_cmd_descs` or of `unm_proc_pending_cmd_desc`, if there is room. -/
def sendCommands (k : Nat) : World :=
  if Ring.bound card.maxTxDescCount (w.reaped % card.maxTxDescCount) (w.slot card) ≤
      w.slot card + k then w
  else
    { w with
      cmdBufArr := clearSlots card.maxTxDescCount w.posted k w.cmdBufArr
      posted := w.posted + k }

/-- The fragment that the completion handler has come to is given back. -/
def reapFrag (r : Reaper) : World :=
  { w.freeFrag (r.lastConsumer % card.maxTxDescCount) r.frag with
    reaper := some { r with frag := r.frag + 1 } }

/-- The completion handler goes to the next slot. -/
def reapSlot (r : Reaper) : World :=
  let s := r.lastConsumer % card.maxTxDescCount
  { w with
    cmdBufArr := Function.update w.cmdBufArr s { w.cmdBufArr s with skb := none }
    reaper := some ⟨r.lastConsumer + 1, r.consumer, r.count + 1, 0⟩ }

/-- `unm_process_cmd_ring`: a fragment of a packet is given back, or a slot is left, or the loop is
over.  The first fragment is given back whatever `fragCount` says. -/
def reapStep (r : Reaper) : World :=
  let s := r.lastConsumer % card.maxTxDescCount
  let b := w.cmdBufArr s
  if s = r.consumer ∨ maxStatusHandle ≤ r.count then
    { w with reaped := r.lastConsumer, reaper := none }
  else if b.skb.isSome ∧ r.frag < max 1 b.fragCount.toNat then w.reapFrag card r
  else w.reapSlot card r

end World

inductive Action where
  | xmit (dev : NetDev) (io : EsxIo) (skb : EsxSkb)
  | xmitStep
  | commands (k : Nat)
  | device
  | reap

/-- The transmitter, the completion handler and the device. -/
def machine (card : Card) : Machine World Action where
  next w
    | .xmit dev io skb => if w.call.isNone then some (w.xmitBegin card dev io skb) else none
    | .xmitStep => w.call.map fun call => w.xmitStep card call
    | .commands k => if w.call.isNone then some (w.sendCommands card k) else none
    | .device =>
        if w.completed < w.posted then
          some { w with
            completed := w.completed + 1
            cmdConsumer := (w.completed + 1) % card.maxTxDescCount }
        else none
    | .reap =>
        match w.reaper with
        | none => some { w with reaper := some ⟨w.reaped, w.cmdConsumer, 0, 0⟩ }
        | some r => some (w.reapStep card r)

end Esx
end NxNic

import NxNic.Tx.Types

/-! # Queueing a packet

`unm_nic_xmit_frame` and what it calls (`unm_nic_main.c`), for the native Linux
build with VLAN acceleration: the linearization of packets with too many
fragments, the test for room, the DMA mappings and the descriptors that carry
them, and the copy of an LSO packet's headers into the ring behind them.

What the call cannot decide by itself is in `XmitIo`: whether
`__pskb_pull_tail` finds memory, and which address, if any, every mapping gets.
-/
namespace NxNic
namespace Tx

/-- The parts of an `sk_buff` the transmit path reads.  `frags` are the sizes of
its page fragments, `data` its bytes from `skb->data` on, and `headroom` the two
bytes in front of them. -/
structure Skb where
  id : Nat
  len : Nat
  dataLen : Nat := 0
  frags : List Nat := []
  gsoSize : Nat := 0
  checksumHw : Bool := false
  protocol : BitVec 16 := 0
  vlanTag : Option (BitVec 16) := none
  networkOffset : Int := 14
  transportOffset : Int := 34
  data : Nat → BitVec 8 := fun _ => 0
  headroom : Nat → BitVec 8 := fun _ => 0

/-- The state of the network device that the transmit path reads. -/
structure NetDev where
  carrierOk : Bool := true
  loopbackStart : Bool := false
  hwVlanTx : Bool := true
  tsoEnabled : Bool := true
  portnum : Nat := 0

/-- What the kernel answers during one call. -/
structure XmitIo where
  pullTail : Bool := true
  mapSkb : Option (BitVec 64)
  mapPage : Nat → Option (BitVec 64)

/-- What `unm_nic_xmit_frame` returns. -/
inductive NetdevTx where
  | ok
  | busy
deriving DecidableEq

/-! ## Reading the packet -/

/-- The 16-bit field in network order at byte `i` of the packet. -/
def Skb.be16 (skb : Skb) (i : Nat) : BitVec 16 := skb.data i ++ skb.data (i + 1)

/-- `is_packet_tagged`. -/
def isPacketTagged (skb : Skb) : Bool := skb.be16 12 = 0x8100

/-- `tagged` of `unm_nic_xmit_frame`: looked up only without VLAN acceleration. -/
def tagged (dev : NetDev) (skb : Skb) : Nat :=
  if dev.hwVlanTx then 0 else (isPacketTagged skb).toNat

/-- `PROTO_IS_IP`. -/
def protoIsIp (skb : Skb) (tagged : Nat) : Bool :=
  skb.protocol = 0x0800 || (tagged ≠ 0 && skb.be16 16 = 0x0800)

/-- `PROTO_IS_IPV6`. -/
def protoIsIpv6 (skb : Skb) (tagged : Nat) : Bool :=
  skb.protocol = 0x86dd || (tagged ≠ 0 && skb.be16 16 = 0x86dd)

/-- The transport protocol of an IPv4 packet. -/
def Skb.ipProtocol (skb : Skb) : BitVec 8 := skb.data (skb.networkOffset + 9).toNat

/-- The transport protocol of an IPv6 packet. -/
def Skb.nexthdr (skb : Skb) : BitVec 8 := skb.data (skb.networkOffset + 6).toNat

/-- `TCP_HDR(skb)->doff`. -/
def Skb.doff (skb : Skb) : Nat := (skb.data (skb.transportOffset + 12).toNat).toNat / 16

/-- `NW_HDR_LEN`. -/
def Skb.nwHdrLen (skb : Skb) : Int := skb.transportOffset - skb.networkOffset

/-! ## Packets with too many fragments -/

/-- What is left of the fragments when `eat` bytes are pulled off their front. -/
def eatFrags : Nat → List Nat → List Nat
  | _, [] => []
  | eat, size :: rest =>
      if size ≤ eat then eatFrags (eat - size) rest else (size - eat) :: eatFrags 0 rest

/-- `__pskb_pull_tail`: `delta` bytes move from the fragments to the linear part. -/
def pskbPullTail (skb : Skb) (delta : Nat) : Skb :=
  { skb with dataLen := skb.dataLen - delta, frags := eatFrags delta skb.frags }

/-- The packet as it is transmitted: the first fragments of a packet that has
too many are pulled into its linear part.  `none` when that fails. -/
def linearize (io : XmitIo) (tagged : Nat) (skb : Skb) : Option Skb :=
  let excess := 1 + skb.frags.length - (nxNicMaxSgPerTx - tagged)
  if excess = 0 then some skb
  else if io.pullTail then some (pskbPullTail skb (skb.frags.take excess).sum)
  else none

/-- `fragCount`: the linear part and the page fragments. -/
def Skb.fragCount (skb : Skb) : Nat := 1 + skb.frags.length

/-- `no_of_desc`: four fragments go in a descriptor. -/
def Skb.noOfDesc (skb : Skb) : Nat := (skb.fragCount + 3) / 4

/-! ## The fragments of a packet -/

/-- The length and address of buffer `k` of a descriptor. -/
def CmdDescType0.setBuffer (d : CmdDescType0) (k len : Nat) (dma : BitVec 64) : CmdDescType0 :=
  match k with
  | 0 => { d with buffer1Length := BitVec.ofNat 16 len, addrBuffer1 := dma }
  | 1 => { d with buffer2Length := BitVec.ofNat 16 len, addrBuffer2 := dma }
  | 2 => { d with buffer3Length := BitVec.ofNat 16 len, addrBuffer3 := dma }
  | 3 => { d with buffer4Length := BitVec.ofNat 16 len, addrBuffer4 := dma }
  | _ => d

/-- The entry of `cmd_buf_arr` with fragment `i` recorded. -/
def UnmCmdBuffer.setFrag (b : UnmCmdBuffer) (i : Nat) (f : UnmSkbFrag) : UnmCmdBuffer :=
  { b with fragArray := Function.update b.fragArray i f }

/-- `netxen_clean_tx_dma_mapping`: fragments `0`, …, `last - 1` are unmapped,
fragment `0` in any case. -/
def cleanTxDmaMapping (b : UnmCmdBuffer) (last : Nat) : List Effect :=
  (List.range (max 1 last)).map fun k => .unmap (b.fragArray k).dma (b.fragArray k).length

/-- The local variables of `unm_nic_xmit_frame`: `producer` with the number of
steps it has made, the buffer position `k`, the descriptor `hwdesc` points to,
the packet's first descriptor, and its entry of `cmd_buf_arr`. -/
structure XmitLocals where
  producer : Nat
  moved : Nat
  k : Nat
  hwdesc : CmdDescType0
  first : CmdDescType0
  pbuf : UnmCmdBuffer

/-- `hwdesc` moves to the next slot, which is cleared. -/
def XmitLocals.nextDesc (n : Nat) (v : XmitLocals) : XmitLocals :=
  { v with producer := Ring.next n v.producer, moved := v.moved + 1, k := 0, hwdesc := {} }

/-- Fragment `i` is recorded in the descriptor and in `cmd_buf_arr`. -/
def XmitLocals.putFrag (v : XmitLocals) (i len : Nat) (dma : BitVec 64) : XmitLocals :=
  let d := v.hwdesc.setBuffer v.k len dma
  { v with
    k := v.k + 1
    hwdesc := d
    first := if v.moved = 0 then d else v.first
    pbuf := v.pbuf.setFrag i ⟨dma, len⟩ }

/-- The loop over the page fragments, from fragment `i` on.  It stops at the
first one that cannot be mapped, after undoing the mappings made before. -/
def mapFrags (io : XmitIo) (n saved : Nat) :
    List Nat → Nat → XmitLocals → List Effect × Option XmitLocals
  | [], _, v => ([], some v)
  | len :: rest, i, v =>
      let w := if v.k % 4 = 0 then v.nextDesc n else v
      let clear : List Effect := if v.k % 4 = 0 then [.desc w.producer w.hwdesc] else []
      match io.mapPage i with
      | none => (clear ++ cleanTxDmaMapping w.pbuf i, none)
      | some dma =>
          let x := w.putFrag i len dma
          let r := mapFrags io n saved rest (i + 1) x
          (clear ++ [.map dma len, .buf saved x.pbuf, .desc x.producer x.hwdesc] ++ r.1, r.2)

/-! ## The headers of an LSO packet -/

def txEtherPkt : Nat := 0x01
def txTcpPkt : BitVec 6 := 0x02
def txUdpPkt : BitVec 6 := 0x03
def txTcpLso : BitVec 6 := 0x05
def txTcpLso6 : BitVec 6 := 0x06
def txTcpv6Pkt : BitVec 6 := 0x0b
def txUdpv6Pkt : BitVec 6 := 0x0c
def flagsVlanTagged : BitVec 7 := 0x10
def flagsVlanOob : BitVec 7 := 0x40

/-- The last two assignments of `nx_nic_check_tso`. -/
def setHdrOffsets (skb : Skb) (d : CmdDescType0) : CmdDescType0 :=
  { d with
    tcpHdrOffset := BitVec.ofInt 8 skb.transportOffset
    ipHdrOffset := BitVec.ofInt 8 skb.networkOffset }

/-- The header length `nx_nic_check_tso` computes, before it is stored. -/
def tsoHdrLen (skb : Skb) (tagged : Nat) : Int :=
  14 + tagged * vlanHlen + skb.nwHdrLen + skb.doff * 4

/-- `nx_nic_check_tso`. -/
def nxNicCheckTso (skb : Skb) (tagged : Nat) (d : CmdDescType0) : CmdDescType0 :=
  if d.mss ≠ 0 then
    let d := { d with totalHdrLength := BitVec.ofInt 8 (tsoHdrLen skb tagged) }
    let d :=
      if protoIsIp skb tagged then { d with opcode := txTcpLso }
      else if protoIsIpv6 skb tagged then { d with opcode := txTcpLso6 }
      else d
    setHdrOffsets skb d
  else if skb.checksumHw then
    if protoIsIp skb tagged then
      if skb.ipProtocol = 6 then setHdrOffsets skb { d with opcode := txTcpPkt }
      else if skb.ipProtocol = 17 then setHdrOffsets skb { d with opcode := txUdpPkt }
      else d
    else if protoIsIpv6 skb tagged then
      if skb.nexthdr = 6 then setHdrOffsets skb { d with opcode := txTcpv6Pkt }
      else if skb.nexthdr = 17 then setHdrOffsets skb { d with opcode := txUdpv6Pkt }
      else d
    else setHdrOffsets skb d
  else setHdrOffsets skb d

/-- The bytes from `skb->data + i` on. -/
def Skb.bytesFrom (skb : Skb) (i : Nat) : Nat → BitVec 8 := fun j => skb.data (i + j)

/-- An `int` as the `size_t` argument of `memcpy`. -/
def sizeT (x : Int) : Nat := (x % 2 ^ 64).toNat

/-- The first descriptor after the out-of-band VLAN tag, if there is one, has
been put in it. -/
def vlanOob (skb : Skb) (d : CmdDescType0) : CmdDescType0 :=
  match skb.vlanTag with
  | none => d
  | some vid =>
      { d with
        flags := d.flags ||| flagsVlanOob
        mcastAddr := vid ++ d.mcastAddr.extractLsb' 0 48 }

/-- The further changes an LSO packet's out-of-band tag makes. -/
def vlanOobLso (skb : Skb) (d : CmdDescType0) : CmdDescType0 :=
  match skb.vlanTag with
  | none => d
  | some _ =>
      { d with
        totalHdrLength := d.totalHdrLength + BitVec.ofNat 8 vlanHlen
        tcpHdrOffset := d.tcpHdrOffset + BitVec.ofNat 8 vlanHlen
        ipHdrOffset := d.ipHdrOffset + BitVec.ofNat 8 vlanHlen
        flags := d.flags ||| flagsVlanTagged }

def CmdDescType0.isLso (d : CmdDescType0) : Bool := d.opcode = txTcpLso || d.opcode = txTcpLso6

/-- The bytes of the header that go in the first header slot. -/
def firstHdrLen (hdrLen : Nat) : Nat := min hdrLen (descSize - ipAlignmentBytes)

/-- The copies into the first header slot, whose memory begins at byte `dst`. -/
def copyFirst (skb : Skb) (dst hdrLen : Nat) : List Effect :=
  match skb.vlanTag with
  | some vid =>
      [.copy dst (fun j => if j < 2 then skb.headroom j else skb.data (j - 2)) 16,
        .copy (dst + 14) (fun j => if j = 0 then 0x81 else 0x00) 2,
        .copy (dst + 16) (fun j => if j = 0 then vid.extractLsb' 8 8 else vid.extractLsb' 0 8) 2,
        .copy (dst + 18) (skb.bytesFrom 12) (sizeT ((firstHdrLen hdrLen : Int) - 16))]
  | none => [.copy (dst + ipAlignmentBytes) (skb.bytesFrom 0) (firstHdrLen hdrLen)]

/-- The copy into the second header slot, whose memory begins at byte `dst`. -/
def copyMore (skb : Skb) (dst hdrLen : Nat) : List Effect :=
  let done := firstHdrLen hdrLen
  [.copy dst (skb.bytesFrom (if skb.vlanTag.isSome then done - vlanHlen else done))
    (hdrLen - done)]

/-- The store of the first descriptor that an out-of-band tag causes. -/
def storeTag (skb : Skb) (saved : Nat) (d : CmdDescType0) : List Effect :=
  if skb.vlanTag.isSome then [.desc saved d] else []

/-- `nx_nic_tso_copy_headers`, at producer `prod`, with the packet's first
descriptor `d` in slot `saved`.  The result has the effects, the producer after
the copies, and the number of slots they took. -/
def nxNicTsoCopyHeaders (n : Nat) (skb : Skb) (saved prod : Nat) (d : CmdDescType0) :
    List Effect × Nat × Nat :=
  let d := vlanOob skb d
  if d.isLso then
    let d := vlanOobLso skb d
    let hdrLen := d.totalHdrLength.toNat
    let es := storeTag skb saved d ++ copyFirst skb (descSize * prod) hdrLen
    let prod := Ring.next n prod
    if descSize - ipAlignmentBytes < hdrLen then
      (es ++ copyMore skb (descSize * prod) hdrLen, Ring.next n prod, 2)
    else (es, prod, 1)
  else (storeTag skb saved d, prod, 0)

/-! ## The call -/

/-- The segment size put in the descriptor: zero unless the packet is to be
segmented by the card. -/
def xmitMss (dev : NetDev) (skb : Skb) : Nat :=
  if 0 < skb.gsoSize ∧ dev.tsoEnabled then skb.gsoSize else 0

/-- The packet's entry of `cmd_buf_arr` before anything is mapped. -/
def xmitPbuf (dev : NetDev) (skb : Skb) (old : UnmCmdBuffer) : UnmCmdBuffer :=
  { old with
    mss := xmitMss dev skb
    totalLength := skb.len
    skb := some skb.id
    cmd := BitVec.ofNat 8 txEtherPkt
    fragCount := BitVec.ofNat 8 skb.fragCount
    port := BitVec.ofNat 16 dev.portnum }

/-- The packet's first descriptor once its linear part is mapped. -/
def xmitFirst (dev : NetDev) (skb : Skb) (dma : BitVec 64) : CmdDescType0 :=
  { mss := BitVec.ofNat 16 (xmitMss dev skb)
    totalLength := BitVec.ofNat 24 skb.len
    numOfBuffers := BitVec.ofNat 8 skb.fragCount
    opcode := BitVec.ofNat 6 txEtherPkt
    port := BitVec.ofNat 4 dev.portnum
    ctxId := BitVec.ofNat 4 dev.portnum
    buffer1Length := BitVec.ofNat 16 (skb.len - skb.dataLen)
    addrBuffer1 := dma }

/-- The descriptor of a packet all of whose fragments are mapped, after
`nx_nic_check_tso`. -/
def xmitChecked (skb : Skb) (tagged : Nat) (d : CmdDescType0) : CmdDescType0 :=
  let d := nxNicCheckTso skb tagged d
  if tagged ≠ 0 then { d with flags := d.flags ||| flagsVlanTagged } else d

/-- The end of the call, once every fragment is mapped: the headers are copied
and the new producer is made known. -/
def xmitFinish (n : Nat) (skb : Skb) (tagged saved : Nat) (v : XmitLocals) : List Effect :=
  let d := xmitChecked skb tagged v.first
  let r := nxNicTsoCopyHeaders n skb saved (Ring.next n v.producer) d
  .desc saved d :: r.1 ++ [.produce r.2.1 (v.moved + 1 + r.2.2), .doorbell r.2.1]

/-- The local variables when the loop over the fragments begins. -/
def xmitLocals (dev : NetDev) (skb : Skb) (a : Adapter) (dma : BitVec 64) : XmitLocals where
  producer := a.cmdProducer
  moved := 0
  k := 1
  hwdesc := xmitFirst dev skb dma
  first := xmitFirst dev skb dma
  pbuf := (xmitPbuf dev skb (a.cmdBufArr a.cmdProducer)).setFrag 0 ⟨dma, skb.len - skb.dataLen⟩

/-- The call from the point where there is room on the ring.  The slot's entry
of `cmd_buf_arr` names the packet before its linear part is mapped. -/
def xmitQueue (dev : NetDev) (io : XmitIo) (skb : Skb) (a : Adapter) : List Effect :=
  let n := a.maxTxDescCount
  let saved := a.cmdProducer
  let pbuf := xmitPbuf dev skb (a.cmdBufArr saved)
  let start : List Effect :=
    [.desc saved { mss := BitVec.ofNat 16 (xmitMss dev skb) }, .buf saved pbuf]
  match io.mapSkb with
  | none => start ++ [.kfreeSkb skb.id]
  | some dma =>
      let v := xmitLocals dev skb a dma
      let mapped : List Effect :=
        [.map dma (skb.len - skb.dataLen), .buf saved v.pbuf, .desc saved v.first]
      let r := mapFrags io n saved skb.frags 1 v
      match r.2 with
      | none => start ++ mapped ++ r.1 ++ [.kfreeSkb skb.id]
      | some v => start ++ mapped ++ r.1 ++ xmitFinish n skb (tagged dev skb) saved v

/-- There is no room for the packet and two header slots. -/
def ringFull (a : Adapter) (skb : Skb) : Prop :=
  Ring.bound a.maxTxDescCount a.lastCmdConsumer a.cmdProducer ≤ a.cmdProducer + skb.noOfDesc + 2

instance (a : Adapter) (skb : Skb) : Decidable (ringFull a skb) := by
  unfold ringFull; infer_instance

/-- `unm_nic_xmit_frame`. -/
def unmNicXmitFrame (dev : NetDev) (io : XmitIo) (skb : Skb) (a : Adapter) :
    List Effect × NetdevTx :=
  if skb.len = 0 then ([.kfreeSkb skb.id], .ok)
  else
    match linearize io (tagged dev skb) skb with
    | none => ([.kfreeSkb skb.id], .ok)
    | some skb =>
        if !dev.carrierOk && !dev.loopbackStart then ([.kfreeSkb skb.id], .ok)
        else if ringFull a skb then ([.stopQueue], .busy)
        else (xmitQueue dev io skb a, .ok)

end Tx
end NxNic

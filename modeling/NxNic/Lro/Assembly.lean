import NxNic.Lib.Checksum
import NxNic.Rx.Handlers
import NxNic.Rx.VlanTag

/-! # The packets that LRO makes

The card puts the packets of a flow into buffers of their own and tells the host
where their payloads begin.  `unm_process_lro` chains the buffers behind the first
one and makes its headers those of one large packet; `unm_process_lro_contiguous`
gets a buffer that the card has put together itself, and only completes its headers.

The state is the buffers' memory, with where the data of each begins and how long it is; the
functions move these and store into the headers.  `LroSkb.bytes` is the packet that the kernel
gets, the data of the first buffer and of those chained to it.

What the functions have to make of it is said field by field, with all other bytes as they
were: `Merged` for the headers of a chain, whose length, checksum, push bit, acknowledgement and
timestamp are those of the whole, and `Completed` for those of a packet that the card has put
together.  The loop over the chain adds a payload in each round, by which
`unmProcessLroPacket_onePacket` has any number of packets; the checksum is that of `Lib/Checksum`.
-/
namespace NxNic

/-- `htonl` -/
def Endian.htonl : Endian → BitVec 32 → BitVec 32
  | .little, x => swap x
  | .big, x => x

/-! ## Descriptors -/

namespace Rx.StatusDesc

/-! `nx_lro_hdr_desc_t`, and what of `nx_lro2_hdr_desc_t` is in the same place. -/
def lroLength (d : StatusDesc) : BitVec 16 := d.body0.extractLsb' 16 16
def l2HdrOffset (d : StatusDesc) : BitVec 8 := d.body0.extractLsb' 32 8
def dataOffset (d : StatusDesc) : BitVec 8 := d.body0.extractLsb' 40 8
def psh (d : StatusDesc) : Bool := d.body0.getLsbD 52

/-! `nx_lro2_hdr_desc_t`. -/
def l4HdrOffset (d : StatusDesc) : BitVec 8 := d.body0.extractLsb' 40 8
def timestamp (d : StatusDesc) : Bool := d.body0.getLsbD 48
def seqNumber (d : StatusDesc) : BitVec 32 := d.body1.extractLsb' 0 32

/-- `lro_frags.pkts[j].s.length` -/
def fragLength (d : StatusDesc) (j : Nat) : BitVec 16 :=
  if j < 2 then d.body0.extractLsb' (32 * j + 16) 16
  else d.body1.extractLsb' (32 * (j - 2) + 16) 16

end Rx.StatusDesc

namespace Lro
open Words Rx

/-! ## Socket buffers -/

/-- `skb_put` -/
def skbPut (skb : SkBuff) (n : Nat) : SkBuff := { skb with len := skb.len + n }

/-- `skb_push`; without the room for it the kernel panics. -/
def skbPush (skb : SkBuff) (n : Nat) : SkBuff :=
  if h : n + 2 ≤ skb.data then
    { skb with data := skb.data - n, len := skb.len + n, headroom := Nat.le_sub_of_add_le' h }
  else skb

/-- `ETH_HLEN` -/
def ethHlen : Nat := 14

/-- `eth_type_trans`, which pulls the header of the frame. -/
def ethTypeTrans (skb : SkBuff) : SkBuff := skb.skbPull ethHlen

/-- A buffer with others in its `frag_list`; its length is that of all of them. -/
structure LroSkb where
  head : SkBuff
  dataLen : Nat
  fragList : List SkBuff

/-- The bytes of the packet. -/
def LroSkb.bytes (p : LroSkb) : List (BitVec 8) :=
  p.head.frame.take (p.head.len - p.dataLen) ++ p.fragList.flatMap SkBuff.frame

/-! ## Headers -/

/-- `iph->ihl` -/
def ihl (m : Bytes) (iph : Nat) : Nat := (m iph &&& 0xf).toNat

/-- `th->doff` -/
def doff (m : Bytes) (th : Nat) : Nat := (m (th + 12) >>> 4).toNat

/-- `ip_fast_csum` -/
def ipFastCsum (e : Endian) (m : Bytes) (iph n : Nat) : BitVec 16 :=
  Checksum.fold (Checksum.wordSum e m iph (2 * n))

/-- `iph->tot_len` is set, and `iph->check` made anew. -/
def setTotLen (e : Endian) (m : Bytes) (iph : Nat) (length : BitVec 16) : Bytes :=
  let m := e.store m (iph + 2) (e.htons length)
  let m := e.store m (iph + 10) 0#16
  e.store m (iph + 10) (ipFastCsum e m iph (ihl m iph))

/-- `th->psh` -/
def setPsh (m : Bytes) (th : Nat) (psh : Bool) : Bytes := fun k =>
  if k = th + 13 then (m k &&& ~~~8) ||| (if psh then 8 else 0) else m k

/-- `TCP_HDR_SIZE`, `TCP_TS_OPTION_SIZE` and `TCP_TS_HDR_SIZE` -/
def tcpHdrSize : Nat := 20
def tcpTsOptionSize : Nat := 12
def tcpTsHdrSize : Nat := 32

/-- `lro_adjust_head_skb` -/
def lroAdjustHeadSkb (e : Endian) (headSkb tailSkb : SkBuff) (incrLen : BitVec 16) (psh : Bool) :
    SkBuff × SkBuff :=
  let iph := headSkb.data
  let length := e.htons (e.load 16 headSkb.mem (iph + 2)) + incrLen
  let headSkb := { headSkb with mem := setTotLen e headSkb.mem iph length }
  let headSkb := headSkb.skbPull (4 * ihl headSkb.mem iph)
  let headTh := headSkb.data
  let m := setPsh headSkb.mem headTh psh
  let tailSkb := skbPush tailSkb (4 * doff m headTh)
  let m := e.store m (headTh + 8) (e.load 32 tailSkb.mem (tailSkb.data + 8))
  let m := if 5 < doff m headTh then
      copy m (headTh + tcpHdrSize) tcpTsOptionSize fun i =>
        tailSkb.mem (tailSkb.data + tcpHdrSize + i)
    else m
  let tailSkb := tailSkb.skbPull (4 * doff m headTh)
  (skbPush { headSkb with mem := m } (4 * ihl m iph), tailSkb)

/-- `lro2_adjust_skb` -/
def lro2AdjustSkb (e : Endian) (skb : SkBuff) (desc : StatusDesc) : SkBuff :=
  let iph := skb.data
  let skb := skb.skbPull (4 * ihl skb.mem iph)
  let th := skb.data
  let skb := skbPush skb (4 * ihl skb.mem iph)
  let length := BitVec.ofNat 16
    (4 * ihl skb.mem iph + 4 * doff skb.mem th + desc.lro2Length.toNat)
  let m := setTotLen e skb.mem iph length
  let m := setPsh m th desc.psh
  { skb with mem := e.store m (th + 4) (e.htonl desc.seqNumber) }

/-! ## Packets -/

/-- The handles and the lengths in the descriptors after the first. -/
def lroPkts (descList : List StatusDesc) : List (Nat × Nat) :=
  descList.flatMap fun d => (List.range nxLroPktsPerStatusDesc).map fun jj =>
    ((d.fragRefHandle jj).toNat, (d.fragLength jj).toNat)

section Packets
variable (e : Endian) (bufs : Nat → SkBuff) (desc : StatusDesc)

/-- The loop over the buffers behind the first one, while `nr_skbs` is not zero: the
chain, and the bytes in it. -/
def chainLoop : List (Nat × Nat) → Int → List SkBuff → Nat → List SkBuff × Nat
  | [], _, fragList, dataLength => (fragList, dataLength)
  | (refHandle, length) :: rest, nrSkbs, fragList, dataLength =>
    if nrSkbs = 0 then (fragList, dataLength)
    else
      let skb := skbPut (bufs refHandle) (desc.dataOffset.toNat + length)
      let skb := skb.skbPull desc.dataOffset.toNat
      chainLoop rest (nrSkbs - 1) (fragList ++ [skb]) (dataLength + length)

/-- The packet that `unm_process_lro` hands on. -/
def unmProcessLroPacket (descList : List StatusDesc) : LroSkb :=
  let head := skbPut (bufs desc.lroRefHandle.toNat)
    (desc.dataOffset.toNat + desc.lroLength.toNat)
  let head := ethTypeTrans (head.skbPull desc.l2HdrOffset.toNat)
  let chain := chainLoop bufs desc (lroPkts descList) (desc.lroCount.toNat - 1) [] 0
  let head := { head with len := head.len + chain.2 }
  match chain.1.getLast? with
  | none => ⟨head, chain.2, chain.1⟩
  | some last =>
    let r := lroAdjustHeadSkb e head last (BitVec.ofNat 16 chain.2) desc.psh
    ⟨r.1, chain.2, chain.1.dropLast ++ [r.2]⟩

/-- The packet that `unm_process_lro_contiguous` hands on. -/
def unmProcessLroContiguousPacket : SkBuff :=
  let dataOffset := desc.l4HdrOffset.toNat + if desc.timestamp then tcpTsHdrSize else tcpHdrSize
  let skb := skbPut (bufs desc.lro2RefHandle.toNat) (dataOffset + desc.lro2Length.toNat)
  let skb := skb.skbPull desc.l2HdrOffset.toNat
  let skb := (check8021q e skb (-1)).1
  lro2AdjustSkb e (ethTypeTrans skb) desc

end Packets

/-! ## The headers that are made -/

section Headers
variable {e : Endian} {m : Bytes} {iph th : Nat}

theorem store_of_not_mem {w : Nat} (m : Bytes) {a k : Nat} (x : BitVec w)
    (h : k < a ∨ a + w / 8 ≤ k) : e.store m a x k = m k := by
  rw [Endian.store_eq, store_apply, if_neg (by omega)]

theorem store_store {w : Nat} (m : Bytes) (a : Nat) (x y : BitVec w) :
    e.store (e.store m a x) a y = e.store m a y := by
  rw [Endian.store_eq, Endian.store_eq, Endian.store_eq]
  funext k
  rw [store_apply, store_apply, store_apply]
  split <;> rfl

/-- A word that is moved from one buffer to another. -/
theorem store_load_apply {w : Nat} (hw : 8 ∣ w) (m src : Bytes) {a b i : Nat} (hi : i < w / 8) :
    e.store m a (e.load w src b) (a + i) = src (b + i) := by
  rw [Endian.store_eq, Endian.load_eq hw, Endian.cpuToLe_cpuToLe hw, store_apply,
    if_pos (by omega), Nat.add_sub_cancel_left, byte_load _ _ _ (by omega), if_pos hi]

theorem load16_congr (m m' : Bytes) {k : Nat} (h : m k = m' k) (h' : m (k + 1) = m' (k + 1)) :
    e.load 16 m k = e.load 16 m' k := by
  rw [Endian.load_eq (by decide), Endian.load_eq (by decide)]
  refine congrArg _ (load_congr fun i hi hlt => ?_)
  obtain rfl | rfl : i = k ∨ i = k + 1 := by omega
  · exact h
  · exact h'

/-- The bytes of the IP header that change. -/
def IsTotLenOrCheck (iph k : Nat) : Prop := k = iph + 2 ∨ k = iph + 3 ∨ k = iph + 10 ∨ k = iph + 11

theorem setTotLen_of_not {length : BitVec 16} {k : Nat} (h : ¬ IsTotLenOrCheck iph k) :
    setTotLen e m iph length k = m k := by
  rw [IsTotLenOrCheck] at h
  rw [setTotLen, store_of_not_mem _ _ (by omega), store_of_not_mem _ _ (by omega),
    store_of_not_mem _ _ (by omega)]

theorem not_isTotLenOrCheck_self : ¬ IsTotLenOrCheck iph iph := by
  rw [IsTotLenOrCheck]
  omega

theorem ihl_setTotLen (length : BitVec 16) : ihl (setTotLen e m iph length) iph = ihl m iph := by
  rw [ihl, setTotLen_of_not not_isTotLenOrCheck_self, ihl]

theorem ihl_lt (m : Bytes) (iph : Nat) : ihl m iph < 16 := by
  rw [ihl, BitVec.toNat_and]
  exact Nat.lt_of_le_of_lt Nat.and_le_right (by decide)

theorem totLen_setTotLen (length : BitVec 16) :
    e.htons (e.load 16 (setTotLen e m iph length) (iph + 2)) = length := by
  rw [setTotLen, Checksum.load_store_of_ne e (by omega), Checksum.load_store_of_ne e (by omega),
    Checksum.load_store, Endian.htons_htons]

/-- **The checksum of the header** is right after its length has been set. -/
theorem valid_setTotLen (length : BitVec 16) (h : 5 ≤ ihl m iph) :
    Checksum.Valid e (setTotLen e m iph length) iph (2 * ihl m iph) := by
  set m₁ := e.store m (iph + 2) (e.htons length) with hm₁
  have hihl : ihl (e.store m₁ (iph + 10) 0#16) iph = ihl m iph := by
    rw [ihl, store_of_not_mem _ _ (by omega), hm₁, store_of_not_mem _ _ (by omega), ihl]
  have hvalid := Checksum.valid_store_fold e m₁ iph (n := 2 * ihl m iph) (j := 5) (by omega)
    (by have := ihl_lt m iph; omega)
  have hset : setTotLen e m iph length = e.store m₁ (iph + 10)
      (Checksum.fold (Checksum.wordSum e (e.store m₁ (iph + 10) 0#16) iph (2 * ihl m iph))) := by
    rw [setTotLen, ← hm₁, hihl, store_store]
    rfl
  rw [hset]
  exact hvalid

end Headers

/-! ## The headers of a chain -/

/-- The bytes of the headers that change when packets are chained. -/
def IsMerged (iph th : Nat) (timestamp : Prop) (k : Nat) : Prop :=
  IsTotLenOrCheck iph k ∨ (th + 8 ≤ k ∧ k < th + 12) ∨ k = th + 13 ∨
    (timestamp ∧ th + 20 ≤ k ∧ k < th + 32)

/-- The headers at `iph` of a packet, with `incrLen` bytes more behind it: the length
and the checksum are right, the acknowledgement and the timestamp are those of the
last packet, and all else is as it was. -/
structure Merged (e : Endian) (m : Bytes) (iph : Nat) (incrLen : BitVec 16) (psh : Bool)
    (last : Bytes) (lastTh : Nat) (m' : Bytes) : Prop where
  totLen : e.htons (e.load 16 m' (iph + 2)) = e.htons (e.load 16 m (iph + 2)) + incrLen
  check : Checksum.Valid e m' iph (2 * ihl m iph)
  pushed : m' (iph + 4 * ihl m iph + 13) =
    (m (iph + 4 * ihl m iph + 13) &&& ~~~8) ||| (if psh then 8 else 0)
  ackSeq : ∀ i, i < 4 → m' (iph + 4 * ihl m iph + 8 + i) = last (lastTh + 8 + i)
  timestamp : 5 < doff m (iph + 4 * ihl m iph) →
    ∀ i, i < 12 → m' (iph + 4 * ihl m iph + 20 + i) = last (lastTh + 20 + i)
  rest : ∀ k, ¬ IsMerged iph (iph + 4 * ihl m iph) (5 < doff m (iph + 4 * ihl m iph)) k → m' k = m k

section Chains
variable {e : Endian}

theorem skbPull_eq (skb : SkBuff) {n : Nat} (h : n ≤ skb.len) :
    skb.skbPull n =
      ⟨skb.mem, skb.data + n, skb.len - n, Nat.le_add_right_of_le skb.headroom⟩ := by
  rw [SkBuff.skbPull, if_neg (Nat.not_lt.mpr h)]

theorem skbPull_skbPush (skb : SkBuff) {n : Nat} (h : n + 2 ≤ skb.data) :
    (skbPush skb n).skbPull n = skb := by
  rw [skbPush, dif_pos h, SkBuff.skbPull, if_neg (Nat.not_lt.mpr (Nat.le_add_left _ _))]
  cases skb with
  | mk mem data len headroom =>
    simp only [SkBuff.mk.injEq, true_and]
    exact ⟨Nat.sub_add_cancel (Nat.le_of_add_right_le h), Nat.add_sub_cancel len n⟩

theorem skbPush_skbPull (skb : SkBuff) {n : Nat} (h : n ≤ skb.len) (m : Bytes) :
    skbPush { skb.skbPull n with mem := m } n = { skb with mem := m } := by
  have hroom := skb.headroom
  rw [skbPull_eq skb h, skbPush, dif_pos (by show n + 2 ≤ skb.data + n; omega)]
  simp only [SkBuff.mk.injEq, true_and]
  exact ⟨Nat.add_sub_cancel skb.data n, Nat.sub_add_cancel h⟩

theorem setPsh_of_ne {m : Bytes} {th k : Nat} (psh : Bool) (h : k ≠ th + 13) :
    setPsh m th psh k = m k := if_neg h

/-- **The headers of the first packet** are made those of the chain, and the last
packet is left alone. -/
theorem lroAdjustHeadSkb_spec (head tail : SkBuff) (incrLen : BitVec 16) (psh : Bool)
    (hihl : 5 ≤ ihl head.mem head.data) (hlen : 4 * ihl head.mem head.data ≤ head.len)
    (hroom : 4 * doff head.mem (head.data + 4 * ihl head.mem head.data) + 2 ≤ tail.data) :
    ∃ m', lroAdjustHeadSkb e head tail incrLen psh = ({ head with mem := m' }, tail) ∧
      Merged e head.mem head.data incrLen psh tail.mem
        (tail.data - 4 * doff head.mem (head.data + 4 * ihl head.mem head.data)) m' := by
  obtain ⟨m, iph, len, headroom⟩ := head
  obtain ⟨last, dataTail, lenTail, headroomTail⟩ := tail
  dsimp only at hihl hlen hroom ⊢
  set n := ihl m iph with hn
  set th := iph + 4 * n with hth
  set d := doff m th with hd
  set t := dataTail - 4 * d with ht
  -- the memory of the first buffer after each of its changes
  obtain ⟨m₁, hm₁⟩ : ∃ m₁, setTotLen e m iph (e.htons (e.load 16 m (iph + 2)) + incrLen) = m₁ :=
    ⟨_, rfl⟩
  obtain ⟨m₂, hm₂⟩ : ∃ m₂, setPsh m₁ th psh = m₂ := ⟨_, rfl⟩
  obtain ⟨m₃, hm₃⟩ : ∃ m₃, e.store m₂ (th + 8) (e.load 32 last (t + 8)) = m₃ := ⟨_, rfl⟩
  obtain ⟨m₄, hm₄⟩ : ∃ m₄, (if 5 < d then copy m₃ (th + tcpHdrSize) tcpTsOptionSize
      fun i => last (t + tcpHdrSize + i) else m₃) = m₄ := ⟨_, rfl⟩
  have hm₃_apply : ∀ k, k < th + 8 ∨ th + 12 ≤ k → m₃ k = m₂ k := by
    intro k hk
    rw [← hm₃, store_of_not_mem _ _ (by omega)]
  have hm₂_apply : ∀ k, k ≠ th + 13 → m₂ k = m₁ k := by
    intro k hk
    rw [← hm₂, setPsh_of_ne _ hk]
  have hm₄_apply : ∀ k, k < th + 20 ∨ th + 32 ≤ k → m₄ k = m₃ k := by
    intro k hk
    rw [← hm₄]
    split
    · exact copy_of_not_mem hk
    · rfl
  have hm₁_apply : ∀ k, ¬ IsTotLenOrCheck iph k → m₁ k = m k := by
    intro k hk
    rw [← hm₁, setTotLen_of_not hk]
  have hihl₁ : ihl m₁ iph = n := by rw [← hm₁, ihl_setTotLen]
  have hdoff₂ : doff m₂ th = d := by
    rw [doff, hm₂_apply _ (by omega), hm₁_apply _ (by rw [IsTotLenOrCheck]; omega), ← doff]
  have hdoff₃ : doff m₃ th = d := by rw [doff, hm₃_apply _ (.inr (by omega)), ← doff, hdoff₂]
  have hdoff₄ : doff m₄ th = d := by rw [doff, hm₄_apply _ (.inl (by omega)), ← doff, hdoff₃]
  have hihl₄ : ihl m₄ iph = n := by
    rw [ihl, hm₄_apply _ (.inl (by omega)), hm₃_apply _ (.inl (by omega)),
      hm₂_apply _ (by omega), ← ihl, hihl₁]
  have hpull : (⟨m₁, iph, len, headroom⟩ : SkBuff).skbPull (4 * n) =
      ⟨m₁, th, len - 4 * n, Nat.le_add_right_of_le headroom⟩ := skbPull_eq _ hlen
  have hpush : skbPush ⟨last, dataTail, lenTail, headroomTail⟩ (4 * d) =
      ⟨last, t, lenTail + 4 * d, Nat.le_sub_of_add_le' hroom⟩ := by
    rw [skbPush, dif_pos hroom]
  have htail := skbPull_skbPush ⟨last, dataTail, lenTail, headroomTail⟩ hroom
  have hhead := skbPush_skbPull ⟨m₁, iph, len, headroom⟩ hlen m₄
  rw [hpush] at htail
  rw [hpull] at hhead
  have hrun : lroAdjustHeadSkb e ⟨m, iph, len, headroom⟩ ⟨last, dataTail, lenTail, headroomTail⟩
      incrLen psh = (⟨m₄, iph, len, headroom⟩, ⟨last, dataTail, lenTail, headroomTail⟩) := by
    simp only [lroAdjustHeadSkb, hm₁, hihl₁, hpull, hm₂, hdoff₂, hpush, hm₃, hdoff₃, hm₄, hdoff₄,
      hihl₄, htail, hhead]
  have hbefore : ∀ k, k < th + 8 → m₄ k = m₁ k := by
    intro k hk
    rw [hm₄_apply _ (.inl (by omega)), hm₃_apply _ (.inl hk), hm₂_apply _ (by omega)]
  refine ⟨m₄, hrun, ?_, ?_, ?_, ?_, ?_, ?_⟩
  · rw [load16_congr _ m₁ (hbefore _ (by omega)) (hbefore _ (by omega)), ← hm₁,
      totLen_setTotLen]
  · have hsum : Checksum.wordSum e m₄ iph (2 * n) = Checksum.wordSum e m₁ iph (2 * n) :=
      Checksum.wordSum_congr fun i hi =>
        load16_congr _ _ (hbefore _ (by omega)) (hbefore _ (by omega))
    rw [Checksum.Valid, hsum, ← hm₁]
    exact valid_setTotLen _ hihl
  · rw [hm₄_apply _ (.inl (by omega)), hm₃_apply _ (.inr (by omega)), ← hm₂, setPsh, if_pos rfl,
      hm₁_apply _ (by rw [IsTotLenOrCheck]; omega)]
  · intro i hi
    rw [hm₄_apply _ (.inl (by omega)), ← hm₃, store_load_apply (by decide) _ _ (by omega)]
  · intro hts i hi
    rw [← hm₄, if_pos hts, tcpHdrSize, tcpTsOptionSize, copy_of_mem (by omega) (by omega),
      Nat.add_sub_cancel_left]
  · intro k hk
    rw [IsMerged] at hk
    rw [← hm₁_apply k fun h => hk (.inl h), ← hm₂_apply k fun h => hk (.inr (.inr (.inl h))),
      ← hm₃_apply k (by omega), ← hm₄]
    split
    · rename_i hts
      have hout : ¬ (th + 20 ≤ k ∧ k < th + 32) := fun h => hk (.inr (.inr (.inr ⟨hts, h⟩)))
      rw [tcpHdrSize, tcpTsOptionSize]
      exact copy_of_not_mem (by omega)
    · rfl

end Chains

/-! ## Chains of packets -/

section Packets
variable {e : Endian} {bufs : Nat → SkBuff} {desc : StatusDesc} {descList : List StatusDesc}

/-- The payload of a packet in a buffer. -/
def payload (bufs : Nat → SkBuff) (desc : StatusDesc) (pkt : Nat × Nat) : List (BitVec 8) :=
  (List.range pkt.2).map fun i =>
    (bufs pkt.1).mem ((bufs pkt.1).data + desc.dataOffset.toNat + i)

/-- The buffer of a packet, with its payload as data. -/
def fragOf (bufs : Nat → SkBuff) (desc : StatusDesc) (pkt : Nat × Nat) : SkBuff :=
  (skbPut (bufs pkt.1) (desc.dataOffset.toNat + pkt.2)).skbPull desc.dataOffset.toNat

/-- The packets of the chain, the first and the others. -/
def firstPkt (desc : StatusDesc) : Nat × Nat := (desc.lroRefHandle.toNat, desc.lroLength.toNat)

def otherPkts (desc : StatusDesc) (descList : List StatusDesc) : List (Nat × Nat) :=
  (lroPkts descList).take (desc.lroCount.toNat - 1)

/-- The bytes behind the first packet. -/
def otherLen (desc : StatusDesc) (descList : List StatusDesc) : Nat :=
  ((otherPkts desc descList).map Prod.snd).sum

theorem chainLoop_eq (bufs : Nat → SkBuff) (desc : StatusDesc) (pkts : List (Nat × Nat)) (n : Nat)
    (fragList : List SkBuff) (k : Nat) : chainLoop bufs desc pkts n fragList k =
      (fragList ++ (pkts.take n).map (fragOf bufs desc), k + ((pkts.take n).map Prod.snd).sum) := by
  induction pkts generalizing n fragList k with
  | nil => simp [chainLoop]
  | cons pkt rest ih =>
    obtain ⟨refHandle, length⟩ := pkt
    cases n with
    | zero => simp [chainLoop]
    | succ n =>
      have hne : ¬ ((n + 1 : Nat) : Int) = 0 := by omega
      have hless : ((n + 1 : Nat) : Int) - 1 = n := by omega
      rw [chainLoop, if_neg hne, hless]
      simp only [ih, List.take_succ_cons, List.map_cons, List.sum_cons, List.append_assoc,
        List.singleton_append, Nat.add_assoc]
      rfl

section First
variable (bufs : Nat → SkBuff) (desc : StatusDesc)

/-! The headers of the first packet, in its buffer. -/
def firstSkb : SkBuff := bufs desc.lroRefHandle.toNat
def firstIph : Nat := (firstSkb bufs desc).data + desc.l2HdrOffset.toNat + ethHlen
def firstIhl : Nat := ihl (firstSkb bufs desc).mem (firstIph bufs desc)
def firstTh : Nat := firstIph bufs desc + 4 * firstIhl bufs desc
def firstDoff : Nat := doff (firstSkb bufs desc).mem (firstTh bufs desc)

/-- The length of its headers. -/
def hdrLen : Nat := 4 * firstIhl bufs desc + 4 * firstDoff bufs desc

end First

/-- What the card sends for a chain: fresh buffers, packets behind the first one, and
headers up to the payload, with no options of TCP or the timestamp first. -/
structure ChainOk (bufs : Nat → SkBuff) (desc : StatusDesc) (descList : List StatusDesc) :
    Prop where
  fresh : ∀ h, (bufs h).len = 0
  count : 0 < desc.lroCount.toNat
  others : otherPkts desc descList ≠ []
  ihl : 5 ≤ firstIhl bufs desc
  headers : (firstSkb bufs desc).data + desc.dataOffset.toNat =
    firstTh bufs desc + 4 * firstDoff bufs desc
  options : firstDoff bufs desc = 5 ∨ 8 ≤ firstDoff bufs desc

theorem fragOf_eq (desc : StatusDesc) (hfresh : ∀ h, (bufs h).len = 0) (pkt : Nat × Nat) :
    (fragOf bufs desc pkt).mem = (bufs pkt.1).mem ∧
      (fragOf bufs desc pkt).data = (bufs pkt.1).data + desc.dataOffset.toNat ∧
      (fragOf bufs desc pkt).len = pkt.2 := by
  have hlen : (skbPut (bufs pkt.1) (desc.dataOffset.toNat + pkt.2)).len =
      desc.dataOffset.toNat + pkt.2 := by
    rw [skbPut, hfresh pkt.1, Nat.zero_add]
  rw [fragOf, skbPull_eq _ (by omega)]
  exact ⟨rfl, rfl, by rw [hlen, Nat.add_sub_cancel_left]⟩

theorem frame_fragOf (hfresh : ∀ h, (bufs h).len = 0) (pkt : Nat × Nat) :
    (fragOf bufs desc pkt).frame = payload bufs desc pkt := by
  obtain ⟨hmem, hdata, hlen⟩ := fragOf_eq desc hfresh pkt
  rw [SkBuff.frame, hmem, hdata, hlen, payload]

theorem sum_length_payload (pkts : List (Nat × Nat)) :
    (pkts.flatMap (payload bufs desc)).length = (pkts.map Prod.snd).sum := by
  induction pkts with
  | nil => rfl
  | cons pkt pkts ih => simp [payload, ih]

/-- The first buffer before its headers are changed. -/
theorem head_eq (h : ChainOk bufs desc descList) :
    ∃ headroom, ethTypeTrans ((skbPut (bufs desc.lroRefHandle.toNat)
        (desc.dataOffset.toNat + desc.lroLength.toNat)).skbPull desc.l2HdrOffset.toNat) =
      ⟨(firstSkb bufs desc).mem, firstIph bufs desc, hdrLen bufs desc + desc.lroLength.toNat,
        headroom⟩ := by
  have hheaders := h.headers
  have hfresh : (bufs desc.lroRefHandle.toNat).len = 0 := h.fresh _
  have hihl := h.ihl
  rw [firstTh, firstIph] at hheaders
  have hput : (skbPut (bufs desc.lroRefHandle.toNat)
      (desc.dataOffset.toNat + desc.lroLength.toNat)).len =
        desc.dataOffset.toNat + desc.lroLength.toNat := by
    rw [skbPut, hfresh, Nat.zero_add]
  have hl2 := skbPull_eq (skbPut (bufs desc.lroRefHandle.toNat)
    (desc.dataOffset.toNat + desc.lroLength.toNat)) (n := desc.l2HdrOffset.toNat) (by omega)
  rw [ethTypeTrans, hl2, skbPull_eq _ (by show ethHlen ≤ _ - _; omega)]
  refine ⟨Nat.le_add_right_of_le (Nat.le_add_right_of_le (firstSkb bufs desc).headroom), ?_⟩
  have hlen : (skbPut (bufs desc.lroRefHandle.toNat)
      (desc.dataOffset.toNat + desc.lroLength.toNat)).len - desc.l2HdrOffset.toNat - ethHlen =
        hdrLen bufs desc + desc.lroLength.toNat := by
    rw [hput, hdrLen]
    omega
  simp only [hlen]
  rfl

/-- The headers change only before the payload. -/
theorem not_isMerged_payload (h : ChainOk bufs desc descList) (i : Nat) :
    ¬ IsMerged (firstIph bufs desc) (firstTh bufs desc) (5 < firstDoff bufs desc)
      (firstIph bufs desc + hdrLen bufs desc + i) := by
  have hihl := h.ihl
  have hoptions := h.options
  rw [IsMerged, IsTotLenOrCheck, hdrLen, firstTh]
  omega

/-- The bytes of the first buffer, after its headers have been changed. -/
theorem take_frame_eq (h : ChainOk bufs desc descList) {m' : Bytes} {k : Nat}
    {incrLen : BitVec 16} {last : Bytes} {lastTh : Nat}
    (hm : Merged e (firstSkb bufs desc).mem (firstIph bufs desc) incrLen desc.psh last lastTh m')
    (headroom : 2 ≤ firstIph bufs desc) :
    (SkBuff.frame ⟨m', firstIph bufs desc, hdrLen bufs desc + desc.lroLength.toNat + k,
        headroom⟩).take (hdrLen bufs desc + desc.lroLength.toNat) =
      ((List.range (hdrLen bufs desc)).map fun i => m' (firstIph bufs desc + i)) ++
        payload bufs desc (firstPkt desc) := by
  have hheaders := h.headers
  have hpayload : ∀ i, m' (firstIph bufs desc + (hdrLen bufs desc + i)) =
      (firstSkb bufs desc).mem ((firstSkb bufs desc).data + desc.dataOffset.toNat + i) := by
    intro i
    rw [← Nat.add_assoc, hm.rest _ (not_isMerged_payload h i), hheaders, firstTh, hdrLen]
    simp only [Nat.add_assoc]
  rw [SkBuff.frame, ← List.map_take, List.take_range, Nat.min_eq_left (Nat.le_add_right _ _),
    List.range_add, List.map_append, List.map_map, payload]
  exact congrArg _ (List.map_congr_left fun i _ => hpayload i)

/-- The packets of a chain as one: the headers of the first packet, changed as `Merged`
says, and the payloads of all, one after the other.  The length in the header is that of
the packet if it was that of the first one and there is no overflow. -/
structure OnePacket (e : Endian) (bufs : Nat → SkBuff) (desc : StatusDesc)
    (descList : List StatusDesc) (p : LroSkb) : Prop where
  headers : ∃ lastPkt ∈ (otherPkts desc descList).getLast?,
    Merged e (firstSkb bufs desc).mem (firstIph bufs desc)
      (BitVec.ofNat 16 (otherLen desc descList)) desc.psh (bufs lastPkt.1).mem
      ((bufs lastPkt.1).data + desc.dataOffset.toNat - 4 * firstDoff bufs desc) p.head.mem
  bytes : p.bytes =
    ((List.range (hdrLen bufs desc)).map fun i => p.head.mem (firstIph bufs desc + i)) ++
      (firstPkt desc :: otherPkts desc descList).flatMap (payload bufs desc)
  len : p.head.len = p.bytes.length
  totLen : (e.htons (e.load 16 (firstSkb bufs desc).mem (firstIph bufs desc + 2))).toNat =
      hdrLen bufs desc + desc.lroLength.toNat →
    p.bytes.length < 65536 →
      (e.htons (e.load 16 p.head.mem (firstIph bufs desc + 2))).toNat = p.bytes.length

/-- **A chain is one packet.**  Two or more packets in fresh buffers come out as one, with the
headers of the first, changed as `Merged` says, and the payloads of all in their order.  That the
headers have no options of TCP or the timestamp first is what the driver takes for granted when it
looks for the timestamp. -/
theorem unmProcessLroPacket_onePacket (e : Endian) (h : ChainOk bufs desc descList) :
    OnePacket e bufs desc descList (unmProcessLroPacket e bufs desc descList) := by
  obtain ⟨headroom, hhead⟩ := head_eq h
  have hheaders := h.headers
  have hchain := chainLoop_eq bufs desc (lroPkts descList)
    (desc.lroCount.toNat - 1) [] 0
  have hcount : ((desc.lroCount.toNat - 1 : Nat) : Int) = (desc.lroCount.toNat : Int) - 1 := by
    have := h.count
    omega
  rw [hcount, List.nil_append, Nat.zero_add] at hchain
  obtain ⟨init, lastPkt, hlast⟩ : ∃ init lastPkt, otherPkts desc descList = init ++ [lastPkt] :=
    ⟨_, _, (List.dropLast_append_getLast h.others).symm⟩
  have hfrags : ((lroPkts descList).take (desc.lroCount.toNat - 1)).map (fragOf bufs desc) =
      init.map (fragOf bufs desc) ++ [fragOf bufs desc lastPkt] := by
    rw [← otherPkts, hlast, List.map_append, List.map_singleton]
  have hsum : (((lroPkts descList).take (desc.lroCount.toNat - 1)).map Prod.snd).sum =
      otherLen desc descList := by
    rw [otherLen, otherPkts]
  rw [hfrags, hsum] at hchain
  obtain ⟨hmem, hdata, hlen⟩ := fragOf_eq desc h.fresh lastPkt
  have hroom : 4 * firstDoff bufs desc + 2 ≤ (bufs lastPkt.1).data + desc.dataOffset.toNat := by
    rw [firstTh, firstIph, ethHlen] at hheaders
    omega
  obtain ⟨m', hadjust, hm⟩ := lroAdjustHeadSkb_spec (e := e)
    ⟨(firstSkb bufs desc).mem, firstIph bufs desc,
      hdrLen bufs desc + desc.lroLength.toNat + otherLen desc descList, headroom⟩
    (fragOf bufs desc lastPkt) (BitVec.ofNat 16 (otherLen desc descList)) desc.psh
    h.ihl (by show 4 * firstIhl bufs desc ≤ _ + _ + _; rw [hdrLen]; omega)
    (by rw [hdata]; exact hroom)
  rw [hmem, hdata] at hm
  have hpacket : unmProcessLroPacket e bufs desc descList =
      ⟨⟨m', firstIph bufs desc, hdrLen bufs desc + desc.lroLength.toNat + otherLen desc descList,
        headroom⟩, otherLen desc descList,
        init.map (fragOf bufs desc) ++ [fragOf bufs desc lastPkt]⟩ := by
    rw [unmProcessLroPacket, hhead, hchain]
    simp only [List.getLast?_concat, List.dropLast_concat, hadjust]
  have hlength : (((List.range (hdrLen bufs desc)).map fun i => m' (firstIph bufs desc + i)) ++
      (firstPkt desc :: otherPkts desc descList).flatMap (payload bufs desc)).length =
        hdrLen bufs desc + desc.lroLength.toNat + otherLen desc descList := by
    rw [List.length_append, List.length_map, List.length_range, sum_length_payload, List.map_cons,
      List.sum_cons, otherLen, firstPkt, Nat.add_assoc]
  have hflat : (init.map (fragOf bufs desc) ++ [fragOf bufs desc lastPkt]).flatMap SkBuff.frame =
      (otherPkts desc descList).flatMap (payload bufs desc) := by
    rw [hlast, ← List.map_singleton (f := fragOf bufs desc), ← List.map_append, List.flatMap_map]
    exact congrArg (List.flatMap · _) (funext fun pkt => frame_fragOf h.fresh pkt)
  have hbytes : (unmProcessLroPacket e bufs desc descList).bytes =
      ((List.range (hdrLen bufs desc)).map fun i => m' (firstIph bufs desc + i)) ++
        (firstPkt desc :: otherPkts desc descList).flatMap (payload bufs desc) := by
    rw [hpacket, LroSkb.bytes, hflat, Nat.add_sub_cancel, take_frame_eq h hm headroom,
      List.flatMap_cons, List.append_assoc]
  refine ⟨⟨lastPkt, by rw [hlast, List.getLast?_concat]; rfl, by rw [hpacket]; exact hm⟩,
    by rw [hbytes, hpacket], by rw [hbytes, hlength, hpacket], ?_⟩
  intro htot hlt
  rw [hbytes, hlength] at hlt ⊢
  rw [hpacket, hm.totLen, BitVec.toNat_add, htot, BitVec.toNat_ofNat, Nat.add_mod_mod,
    Nat.mod_eq_of_lt hlt]

/-- Buffers with packets of two headers without options. -/
def chainBufs (refHandle : Nat) : SkBuff where
  mem k := if k = 16 then 0x45#8 else if k = 48 then 0x50#8 else BitVec.ofNat 8 (k + refHandle)
  data := 2
  len := 0
  headroom := by decide

/-- Two packets, of three bytes and of four. -/
def chainDesc : StatusDesc := ⟨1#64 ||| 3#64 <<< 16 ||| 54#64 <<< 40, 2#64⟩

def chainDescList : List StatusDesc := [⟨2#64 ||| 4#64 <<< 16, 0#64⟩]

theorem unmProcessLroPacket_two : ChainOk chainBufs chainDesc chainDescList ∧
    OnePacket .little chainBufs chainDesc chainDescList
      (unmProcessLroPacket .little chainBufs chainDesc chainDescList) := by
  have hok : ChainOk chainBufs chainDesc chainDescList :=
    ⟨fun _ => rfl, by decide, by decide, by decide, by decide, by decide⟩
  exact ⟨hok, unmProcessLroPacket_onePacket .little hok⟩

end Packets

/-! ## Packets of the card -/

/-- The bytes of the headers that change when a packet is completed. -/
def IsCompleted (iph th k : Nat) : Prop :=
  IsTotLenOrCheck iph k ∨ (th + 4 ≤ k ∧ k < th + 8) ∨ k = th + 13

/-- The headers at `iph` of a packet that the card has put together: the length and
the checksum are right, the sequence number is that of the descriptor, and all else is
as it was. -/
structure Completed (e : Endian) (m : Bytes) (iph : Nat) (desc : StatusDesc) (m' : Bytes) :
    Prop where
  totLen : (e.htons (e.load 16 m' (iph + 2))).toNat =
    (4 * ihl m iph + 4 * doff m (iph + 4 * ihl m iph) + desc.lro2Length.toNat) % 65536
  check : Checksum.Valid e m' iph (2 * ihl m iph)
  pushed : m' (iph + 4 * ihl m iph + 13) =
    (m (iph + 4 * ihl m iph + 13) &&& ~~~8) ||| (if desc.psh then 8 else 0)
  seq : e.htonl (e.load 32 m' (iph + 4 * ihl m iph + 4)) = desc.seqNumber
  rest : ∀ k, ¬ IsCompleted iph (iph + 4 * ihl m iph) k → m' k = m k

section Contiguous
variable {e : Endian} {bufs : Nat → SkBuff} {desc : StatusDesc}

theorem htonl_htonl (e : Endian) (x : BitVec 32) : e.htonl (e.htonl x) = x := by
  cases e with
  | little => exact Endian.swap_swap (by decide) x
  | big => rfl

theorem load32_store (m : Bytes) (a : Nat) (x : BitVec 32) : e.load 32 (e.store m a x) a = x := by
  rw [Endian.load_eq (by decide), Endian.store_eq, Words.load_store (by decide),
    Endian.cpuToLe_cpuToLe (by decide)]

/-- **The headers of a packet** that the card has put together are completed. -/
theorem lro2AdjustSkb_spec (desc : StatusDesc) (skb : SkBuff) (hihl : 5 ≤ ihl skb.mem skb.data)
    (hlen : 4 * ihl skb.mem skb.data ≤ skb.len) :
    ∃ m', lro2AdjustSkb e skb desc = { skb with mem := m' } ∧
      Completed e skb.mem skb.data desc m' := by
  obtain ⟨m, iph, len, headroom⟩ := skb
  dsimp only at hihl hlen ⊢
  set n := ihl m iph with hn
  set th := iph + 4 * n with hth
  obtain ⟨m₁, hm₁⟩ : ∃ m₁, setTotLen e m iph
      (BitVec.ofNat 16 (4 * n + 4 * doff m th + desc.lro2Length.toNat)) = m₁ := ⟨_, rfl⟩
  obtain ⟨m₂, hm₂⟩ : ∃ m₂, setPsh m₁ th desc.psh = m₂ := ⟨_, rfl⟩
  obtain ⟨m₃, hm₃⟩ : ∃ m₃, e.store m₂ (th + 4) (e.htonl desc.seqNumber) = m₃ := ⟨_, rfl⟩
  have hm₁_apply : ∀ k, ¬ IsTotLenOrCheck iph k → m₁ k = m k := by
    intro k hk
    rw [← hm₁, setTotLen_of_not hk]
  have hm₂_apply : ∀ k, k ≠ th + 13 → m₂ k = m₁ k := by
    intro k hk
    rw [← hm₂, setPsh_of_ne _ hk]
  have hm₃_apply : ∀ k, k < th + 4 ∨ th + 8 ≤ k → m₃ k = m₂ k := by
    intro k hk
    rw [← hm₃, store_of_not_mem _ _ (by omega)]
  have hpull : (⟨m, iph, len, headroom⟩ : SkBuff).skbPull (4 * n) =
      ⟨m, th, len - 4 * n, Nat.le_add_right_of_le headroom⟩ := skbPull_eq _ hlen
  have hpush := skbPush_skbPull ⟨m, iph, len, headroom⟩ hlen m
  rw [hpull] at hpush
  have hrun : lro2AdjustSkb e ⟨m, iph, len, headroom⟩ desc = ⟨m₃, iph, len, headroom⟩ := by
    simp only [lro2AdjustSkb, ← hn, hpull, hpush, hm₁, hm₂, hm₃]
  have hbefore : ∀ k, k < th + 4 → m₃ k = m₁ k := by
    intro k hk
    rw [hm₃_apply _ (.inl hk), hm₂_apply _ (by omega)]
  refine ⟨m₃, hrun, ?_, ?_, ?_, ?_, ?_⟩
  · rw [load16_congr _ m₁ (hbefore _ (by omega)) (hbefore _ (by omega)), ← hm₁,
      totLen_setTotLen, BitVec.toNat_ofNat]
  · have hsum : Checksum.wordSum e m₃ iph (2 * n) = Checksum.wordSum e m₁ iph (2 * n) :=
      Checksum.wordSum_congr fun i hi =>
        load16_congr _ _ (hbefore _ (by omega)) (hbefore _ (by omega))
    rw [Checksum.Valid, hsum, ← hm₁]
    exact valid_setTotLen _ hihl
  · rw [hm₃_apply _ (.inr (by omega)), ← hm₂, setPsh, if_pos rfl,
      hm₁_apply _ (by rw [IsTotLenOrCheck]; omega)]
  · rw [← hm₃, load32_store, htonl_htonl]
  · intro k hk
    rw [IsCompleted] at hk
    rw [hm₃_apply k (by omega), hm₂_apply k (by omega), hm₁_apply k fun h => hk (.inl h)]

theorem frame_skbPull (skb : SkBuff) {n : Nat} (h : n ≤ skb.len) :
    (skb.skbPull n).frame = skb.frame.drop n := by
  refine List.ext_getElem? fun i => ?_
  rw [SkBuff.getElem?_frame_skbPull _ h, List.getElem?_drop, SkBuff.getElem?_frame, Nat.add_assoc]
  exact if_ctx_congr (by omega) (fun _ => rfl) fun _ => rfl

/-- The frame in the buffer, as the card has left it. -/
def contiguousSkb (bufs : Nat → SkBuff) (desc : StatusDesc) : SkBuff :=
  (skbPut (bufs desc.lro2RefHandle.toNat)
    (desc.l4HdrOffset.toNat + (if desc.timestamp then tcpTsHdrSize else tcpHdrSize) +
      desc.lro2Length.toNat)).skbPull desc.l2HdrOffset.toNat

/-- The packet in it, without its tag and the header of the frame. -/
def contiguousPkt (bufs : Nat → SkBuff) (desc : StatusDesc) : List (BitVec 8) :=
  (if IsTagged (contiguousSkb bufs desc).frame then untagged (contiguousSkb bufs desc).frame
    else (contiguousSkb bufs desc).frame).drop ethHlen

/-! The lengths of the headers of a packet. -/
def pktIhl (p : List (BitVec 8)) : Nat := (p.getD 0 0 &&& 0xf).toNat
def pktDoff (p : List (BitVec 8)) : Nat := (p.getD (4 * pktIhl p + 12) 0 >>> 4).toNat

/-- What the card sends: a packet with two headers and the payload that the descriptor
tells. -/
structure ContiguousOk (bufs : Nat → SkBuff) (desc : StatusDesc) : Prop where
  ihl : 5 ≤ pktIhl (contiguousPkt bufs desc)
  doff : 5 ≤ pktDoff (contiguousPkt bufs desc)
  length : (contiguousPkt bufs desc).length =
    4 * pktIhl (contiguousPkt bufs desc) + 4 * pktDoff (contiguousPkt bufs desc) +
      desc.lro2Length.toNat

/-- The packet without its tag and the header of its frame: the length in its header is
its own, the checksum is right, the sequence number is that of the descriptor, and no
other byte is changed but for the bit `psh`. -/
structure CompletedPkt (e : Endian) (desc : StatusDesc) (p : List (BitVec 8)) (skb : SkBuff) :
    Prop where
  length : skb.frame.length = p.length
  totLen : (e.htons (e.load 16 skb.mem (skb.data + 2))).toNat = p.length % 65536
  check : Checksum.Valid e skb.mem skb.data (2 * pktIhl p)
  seq : e.htonl (e.load 32 skb.mem (skb.data + 4 * pktIhl p + 4)) = desc.seqNumber
  pushed : skb.frame[4 * pktIhl p + 13]? = p[4 * pktIhl p + 13]?.map fun b =>
    (b &&& ~~~8) ||| (if desc.psh then 8 else 0)
  rest : ∀ i, ¬ IsCompleted 0 (4 * pktIhl p) i → skb.frame[i]? = p[i]?

/-- **The packet that the card has put together** is completed: its tag and the header of its frame
are gone, its length and checksum are right, its sequence number is that of the descriptor, and
no other byte has changed. -/
theorem unmProcessLroContiguousPacket_completed (e : Endian) (h : ContiguousOk bufs desc) :
    CompletedPkt e desc (contiguousPkt bufs desc)
      (unmProcessLroContiguousPacket e bufs desc) := by
  obtain ⟨p, hp₀⟩ : ∃ p, contiguousPkt bufs desc = p := ⟨_, rfl⟩
  obtain ⟨skb, hskb_eq⟩ : ∃ skb, unmProcessLroContiguousPacket e bufs desc = skb := ⟨_, rfl⟩
  rw [hp₀, hskb_eq]
  obtain ⟨hihl, hdoff, hplen⟩ := h
  rw [hp₀] at hihl hdoff hplen
  set skb₀ := contiguousSkb bufs desc with hskb₀
  set f := if IsTagged skb₀.frame then untagged skb₀.frame else skb₀.frame with hf
  have hpf : p = f.drop ethHlen := hp₀.symm
  have hflen : f.length ≤ skb₀.len := by
    rw [hf]
    split
    · rw [untagged, List.length_append, List.length_take, List.length_drop, skb₀.length_frame]
      omega
    · exact Nat.le_of_eq skb₀.length_frame
  have hdrop : p.length = f.length - 14 := by rw [hpf, List.length_drop]; rfl
  -- the frame without its tag
  obtain ⟨skb₁, hskb₁⟩ : ∃ skb₁, (check8021q e skb₀ (-1)).1 = skb₁ := ⟨_, rfl⟩
  have hframe₁ : skb₁.frame = f := by
    have hcheck := check8021q_frame e skb₀ (-1) fun _ => by omega
    rw [← hskb₁, hf]
    have hfst := congrArg Prod.fst hcheck
    split
    · rename_i htag
      rw [if_pos htag] at hfst
      exact hfst
    · rename_i htag
      rw [if_neg htag] at hfst
      exact hfst
  -- the packet without the header of the frame
  obtain ⟨skb₂, hskb₂⟩ : ∃ skb₂, ethTypeTrans skb₁ = skb₂ := ⟨_, rfl⟩
  have hframe₂ : skb₂.frame = p := by
    rw [← hskb₂, ethTypeTrans, frame_skbPull _ (by
      rw [← skb₁.length_frame, hframe₁]
      show 14 ≤ _
      omega), hframe₁, hpf]
  have hlen₂ : skb₂.len = p.length := by rw [← skb₂.length_frame, hframe₂]
  have hget : ∀ i, i < p.length → p.getD i 0 = skb₂.mem (skb₂.data + i) := by
    intro i hi
    rw [List.getD_eq_getElem?_getD, ← hframe₂, SkBuff.getElem?_frame, if_pos (by omega)]
    rfl
  have hihl₂ : ihl skb₂.mem skb₂.data = pktIhl p := by
    rw [ihl, pktIhl, hget 0 (by omega)]
    rfl
  have hdoff₂ : doff skb₂.mem (skb₂.data + 4 * pktIhl p) = pktDoff p := by
    rw [doff, pktDoff, hget _ (by omega)]
    simp only [Nat.add_assoc]
  obtain ⟨m', hrun, hm⟩ := lro2AdjustSkb_spec (e := e) desc skb₂
    (by omega) (by omega)
  obtain ⟨htot, hcheck, hpush, hseq, hrest⟩ := hm
  rw [hihl₂] at htot hcheck hpush hseq hrest
  rw [hdoff₂, ← hplen] at htot
  have hskb : skb = { skb₂ with mem := m' } := by
    rw [← hskb_eq, ← hrun, ← hskb₂, ← hskb₁]
    rfl
  have hgetElem : ∀ i,
      skb.frame[i]? = if i < p.length then some (m' (skb₂.data + i)) else none := by
    intro i
    rw [hskb, SkBuff.getElem?_frame, ← hlen₂]
  have hp : ∀ i, p[i]? = if i < p.length then some (skb₂.mem (skb₂.data + i)) else none := by
    intro i
    conv_lhs => rw [← hframe₂, SkBuff.getElem?_frame, hlen₂]
  refine ⟨?_, ?_, ?_, ?_, ?_, ?_⟩
  · rw [SkBuff.length_frame, hskb, ← hlen₂]
  · rw [hskb]
    exact htot
  · rw [hskb]
    exact hcheck
  · rw [hskb]
    exact hseq
  · have hlt : 4 * pktIhl p + 13 < p.length := by omega
    rw [hgetElem, hp, if_pos hlt, if_pos hlt, Option.map_some, ← Nat.add_assoc, hpush]
  · intro i hi
    rw [hgetElem, hp, hrest _ (by rw [IsCompleted, IsTotLenOrCheck] at hi ⊢; omega)]

/-- A tagged frame with a packet of three bytes. -/
def contiguousBufs (_ : Nat) : SkBuff where
  mem k := if k = 14 then 0x81#8 else if k = 15 then 0#8 else if k = 20 then 0x45#8
    else if k = 52 then 0x50#8 else BitVec.ofNat 8 k
  data := 2
  len := 0
  headroom := by decide

def contiguousDesc : StatusDesc := ⟨3#64 <<< 16 ||| 38#64 <<< 40, 7#64⟩

theorem unmProcessLroContiguousPacket_tagged : ContiguousOk contiguousBufs contiguousDesc ∧
    CompletedPkt .big contiguousDesc (contiguousPkt contiguousBufs contiguousDesc)
      (unmProcessLroContiguousPacket .big contiguousBufs contiguousDesc) := by
  have hok : ContiguousOk contiguousBufs contiguousDesc := ⟨by decide, by decide, by decide⟩
  exact ⟨hok, unmProcessLroContiguousPacket_completed .big hok⟩

end Contiguous

end Lro
end NxNic

import NxNic.Lib.Words
import NxNic.Tx.Scatter

/-! # The headers of a packet on the ring

`nx_nic_tso_copy_headers` puts the headers of an LSO packet in the one or two slots behind the
packet's descriptors, two bytes from their beginning.  An out-of-band tag is inserted on the way,
by moves that read two bytes in front of the packet and by a source that is four bytes behind.

A call is its list of effects, as in `Tx/Types`: stores of descriptors, of parts, and copies of
so many bytes to a byte address of the ring.  Here they are carried out on the memory of the ring
(`ringAfter`), and what comes out is read back byte by byte after the whole call, so that a copy
that another one overwrites would show.

`Skb.wireHeader` is what is to be there: the header with the tag behind the two addresses.
`HeadersCopied` says that it is, in the slots behind the descriptors, and `HeadersContained` that
the copies go nowhere else.  `headerCopies` has the copies for each length, and both results come
from their ranges: `headers_copied` for headers that fit, and `headers_contained_iff` with the 126
bytes that two slots have room for.
-/
namespace NxNic
namespace Tx

/-- An effect on the memory of the ring, where a descriptor has the bytes `enc`. -/
def Effect.write (enc : CmdDescType0 → Bytes) (m : Bytes) : Effect → Bytes
  | .desc slot d => Words.copy m (descSize * slot) descSize (enc d)
  | .copy off src len => Words.copy m off len src
  | _ => m

/-- The memory of the ring after the effects. -/
def ringAfter (enc : CmdDescType0 → Bytes) (m : Bytes) (es : List Effect) : Bytes :=
  es.foldl (Effect.write enc) m

/-- The address of byte `i` of a packet's header slots, in the order of the ring. -/
def Adapter.headerAddr (a : Adapter) (skb : Skb) (i : Nat) : Nat :=
  descSize * a.slotOf (skb.noOfDesc + i / descSize) + i % descSize

/-- The first `n` bytes of a packet. -/
def Skb.header (skb : Skb) (n : Nat) : List (BitVec 8) := (List.range n).map skb.data

/-- The 802.1Q tag. -/
def vlanBytes (tci : BitVec 16) : List (BitVec 8) :=
  [0x81, 0x00, tci.extractLsb' 8 8, tci.extractLsb' 0 8]

/-- The header of `n` bytes with the out-of-band tag, if there is one, behind the addresses. -/
def Skb.wireHeader (skb : Skb) (n : Nat) : List (BitVec 8) :=
  match skb.vlanTag with
  | none => skb.header n
  | some tci => (skb.header n).take 12 ++ vlanBytes tci ++ (skb.header n).drop 12

/-- The bytes that an out-of-band tag adds. -/
def Skb.oobLen (skb : Skb) : Nat := if skb.vlanTag.isSome then vlanHlen else 0

/-- The length of a packet's header on the ring. -/
def headerLen (dev : NetDev) (skb : Skb) : Int := tsoHdrLen skb (tagged dev skb) + skb.oobLen

/-- **The property**: the `n` bytes of the header and the tag are in the header slots after the
effects, whatever was there, and no other slots are taken. -/
structure HeadersCopied (a : Adapter) (es : List Effect) (skb : Skb) (n : Nat) : Prop where
  bytes : ∀ enc m, (List.range (n + skb.oobLen)).map
      (fun j => ringAfter enc m es (a.headerAddr skb (ipAlignmentBytes + j))) = skb.wireHeader n
  produced : producedBy es = skb.noOfDesc + (n + skb.oobLen + ipAlignmentBytes + 63) / descSize
  producer : (a.execAll es).cmdProducer =
    a.slotOf (skb.noOfDesc + (n + skb.oobLen + ipAlignmentBytes + 63) / descSize)

/-- **The property**: the length in the descriptor is the header's, and the copies stay in the
slots that the producer passes behind the packet's descriptors, which are at most two. -/
structure HeadersContained (a : Adapter) (es : List Effect) (skb : Skb) (len : Int) : Prop where
  field : (((a.execAll es).cmdDescHead a.cmdProducer).totalHdrLength.toNat : Int) = len
  slots : ∃ t ≤ 2, producedBy es = skb.noOfDesc + t ∧
    ∀ off src k, .copy off src k ∈ es → ∀ i, off ≤ i → i < off + k →
      ∃ j < t, i / descSize = a.slotOf (skb.noOfDesc + j)

/-! ## The memory of the ring -/

theorem ringAfter_append (enc : CmdDescType0 → Bytes) (m : Bytes) (es fs : List Effect) :
    ringAfter enc m (es ++ fs) = ringAfter enc (ringAfter enc m es) fs := List.foldl_append ..

/-- Byte `j` of a header with the tag in it. -/
def Skb.wireByte (skb : Skb) (j : Nat) : BitVec 8 :=
  match skb.vlanTag with
  | none => skb.data j
  | some tci =>
    if j < 12 then skb.data j else if j < 16 then (vlanBytes tci).getD (j - 12) 0
    else skb.data (j - 4)

theorem wireHeader_eq (skb : Skb) {n : Nat} (h : 12 ≤ n) :
    skb.wireHeader n = (List.range (n + skb.oobLen)).map skb.wireByte := by
  unfold Skb.wireHeader Skb.oobLen Skb.wireByte
  cases skb.vlanTag with
  | none => rfl
  | some tci =>
    obtain ⟨r, rfl⟩ := Nat.exists_eq_add_of_le h
    have hlen : 12 + r + vlanHlen = 12 + 4 + r := Nat.add_right_comm 12 r 4
    have hsplit : skb.header (12 + r) =
        skb.header 12 ++ (List.range r).map fun i => skb.data (12 + i) := by
      rw [Skb.header, List.range_add, List.map_append, List.map_map]
      rfl
    have h12 : (skb.header 12).length = 12 := by rw [Skb.header, List.length_map, List.length_range]
    dsimp only
    rw [hsplit, List.take_left' h12, List.drop_left' h12, Option.isSome_some, if_pos rfl, hlen,
      List.range_add, List.map_append, List.map_map]
    refine congrArg₂ _ rfl (List.map_congr_left fun i _ => ?_)
    rw [Function.comp_apply, if_neg (by omega), if_neg (by omega)]
    congr 1
    omega

/-! ## The copies -/

section
variable {enc : CmdDescType0 → Bytes} {m : Bytes} {skb : Skb} {dst n k : Nat}

theorem firstHdrLen_le (n : Nat) : firstHdrLen n ≤ 62 := Nat.min_le_right ..

/-- With sixteen bytes of header the length of the third copy does not wrap around. -/
theorem sizeT_first (h : 16 ≤ n) : sizeT ((firstHdrLen n : Int) - 16) = firstHdrLen n - 16 := by
  have hle : 16 ≤ firstHdrLen n := Nat.le_min.mpr ⟨h, by decide⟩
  have hmax := firstHdrLen_le n
  unfold sizeT
  omega

/-- The first header slot has the first bytes of the header, from its third byte on. -/
theorem copyFirst_bytes (htag : skb.vlanTag.isSome = true → 16 ≤ n) {j : Nat}
    (hj : j < firstHdrLen n) :
    ringAfter enc m (copyFirst skb dst n) (dst + (ipAlignmentBytes + j)) = skb.wireByte j := by
  unfold copyFirst Skb.wireByte
  cases hv : skb.vlanTag with
  | none =>
    show Words.copy m (dst + 2) (firstHdrLen n) (skb.bytesFrom 0) (dst + (2 + j)) = skb.data j
    rw [Words.copy_of_mem (by omega) (by omega), Skb.bytesFrom]
    congr 1
    omega
  | some tci =>
    have h16 := htag (by rw [hv]; rfl)
    have hstart : ipAlignmentBytes = 2 := rfl
    simp only [ringAfter, List.foldl_cons, List.foldl_nil, Effect.write, sizeT_first h16, hstart]
    -- the addresses of the packet, then the tag, then what follows the addresses
    rcases Nat.lt_or_ge j 12 with h12 | h12
    · rw [if_pos h12, Words.copy_of_not_mem (by omega), Words.copy_of_not_mem (by omega),
        Words.copy_of_not_mem (by omega), Words.copy_of_mem (by omega) (by omega),
        if_neg (by omega)]
      congr 1
      omega
    · rw [if_neg (by omega)]
      rcases Nat.lt_or_ge j 16 with hlt | hge
      · rw [if_pos hlt, Words.copy_of_not_mem (by omega)]
        rcases Nat.lt_or_ge j 14 with h14 | h14
        · rw [Words.copy_of_not_mem (by omega), Words.copy_of_mem (by omega) (by omega)]
          obtain rfl | rfl : j = 12 ∨ j = 13 := by omega
          · rw [if_pos (by omega)]
            rfl
          · rw [if_neg (by omega)]
            rfl
        · rw [Words.copy_of_mem (by omega) (by omega)]
          obtain rfl | rfl : j = 14 ∨ j = 15 := by omega
          · rw [if_pos (by omega)]
            rfl
          · rw [if_neg (by omega)]
            rfl
      · rw [if_neg (by omega), Words.copy_of_mem (by omega) (by omega), Skb.bytesFrom]
        congr 1
        omega

/-- The second header slot has the bytes that are left. -/
theorem copyMore_bytes (hmore : descSize - ipAlignmentBytes < n) {i : Nat}
    (hi : i < n - firstHdrLen n) :
    ringAfter enc m (copyMore skb dst n) (dst + i) = skb.wireByte (firstHdrLen n + i) := by
  have hfirst : firstHdrLen n = 62 := Nat.min_eq_right (Nat.le_of_lt hmore)
  show Words.copy m dst (n - firstHdrLen n) _ (dst + i) = _
  rw [Words.copy_of_mem (by omega) (by omega), hfirst, Skb.bytesFrom, Skb.wireByte]
  cases skb.vlanTag with
  | none =>
    show skb.data (62 + _) = _
    congr 1
    omega
  | some tci =>
    rw [Option.isSome_some, if_pos rfl]
    dsimp only
    rw [if_neg (by omega), if_neg (by omega), vlanHlen]
    congr 1
    omega

/-- The copy into the second header slot leaves the memory before it and behind it. -/
theorem copyMore_frame (h : k < dst ∨ dst + (n - firstHdrLen n) ≤ k) :
    ringAfter enc m (copyMore skb dst n) k = m k := Words.copy_of_not_mem h

end

/-! ## The call up to the copies -/

/-- The effects that record the parts of a packet. -/
def Effect.Records : Effect → Prop
  | .desc _ _ | .buf _ _ | .map _ _ => True
  | _ => False

theorem Effect.Records.produced {e : Effect} (h : e.Records) : e.produced = 0 := by
  cases e with
  | produce p m => exact absurd h id
  | _ => rfl

theorem Effect.Records.ne_copy {e : Effect} (h : e.Records) (off : Nat) (src : Nat → BitVec 8)
    (k : Nat) : e ≠ .copy off src k := by
  rintro rfl
  exact h

theorem mapFrags_records {io : XmitIo} {N saved : Nat} {frags : List Nat} {i : Nat}
    {v x : XmitLocals} (hx : (mapFrags io N saved frags i v).2 = some x) :
    ∀ e ∈ (mapFrags io N saved frags i v).1, e.Records := by
  induction frags generalizing i v with
  | nil => exact fun e he => absurd he List.not_mem_nil
  | cons len rest ih =>
    rw [mapFrags] at hx ⊢
    cases hdma : io.mapPage i with
    | none => simp [hdma] at hx
    | some dma =>
      simp only [hdma] at hx ⊢
      intro e he
      rcases List.mem_append.mp he with he | he
      · rcases List.mem_append.mp he with he | he
        · split at he
          · rw [List.mem_singleton.mp he]
            trivial
          · exact absurd he List.not_mem_nil
        · simp only [List.mem_cons, List.not_mem_nil, or_false] at he
          rcases he with rfl | rfl | rfl <;> trivial
      · exact ih hx e he

/-- **A mapped packet**: its parts are recorded, and its call comes to the end. -/
theorem xmitQueue_finish {a : Adapter} (dev : NetDev) {io : XmitIo} {skb : Skb}
    (hprod : a.cmdProducer < a.maxTxDescCount) (hroom : skb.noOfDesc < a.maxTxDescCount)
    (hmapped : Mapped io skb) :
    ∃ pre x, xmitQueue dev io skb a =
        pre ++ xmitFinish a.maxTxDescCount skb (tagged dev skb) a.cmdProducer x ∧
      (∀ e ∈ pre, e.Records) ∧ x.moved + 1 = skb.noOfDesc ∧
      Ring.next a.maxTxDescCount x.producer = a.slotOf skb.noOfDesc ∧
      x.first.mss = BitVec.ofNat 16 (xmitMss dev skb) ∧
      x.first.opcode = BitVec.ofNat 6 txEtherPkt := by
  have hN : 0 < a.maxTxDescCount := Nat.zero_lt_of_lt hprod
  have hmod : a.cmdProducer % a.maxTxDescCount = a.cmdProducer := Nat.mod_eq_of_lt hprod
  have hslots : skb.noOfDesc = (1 + skb.frags.length + 3) / 4 := rfl
  obtain ⟨dma, hdma⟩ := Option.isSome_iff_exists.mp hmapped.1
  obtain ⟨x, hx, -⟩ := hmapped.loop a.maxTxDescCount a.cmdProducer (xmitLocals dev skb a dma)
  have hstart : (xmitLocals dev skb a dma).At a.maxTxDescCount a.cmdProducer 1
      (BitVec.ofNat 16 (xmitMss dev skb)) :=
    ⟨hmod.symm, rfl, Nat.le_refl 1, (by decide : 1 ≤ 4), fun _ => rfl, rfl, rfl⟩
  obtain ⟨-, hdone⟩ := mapFrags_quiet (R := a.cmdProducer) io hN skb.frags 1 hstart (by omega)
  rw [hmod] at hdone
  have hat := hdone x hx
  have hq : x.moved + 1 = skb.noOfDesc := by
    have hindex := hat.index
    have hpos := hat.pos
    have hle := hat.le
    omega
  refine ⟨_, x, xmitQueue_eq hdma hx, ?_, hq, ?_, hat.mss, hat.opcode⟩
  · intro e he
    rcases List.mem_append.mp he with he | he
    · simp only [xmitStart, List.mem_cons, List.not_mem_nil, or_false] at he
      rcases he with rfl | rfl | rfl | rfl | rfl <;> trivial
    · exact mapFrags_records hx e he
  · rw [hat.producer, next_add_mod hN, hq]
    rfl

/-! ## The end of the call -/

section
variable {dev : NetDev} {skb : Skb} {a : Adapter}

/-- The length in the descriptor is the header's, up to the width of the field. -/
theorem lsoHdrLen_mod (dev : NetDev) (skb : Skb) :
    (lsoHdrLen dev skb : Int) = headerLen dev skb % 256 := by
  unfold lsoHdrLen headerLen Skb.oobLen
  rw [BitVec.toNat_add, BitVec.toNat_ofInt, BitVec.toNat_ofNat]
  generalize tsoHdrLen skb (tagged dev skb) = len
  generalize (if skb.vlanTag.isSome then vlanHlen else 0) = oob
  omega

/-- A header has its Ethernet part and the tag. -/
theorem headerLen_ge (dev : NetDev) (hlegal : 0 ≤ skb.nwHdrLen) :
    14 + (skb.oobLen : Int) ≤ headerLen dev skb := by
  have htag : 0 ≤ (tagged dev skb : Int) * vlanHlen :=
    Int.mul_nonneg (Int.natCast_nonneg _) (Int.natCast_nonneg _)
  unfold headerLen tsoHdrLen
  omega

/-- The copies of a header of `n` bytes behind `q` descriptors. -/
def headerCopies (a : Adapter) (skb : Skb) (q n : Nat) : List Effect :=
  copyFirst skb (descSize * a.slotOf q) n ++
    if descSize - ipAlignmentBytes < n then copyMore skb (descSize * a.slotOf (q + 1)) n else []

/-- The slots that they take. -/
def headerSlots (n : Nat) : Nat := if descSize - ipAlignmentBytes < n then 2 else 1

theorem next_slotOf (hprod : a.cmdProducer < a.maxTxDescCount) (j : Nat) :
    Ring.next a.maxTxDescCount (a.slotOf j) = a.slotOf (j + 1) :=
  next_add_mod (Nat.zero_lt_of_lt hprod) j

/-- `nx_nic_tso_copy_headers`, for an LSO packet with `q` descriptors. -/
theorem tsoCopyHeaders_lso {d : CmdDescType0} {q : Nat} (saved : Nat)
    (hprod : a.cmdProducer < a.maxTxDescCount) (hlso : lsoPacket dev skb)
    (hmss : d.mss = BitVec.ofNat 16 (xmitMss dev skb))
    (hop : d.opcode = BitVec.ofNat 6 txEtherPkt) :
    ∃ d', d'.totalHdrLength.toNat = lsoHdrLen dev skb ∧
      (skb.vlanTag = none → d' = xmitChecked skb (tagged dev skb) d) ∧
      nxNicTsoCopyHeaders a.maxTxDescCount skb saved (a.slotOf q)
          (xmitChecked skb (tagged dev skb) d) =
        (storeTag skb saved d' ++ headerCopies a skb q (lsoHdrLen dev skb),
          a.slotOf (q + headerSlots (lsoHdrLen dev skb)), headerSlots (lsoHdrLen dev skb)) := by
  have hmark := (isLso_xmitChecked hmss hop).mpr hlso
  have hlen := @totalHdrLength_xmitChecked dev skb d (hmss ▸ hlso.1)
  refine ⟨_, hlen, fun hnone => ?_, ?_⟩
  · rw [vlanOobLso, vlanOob, hnone]
  · rw [nxNicTsoCopyHeaders]
    dsimp only
    rw [isLso_vlanOob, if_pos hmark, hlen, headerCopies, headerSlots, next_slotOf hprod,
      next_slotOf hprod]
    split
    · rw [List.append_assoc]
    · rw [List.append_nil]

/-- The tag is in the first descriptor, with the length of the header. -/
theorem storeTag_records (saved : Nat) (d : CmdDescType0) :
    ∀ e ∈ storeTag skb saved d, e.Records := by
  intro e he
  rw [storeTag] at he
  split at he
  · rw [List.mem_singleton.mp he]
    trivial
  · exact absurd he List.not_mem_nil

/-- **An LSO packet**: its parts are recorded, its headers are copied, and it is made known. -/
theorem xmitQueue_lso {io : XmitIo} (hprod : a.cmdProducer < a.maxTxDescCount)
    (hroom : skb.noOfDesc < a.maxTxDescCount) (hmapped : Mapped io skb)
    (hlso : lsoPacket dev skb) :
    ∃ pre, xmitQueue dev io skb a = pre ++ headerCopies a skb skb.noOfDesc (lsoHdrLen dev skb) ++
        [.produce (a.slotOf (skb.noOfDesc + headerSlots (lsoHdrLen dev skb)))
            (skb.noOfDesc + headerSlots (lsoHdrLen dev skb)),
          .doorbell (a.slotOf (skb.noOfDesc + headerSlots (lsoHdrLen dev skb)))] ∧
      (∀ e ∈ pre, e.Records) ∧
      ((a.execAll pre).cmdDescHead a.cmdProducer).totalHdrLength.toNat = lsoHdrLen dev skb := by
  obtain ⟨pre, x, hqueue, hpre, hq, hnext, hmss, hop⟩ :=
    xmitQueue_finish dev hprod hroom hmapped
  obtain ⟨d, hlen, huntagged, hcopy⟩ :=
    tsoCopyHeaders_lso (q := skb.noOfDesc) a.cmdProducer hprod hlso hmss hop
  refine ⟨pre ++ .desc a.cmdProducer (xmitChecked skb (tagged dev skb) x.first) ::
    storeTag skb a.cmdProducer d, ?_, ?_, ?_⟩
  · rw [hqueue, xmitFinish, hnext, hcopy, hq]
    simp only [List.cons_append, List.append_assoc]
  · intro e he
    rcases List.mem_append.mp he with he | he
    · exact hpre e he
    · rcases List.mem_cons.mp he with rfl | he
      · trivial
      · exact storeTag_records a.cmdProducer d e he
  · have hstored : ∀ b : Adapter,
        ((b.exec (.desc a.cmdProducer d)).cmdDescHead a.cmdProducer).totalHdrLength.toNat =
          lsoHdrLen dev skb := by
      intro b
      show (Function.update b.cmdDescHead a.cmdProducer d a.cmdProducer).totalHdrLength.toNat = _
      rw [Function.update_self, hlen]
    rw [Adapter.execAll_append, Adapter.execAll_cons, storeTag]
    cases hv : skb.vlanTag with
    | none =>
      rw [← huntagged hv]
      exact hstored _
    | some tci => exact hstored _

end

/-! ## The header slots -/

section
variable {dev : NetDev} {io : XmitIo} {skb s : Skb} {a : Adapter}

/-- The slots of a packet are different. -/
theorem slotOf_ne {j l : Nat} (hjl : j < l) (hl : l < a.maxTxDescCount) :
    a.slotOf j ≠ a.slotOf l := slot_ne hjl hl

/-- What the copies leave in the header slots. -/
theorem headerCopies_bytes {enc : CmdDescType0 → Bytes} {m : Bytes} {q n : Nat}
    (hroom : q + 1 < a.maxTxDescCount) (htag : skb.vlanTag.isSome = true → 16 ≤ n) (hn : n ≤ 126)
    {j : Nat} (hj : j < n) :
    ringAfter enc m (headerCopies a skb q n)
      (descSize * a.slotOf (q + (ipAlignmentBytes + j) / descSize) +
        (ipAlignmentBytes + j) % descSize) = skb.wireByte j := by
  have hsize : descSize = 64 := rfl
  have hstart : ipAlignmentBytes = 2 := rfl
  have hne := slotOf_ne (a := a) (Nat.lt_add_one q) hroom
  rw [headerCopies, ringAfter_append]
  simp only [hsize, hstart]
  by_cases hmore : 64 - 2 < n
  · have hfirst : firstHdrLen n = 62 := Nat.min_eq_right (Nat.le_of_lt hmore)
    rw [if_pos hmore]
    rcases Nat.lt_or_ge j 62 with hlt | hge
    · -- the second copy is in another slot
      rw [Nat.div_eq_of_lt (by omega), Nat.mod_eq_of_lt (by omega), Nat.add_zero q,
        copyMore_frame (by omega)]
      exact copyFirst_bytes htag (by omega)
    · obtain ⟨i, rfl⟩ := Nat.exists_eq_add_of_le hge
      have hdiv : (2 + (62 + i)) / 64 = 1 := by omega
      have hmod : (2 + (62 + i)) % 64 = i := by omega
      rw [hdiv, hmod, copyMore_bytes hmore (by omega), hfirst]
  · have hfirst : firstHdrLen n = n := Nat.min_eq_left (Nat.not_lt.mp hmore)
    rw [if_neg hmore, Nat.div_eq_of_lt (by omega), Nat.mod_eq_of_lt (by omega)]
    exact copyFirst_bytes htag (by omega)

/-- The effect is a copy. -/
def Effect.Copies : Effect → Prop
  | .copy _ _ _ => True
  | _ => False

theorem headerCopies_copies (q n : Nat) : ∀ e ∈ headerCopies a skb q n, e.Copies := by
  intro e he
  rcases List.mem_append.mp he with he | he
  · rw [copyFirst] at he
    split at he
    · simp only [List.mem_cons, List.not_mem_nil, or_false] at he
      rcases he with rfl | rfl | rfl | rfl <;> trivial
    · rw [List.mem_singleton.mp he]
      trivial
  · split at he
    · rw [List.mem_singleton.mp he]
      trivial
    · exact absurd he List.not_mem_nil

theorem producedBy_headerCopies (q n : Nat) : producedBy (headerCopies a skb q n) = 0 := by
  refine producedBy_eq_zero fun e he => ?_
  have hcopy := headerCopies_copies q n e he
  cases e with
  | copy off src k => rfl
  | _ => exact absurd hcopy id

/-- **The headers are on the ring.**  Of an LSO packet that is queued with all its parts mapped, the
header slots hold the `n` bytes of its header after the call, with the out-of-band tag in its
place, whatever the ring held before and wherever it wraps.  A header of more than 126 bytes goes
past the slots, and is left to `headers_contained_iff`. -/
theorem headers_copied (hprod : a.cmdProducer < a.maxTxDescCount)
    (hcons : a.lastCmdConsumer < a.maxTxDescCount) (hs : queuedAs dev io skb a = some s)
    (hmapped : Mapped io s) (hlso : lsoPacket dev s) (hlegal : 0 ≤ s.nwHdrLen)
    (hlen : headerLen dev s ≤ 126) :
    HeadersCopied a (unmNicXmitFrame dev io skb a).1 s (tsoHdrLen s (tagged dev s)).toNat := by
  have hroom := room_of_queuedAs hcons hs
  have hge := headerLen_ge dev hlegal
  have hmod := lsoHdrLen_mod dev s
  obtain ⟨n, hn⟩ : ∃ n, n = (tsoHdrLen s (tagged dev s)).toNat := ⟨_, rfl⟩
  have htotal : n + s.oobLen = lsoHdrLen dev s := by
    unfold headerLen at hge hlen hmod
    omega
  rw [← hn]
  obtain ⟨pre, hqueue, hpre, -⟩ := xmitQueue_lso hprod (by omega) hmapped hlso
  rw [unmNicXmitFrame_queued hs]
  have hslots : headerSlots (lsoHdrLen dev s) =
      (n + s.oobLen + ipAlignmentBytes + 63) / descSize := by
    rw [htotal]
    show (if 62 < lsoHdrLen dev s then 2 else 1) = (lsoHdrLen dev s + 2 + 63) / 64
    split <;> omega
  have h12 : 12 ≤ n := by
    unfold headerLen at hge
    omega
  have htag : s.vlanTag.isSome = true → 16 ≤ lsoHdrLen dev s := fun hsome => by
    rw [← htotal, Skb.oobLen, if_pos hsome, vlanHlen]
    omega
  refine ⟨fun enc m => ?_, ?_, ?_⟩
  · rw [hqueue, wireHeader_eq s h12, htotal, ringAfter_append, ringAfter_append]
    refine List.map_congr_left fun j hj => ?_
    exact headerCopies_bytes (by omega) htag (by omega) (List.mem_range.mp hj)
  · rw [hqueue, producedBy_append, producedBy_append, producedBy_headerCopies,
      producedBy_eq_zero fun e he => (hpre e he).produced, ← hslots]
    show 0 + 0 + (s.noOfDesc + _ + (0 + 0)) = _
    omega
  · rw [hqueue, Adapter.execAll_append, ← hslots]
    rfl

/-- A header that is not too long stays in its slots. -/
theorem headerCopies_contained {q n : Nat} (htag : skb.vlanTag.isSome = true → 16 ≤ n)
    (hn : n ≤ 126) {off k : Nat} {src : Nat → BitVec 8}
    (hmem : .copy off src k ∈ headerCopies a skb q n) {i : Nat} (hle : off ≤ i)
    (hlt : i < off + k) : ∃ j < headerSlots n, i / descSize = a.slotOf (q + j) := by
  have hsize : descSize = 64 := rfl
  have hstart : ipAlignmentBytes = 2 := rfl
  have hfirst := firstHdrLen_le n
  rw [hsize]
  rcases List.mem_append.mp hmem with hmem | hmem
  · refine ⟨0, ?_, ?_⟩
    · rw [headerSlots]
      split <;> decide
    · suffices 64 * a.slotOf q ≤ i ∧ i < 64 * a.slotOf q + 64 by
        rw [Nat.add_zero]
        omega
      rw [copyFirst] at hmem
      split at hmem
      · rename_i hv
        have hthird := sizeT_first (htag (by rw [hv]; rfl))
        simp only [List.mem_cons, Effect.copy.injEq, List.not_mem_nil, or_false, hthird,
          hsize] at hmem
        omega
      · rw [hsize, hstart] at hmem
        obtain ⟨rfl, -, rfl⟩ := Effect.copy.inj (List.mem_singleton.mp hmem)
        omega
  · split at hmem
    · rename_i hmore
      rw [hsize] at hmem
      obtain ⟨rfl, -, rfl⟩ := Effect.copy.inj (List.mem_singleton.mp hmem)
      refine ⟨1, ?_, ?_⟩
      · rw [headerSlots, if_pos hmore]
        exact Nat.one_lt_two
      · have hlen : firstHdrLen n = 62 := Nat.min_eq_right (Nat.le_of_lt hmore)
        omega
    · exact absurd hmem List.not_mem_nil

/-- A TCP header of 60 bytes behind an IPv4 header of 20, in a packet with an out-of-band tag. -/
def taggedSkb : Skb where
  id := 1
  len := 4000
  gsoSize := 1440
  protocol := 0x0800
  vlanTag := some 0x2005
  data := fun i => if i = 46 then 0xf0 else BitVec.ofNat 8 i

/-- The second header slot is the first slot of the ring. -/
theorem headers_copied_tagged :
    HeadersCopied { maxTxDescCount := 16, cmdProducer := 14, lastCmdConsumer := 14 }
      (unmNicXmitFrame {} pageIo taggedSkb
        { maxTxDescCount := 16, cmdProducer := 14, lastCmdConsumer := 14 }).1 taggedSkb 94 :=
  @headers_copied {} pageIo taggedSkb taggedSkb _ (by decide) (by decide) rfl (by decide)
    (by decide) (by decide) (by decide)

/-- A header that is too long is copied past its second slot. -/
theorem headerCopies_past (a : Adapter) (skb : Skb) (q : Nat) {n : Nat} (hn : 126 < n) :
    ∃ src, ∃ k > 64, .copy (64 * a.slotOf (q + 1)) src k ∈ headerCopies a skb q n := by
  have hmore : descSize - ipAlignmentBytes < n := Nat.lt_trans (by decide) hn
  have hfirst := firstHdrLen_le n
  refine ⟨skb.bytesFrom (if skb.vlanTag.isSome then firstHdrLen n - vlanHlen else firstHdrLen n),
    n - firstHdrLen n, by omega, List.mem_append.mpr (.inr ?_)⟩
  rw [if_pos hmore]
  exact List.mem_singleton.mpr rfl

/-- **Where the copies stay.**  The descriptor has the length of the header, and the copies stay in
the slots that the producer passes, just if the header with its tag has at most 126 bytes: the
second copy takes all that is left behind the first slot's 62 bytes, and its end is not checked. -/
theorem headers_contained_iff (hprod : a.cmdProducer < a.maxTxDescCount)
    (hcons : a.lastCmdConsumer < a.maxTxDescCount) (hs : queuedAs dev io skb a = some s)
    (hmapped : Mapped io s) (hlso : lsoPacket dev s) (hlegal : 0 ≤ s.nwHdrLen) :
    HeadersContained a (unmNicXmitFrame dev io skb a).1 s (headerLen dev s) ↔
      headerLen dev s ≤ 126 := by
  have hroom := room_of_queuedAs hcons hs
  have hge := headerLen_ge dev hlegal
  have hmod := lsoHdrLen_mod dev s
  obtain ⟨n, hn⟩ : ∃ n, n = lsoHdrLen dev s := ⟨_, rfl⟩
  obtain ⟨pre, hqueue, hpre, hfield⟩ := xmitQueue_lso hprod (by omega) hmapped hlso
  rw [← hn] at hmod hqueue hfield
  rw [unmNicXmitFrame_queued hs]
  have hends : ∀ (p m : Nat), ∀ e ∈ [Effect.produce p m, .doorbell p],
      e.KeepsDesc ∧ ¬e.Copies := by
    simp [Effect.KeepsDesc, Effect.Copies]
  have hcopies : ∀ e ∈ headerCopies a s s.noOfDesc n, e.KeepsDesc := by
    intro e he
    have hcopy := headerCopies_copies s.noOfDesc n e he
    cases e with
    | copy off src k => trivial
    | _ => exact absurd hcopy id
  have hdesc : (a.execAll (xmitQueue dev io s a)).cmdDescHead = (a.execAll pre).cmdDescHead := by
    rw [hqueue, Adapter.execAll_append, Adapter.execAll_append,
      execAll_cmdDescHead fun e he => (hends _ _ e he).1, execAll_cmdDescHead hcopies]
  have hproduced : producedBy (xmitQueue dev io s a) = s.noOfDesc + headerSlots n := by
    rw [hqueue, producedBy_append, producedBy_append, producedBy_headerCopies,
      producedBy_eq_zero fun e he => (hpre e he).produced]
    show 0 + 0 + (s.noOfDesc + _ + (0 + 0)) = _
    omega
  have hmem : ∀ off src k, .copy off src k ∈ xmitQueue dev io s a ↔
      .copy off src k ∈ headerCopies a s s.noOfDesc n := by
    intro off src k
    rw [hqueue, List.mem_append, List.mem_append]
    constructor
    · rintro ((h | h) | h)
      · exact absurd rfl ((hpre _ h).ne_copy off src k)
      · exact h
      · exact absurd trivial (hends _ _ _ h).2
    · exact fun h => .inl (.inr h)
  constructor
  · rintro ⟨hlen, t, htwo, -, hslots⟩
    rw [hdesc, hfield] at hlen
    by_contra hlong
    obtain ⟨src, k, hk, hcopy⟩ :=
      headerCopies_past a s s.noOfDesc (n := n) (by omega)
    -- the byte behind the second slot is in the slot after it
    obtain ⟨j, hj, hslot⟩ := hslots _ src k ((hmem _ src k).mpr hcopy)
      (64 * a.slotOf (s.noOfDesc + 1) + 64) (by omega) (by omega)
    have hnext := next_slotOf hprod s.noOfDesc
    have hsize : descSize = 64 := rfl
    rw [hsize] at hslot
    rw [Ring.next] at hnext
    obtain rfl | rfl : j = 0 ∨ j = 1 := by omega
    · rw [Nat.add_zero s.noOfDesc] at hslot
      split at hnext <;> omega
    · omega
  · intro hlen
    refine ⟨?_, headerSlots n, ?_, hproduced, fun off src k hcopy i hle hlt => ?_⟩
    · rw [hdesc, hfield]
      omega
    · rw [headerSlots]
      split <;> decide
    · refine headerCopies_contained (fun hsome => ?_) (by omega) ((hmem off src k).mp hcopy)
        hle hlt
      rw [Skb.oobLen, if_pos hsome, vlanHlen] at hge
      omega

/-- With the tag the header of `taggedSkb` has 98 bytes, in two slots. -/
theorem headers_contained_tagged :
    HeadersContained { maxTxDescCount := 16, cmdProducer := 14, lastCmdConsumer := 14 }
      (unmNicXmitFrame {} pageIo taggedSkb
        { maxTxDescCount := 16, cmdProducer := 14, lastCmdConsumer := 14 }).1 taggedSkb 98 :=
  (@headers_contained_iff {} pageIo taggedSkb taggedSkb _ (by decide) (by decide) rfl (by decide)
    (by decide) (by decide)).mpr (by decide)

/-- A TCP header of 60 bytes behind an IPv4 header of 60. -/
def fullHeaders : Skb where
  id := 1
  len := 4000
  gsoSize := 1440
  protocol := 0x0800
  transportOffset := 74
  data := fun i => if i = 86 then 0xf0 else BitVec.ofNat 8 i

/-- The longest headers of IPv4 and TCP are copied into three slots. -/
theorem full_headers_past :
    queuedAs {} pageIo fullHeaders { maxTxDescCount := 16 } = some fullHeaders ∧
      Mapped pageIo fullHeaders ∧ lsoPacket {} fullHeaders ∧
      ¬HeadersContained { maxTxDescCount := 16 }
        (unmNicXmitFrame {} pageIo fullHeaders { maxTxDescCount := 16 }).1 fullHeaders 134 := by
  refine ⟨rfl, by decide, by decide, ?_⟩
  rintro ⟨-, t, ht, -, hslots⟩
  have hmem : Effect.copy 128 (fullHeaders.bytesFrom 62) 72 ∈
      (unmNicXmitFrame {} pageIo fullHeaders { maxTxDescCount := 16 }).1 :=
    List.mem_of_getElem? (i := 7) rfl
  obtain ⟨j, hj, hslot⟩ := hslots _ _ _ hmem 192 (by decide) (by decide)
  obtain rfl | rfl : j = 0 ∨ j = 1 := by omega
  · exact absurd hslot (by decide)
  · exact absurd hslot (by decide)

end

end Tx
end NxNic

import NxNic.Tx.Buffers

/-! # The parts of a packet in its descriptors

A packet has its linear part and its page fragments, four of them to a descriptor.  The loop of
`unm_nic_xmit_frame` counts the parts by `i` and the buffers of a descriptor by `k`, which begins
again at each new descriptor.

The state is the `Adapter` of `Tx/Types`, with the descriptors and the entries of `cmd_buf_arr`
in the slots of the ring.  A call leaves a list of effects, and `Adapter.execAll` carries them
out: here the descriptors and the entry are read back from that, after the call.

What holds of every packet is `Placed`: the slots that are stored to, the number of parts in the
first descriptor, and the parts in the entry.  What the card reads is `Described`, and its lengths
are cut to the 16 bits of a buffer and the 24 of the packet.  The loop keeps `Laid`, that the parts
before `i` are recorded, each as its fields can hold it (`stored`), in the descriptors taken so
far; `packet_scattered_iff` reads both off it, and has `LengthsFit` as the exact condition for the
second.
-/
namespace NxNic
namespace Tx

/-- Buffer `k` of a descriptor: its length and its address. -/
def CmdDescType0.buffer (d : CmdDescType0) : Nat → BitVec 16 × BitVec 64
  | 0 => (d.buffer1Length, d.addrBuffer1)
  | 1 => (d.buffer2Length, d.addrBuffer2)
  | 2 => (d.buffer3Length, d.addrBuffer3)
  | 3 => (d.buffer4Length, d.addrBuffer4)
  | _ => (0, 0)

/-- The four buffers of a descriptor in order. -/
def CmdDescType0.buffers (d : CmdDescType0) : List (Nat × BitVec 64) :=
  (List.range 4).map fun k => ((d.buffer k).1.toNat, (d.buffer k).2)

/-- Part `i` of a packet, the linear one first: its length and its DMA address. -/
def part (io : XmitIo) (skb : Skb) : Nat → Nat × BitVec 64
  | 0 => (skb.len - skb.dataLen, io.mapSkb.getD 0)
  | i + 1 => (skb.frags.getD i 0, (io.mapPage (i + 1)).getD 0)

/-- The parts of a packet. -/
def parts (io : XmitIo) (skb : Skb) : List (Nat × BitVec 64) :=
  (List.range skb.fragCount).map (part io skb)

/-- The slot of the `j`-th descriptor of a packet that is put on the ring in `a`. -/
def Adapter.slotOf (a : Adapter) (j : Nat) : Nat := (a.cmdProducer + j) % a.maxTxDescCount

/-- **What holds of every packet** after the effects `es` of its call on `a`: its first descriptor
counts its parts, its entry of `cmd_buf_arr` records them, and the effects store into the
descriptors from the producer on that its parts need, and into no other. -/
structure Placed (a : Adapter) (es : List Effect) (io : XmitIo) (skb : Skb) : Prop where
  numOfBuffers : ((a.execAll es).cmdDescHead a.cmdProducer).numOfBuffers.toNat = skb.fragCount
  fragArray : (List.range skb.fragCount).map (fun i =>
      let f := ((a.execAll es).cmdBufArr a.cmdProducer).fragArray i
      (f.length, f.dma)) = parts io skb
  stored : ∀ slot, (∃ d, .desc slot d ∈ es) ↔ ∃ j < skb.noOfDesc, slot = a.slotOf j

/-- **What the card reads**: the buffers of the descriptors in order are the parts of the packet
and then zeros, and the first descriptor has the packet's length. -/
structure Described (a : Adapter) (es : List Effect) (io : XmitIo) (skb : Skb) : Prop where
  buffers : (List.range skb.noOfDesc).flatMap
      (fun j => ((a.execAll es).cmdDescHead (a.slotOf j)).buffers) =
    parts io skb ++ List.replicate (4 * skb.noOfDesc - skb.fragCount) (0, 0)
  totalLength : ((a.execAll es).cmdDescHead a.cmdProducer).totalLength.toNat = skb.len

/-- **The condition**: the lengths fit in the fields of a descriptor. -/
def LengthsFit (io : XmitIo) (skb : Skb) : Prop :=
  (∀ i < skb.fragCount, (part io skb i).1 < 2 ^ 16) ∧ skb.len < 2 ^ 24

instance decidableLengthsFit (io : XmitIo) (skb : Skb) : Decidable (LengthsFit io skb) := by
  unfold LengthsFit; infer_instance

/-! ## Descriptors -/

/-- What the parts of a packet are recorded in. -/
def CmdDescType0.gather (d : CmdDescType0) : CmdDescType0 :=
  { numOfBuffers := d.numOfBuffers
    totalLength := d.totalLength
    buffer1Length := d.buffer1Length
    buffer2Length := d.buffer2Length
    buffer3Length := d.buffer3Length
    buffer4Length := d.buffer4Length
    addrBuffer1 := d.addrBuffer1
    addrBuffer2 := d.addrBuffer2
    addrBuffer3 := d.addrBuffer3
    addrBuffer4 := d.addrBuffer4 }

theorem gather_buffer (d : CmdDescType0) (k : Nat) : d.gather.buffer k = d.buffer k := rfl

theorem buffer_empty (k : Nat) : ({} : CmdDescType0).buffer k = (0, 0) := by
  match k with
  | 0 | 1 | 2 | 3 | k + 4 => rfl

theorem buffer_setBuffer {d : CmdDescType0} {k len : Nat} {dma : BitVec 64} (hk : k < 4) (j : Nat) :
    (d.setBuffer k len dma).buffer j =
      if j = k then (BitVec.ofNat 16 len, dma) else d.buffer j := by
  match k, j with
  | 0, 0 | 0, 1 | 0, 2 | 0, 3 | 0, j + 4 => rfl
  | 1, 0 | 1, 1 | 1, 2 | 1, 3 | 1, j + 4 => rfl
  | 2, 0 | 2, 1 | 2, 2 | 2, 3 | 2, j + 4 => rfl
  | 3, 0 | 3, 1 | 3, 2 | 3, 3 | 3, j + 4 => rfl
  | k + 4, _ => exact absurd hk (by omega)

theorem gather_nxNicCheckTso (skb : Skb) (t : Nat) (d : CmdDescType0) :
    (nxNicCheckTso skb t d).gather = d.gather := by
  unfold nxNicCheckTso
  repeat' split
  all_goals rfl

theorem gather_xmitChecked (skb : Skb) (t : Nat) (d : CmdDescType0) :
    (xmitChecked skb t d).gather = d.gather := by
  rw [← gather_nxNicCheckTso skb t d, xmitChecked]
  split <;> rfl

theorem gather_vlanOob (skb : Skb) (d : CmdDescType0) : (vlanOob skb d).gather = d.gather := by
  unfold vlanOob
  split <;> rfl

theorem gather_vlanOobLso (skb : Skb) (d : CmdDescType0) :
    (vlanOobLso skb d).gather = d.gather := by
  unfold vlanOobLso
  split <;> rfl

/-! ## Stores -/

/-- The effect leaves the descriptors as they are. -/
def Effect.KeepsDesc : Effect → Prop
  | .desc _ _ => False
  | _ => True

theorem exec_cmdDescHead {e : Effect} (h : e.KeepsDesc) (a : Adapter) :
    (a.exec e).cmdDescHead = a.cmdDescHead := by
  cases e with
  | desc s d => exact absurd h id
  | copy off src len => rw [Adapter.exec, Adapter.setCmdConsumer_cmdDescHead]
  | _ => rfl

theorem execAll_cmdDescHead {es : List Effect} (h : ∀ e ∈ es, e.KeepsDesc) (a : Adapter) :
    (a.execAll es).cmdDescHead = a.cmdDescHead :=
  execAll_keeps Adapter.cmdDescHead (fun e he => exec_cmdDescHead (h e he)) a

/-! ## The loop -/

/-- What is recorded of part `i` in a descriptor. -/
def stored (io : XmitIo) (skb : Skb) (i : Nat) : BitVec 16 × BitVec 64 :=
  (BitVec.ofNat 16 (part io skb i).1, (part io skb i).2)

/-- The loop at part `i`, with the descriptors `H`: the parts before it are recorded. -/
structure Laid (N P : Nat) (io : XmitIo) (skb : Skb) (H : Nat → CmdDescType0) (v : XmitLocals)
    (i : Nat) : Prop where
  producer : v.producer = (P + v.moved) % N
  index : i = 4 * v.moved + v.k
  le : v.k ≤ 4
  hwdesc : H ((P + v.moved) % N) = v.hwdesc
  first : H (P % N) = v.first
  buffers : ∀ m < 4 * (v.moved + 1), (H ((P + m / 4) % N)).buffer (m % 4) =
    if m < i then stored io skb m else (0, 0)
  fragArray : ∀ m < i, v.pbuf.fragArray m = ⟨(part io skb m).2, (part io skb m).1⟩
  numOfBuffers : v.first.numOfBuffers = BitVec.ofNat 8 skb.fragCount
  totalLength : v.first.totalLength = BitVec.ofNat 24 skb.len

section
variable {N P i : Nat} {io : XmitIo} {skb : Skb} {H : Nat → CmdDescType0} {v : XmitLocals}

theorem numOfBuffers_setBuffer (d : CmdDescType0) (k len : Nat) (dma : BitVec 64) :
    (d.setBuffer k len dma).numOfBuffers = d.numOfBuffers := by
  unfold CmdDescType0.setBuffer
  split <;> rfl

theorem totalLength_setBuffer (d : CmdDescType0) (k len : Nat) (dma : BitVec 64) :
    (d.setBuffer k len dma).totalLength = d.totalLength := by
  unfold CmdDescType0.setBuffer
  split <;> rfl

/-- Slots of one packet are different. -/
theorem slot_ne {j l : Nat} (hjl : j < l) (hl : l < N) : (P + j) % N ≠ (P + l) % N := fun h => by
  have heq := Ring.eq_of_mod_eq (N := N) (a := P + j) (b := P + l) (by omega) (by omega) h
  omega

/-- A part goes in the descriptor that the loop is at. -/
theorem Laid.put (h : Laid N P io skb H v i) (hk : v.k < 4) (hroom : v.moved < N) :
    Laid N P io skb (Function.update H v.producer
        (v.hwdesc.setBuffer v.k (part io skb i).1 (part io skb i).2))
      (v.putFrag i (part io skb i).1 (part io skb i).2) (i + 1) := by
  obtain ⟨hprod, hidx, hle, hhw, hfirst, hbufs, hfrags, hnum, htotal⟩ := h
  rw [hprod]
  have hsame : (v.putFrag i (part io skb i).1 (part io skb i).2).hwdesc =
      v.hwdesc.setBuffer v.k (part io skb i).1 (part io skb i).2 := rfl
  refine ⟨hprod, ?_, hk, ?_, ?_, ?_, ?_, ?_, ?_⟩
  · show i + 1 = 4 * v.moved + (v.k + 1)
    omega
  · exact (Function.update_self ..).trans hsame.symm
  · show _ = if v.moved = 0 then _ else v.first
    split
    · rename_i h0
      rw [h0, Nat.add_zero]
      exact Function.update_self ..
    · rename_i h0
      have hne := slot_ne (P := P) (Nat.pos_of_ne_zero h0) hroom
      rw [Nat.add_zero] at hne
      rw [Function.update_of_ne hne, hfirst]
  · intro m hm
    have hdiv : m / 4 < v.moved + 1 := by
      have : (v.putFrag i (part io skb i).1 (part io skb i).2).moved = v.moved := rfl
      omega
    rcases Nat.lt_succ_iff_lt_or_eq.mp hdiv with hlt | heq
    · rw [Function.update_of_ne (slot_ne hlt hroom), hbufs m (by omega), if_pos (by omega),
        if_pos (by omega)]
    · rw [heq, Function.update_self, buffer_setBuffer hk]
      have hold := hbufs m (by omega)
      rw [heq, hhw] at hold
      split
      · have hmi : m = i := by omega
        rw [if_pos (by omega), hmi]
        rfl
      · rw [hold]
        refine if_congr (by omega) rfl rfl
  · intro m hm
    show Function.update v.pbuf.fragArray i _ m = _
    by_cases hmi : m = i
    · rw [hmi, Function.update_self]
    · rw [Function.update_of_ne hmi, hfrags m (by omega)]
  · show (if v.moved = 0 then _ else v.first).numOfBuffers = _
    split
    · rename_i h0
      rw [h0, Nat.add_zero, hfirst] at hhw
      rw [numOfBuffers_setBuffer, ← hhw, hnum]
    · exact hnum
  · show (if v.moved = 0 then _ else v.first).totalLength = _
    split
    · rename_i h0
      rw [h0, Nat.add_zero, hfirst] at hhw
      rw [totalLength_setBuffer, ← hhw, htotal]
    · exact htotal

/-- The loop moves to the next descriptor, which is cleared. -/
theorem Laid.next (hN : 0 < N) (h : Laid N P io skb H v i) (hk : v.k = 4)
    (hroom : v.moved + 1 < N) :
    Laid N P io skb (Function.update H (v.nextDesc N).producer {}) (v.nextDesc N) i := by
  obtain ⟨hprod, hidx, hle, hhw, hfirst, hbufs, hfrags, hnum, htotal⟩ := h
  have hnext : (v.nextDesc N).producer = (P + (v.moved + 1)) % N := by
    show Ring.next N v.producer = _
    rw [hprod, next_add_mod hN]
  rw [hnext]
  refine ⟨hnext, ?_, Nat.zero_le 4, ?_, ?_, ?_, hfrags, hnum, htotal⟩
  · show i = 4 * (v.moved + 1) + 0
    omega
  · exact Function.update_self ..
  · have hne := slot_ne (P := P) (Nat.succ_pos v.moved) hroom
    rw [Nat.add_zero] at hne
    exact (Function.update_of_ne hne ..).trans hfirst
  · intro m hm
    have hdiv : m / 4 < v.moved + 2 := by
      have : (v.nextDesc N).moved = v.moved + 1 := rfl
      omega
    rcases Nat.lt_succ_iff_lt_or_eq.mp hdiv with hlt | heq
    · rw [Function.update_of_ne (slot_ne hlt hroom), hbufs m (by omega)]
    · rw [heq, Function.update_self, buffer_empty, if_neg (by omega)]

/-- The loop is at a descriptor with room for a part. -/
theorem Laid.turn (hN : 0 < N) {a : Adapter} (h : Laid N P io skb a.cmdDescHead v i)
    (hpos : 1 ≤ v.k) (hroom : i / 4 < N) {w : XmitLocals}
    (hw : w = if v.k % 4 = 0 then v.nextDesc N else v) :
    Laid N P io skb
        (a.execAll (if v.k % 4 = 0 then [.desc w.producer w.hwdesc] else [])).cmdDescHead w i ∧
      w.k < 4 ∧ w.moved < N := by
  have hidx := h.index
  have hle := h.le
  by_cases hk : v.k = 4
  · have hzero : v.k % 4 = 0 := by omega
    rw [if_pos hzero] at hw ⊢
    rw [hw]
    exact ⟨h.next hN hk (by omega), Nat.succ_pos 3, show v.moved + 1 < N by omega⟩
  · have hzero : v.k % 4 ≠ 0 := by omega
    rw [if_neg hzero] at hw ⊢
    rw [hw]
    exact ⟨h, by omega, by omega⟩

/-- **The loop** records all parts from `i` on, if they are mapped. -/
theorem Laid.mapFrags (hN : 0 < N) {frags : List Nat} {a : Adapter}
    (h : Laid N P io skb a.cmdDescHead v i) (hpos : 1 ≤ v.k)
    (hfrags : ∀ j < frags.length, frags.getD j 0 = (part io skb (i + j)).1 ∧
      io.mapPage (i + j) = some (part io skb (i + j)).2)
    (hroom : (i + frags.length + 3) / 4 < N) {x : XmitLocals}
    (hx : (mapFrags io N (P % N) frags i v).2 = some x) :
    Laid N P io skb (a.execAll (mapFrags io N (P % N) frags i v).1).cmdDescHead x
      (i + frags.length) ∧ 1 ≤ x.k := by
  induction frags generalizing a i v with
  | nil =>
    obtain rfl := Option.some.inj hx
    exact ⟨h, hpos⟩
  | cons len rest ih =>
    obtain ⟨hlen, hdma⟩ := hfrags 0 (Nat.succ_pos _)
    rw [List.length_cons] at hroom
    rw [Nat.add_zero] at hlen hdma
    rw [List.getD_cons_zero] at hlen
    rw [Tx.mapFrags] at hx ⊢
    obtain ⟨w, hw⟩ : ∃ w, w = if v.k % 4 = 0 then v.nextDesc N else v := ⟨_, rfl⟩
    obtain ⟨hlaid, hk, hmoved⟩ := h.turn hN hpos (by omega) hw
    simp only [hdma, ← hw] at hx ⊢
    have hput := hlaid.put hk hmoved
    rw [← hlen] at hput
    rw [Adapter.execAll_append, Adapter.execAll_append, List.length_cons, Nat.add_comm rest.length,
      ← Nat.add_assoc]
    refine ih (i := i + 1) hput (Nat.le_add_left 1 w.k) (fun j hj => ?_) (by omega) hx
    have hj' := hfrags (j + 1) (Nat.succ_lt_succ hj)
    rwa [List.getD_cons_succ, Nat.add_comm j 1, ← Nat.add_assoc] at hj'

/-- The effects store into the descriptor. -/
def StoresDesc (es : List Effect) (slot : Nat) : Prop := ∃ d, .desc slot d ∈ es

theorem storesDesc_append {es fs : List Effect} {slot : Nat} :
    StoresDesc (es ++ fs) slot ↔ StoresDesc es slot ∨ StoresDesc fs slot := by
  simp only [StoresDesc, List.mem_append, exists_or]

theorem storesDesc_cons {e : Effect} {es : List Effect} {slot : Nat} :
    StoresDesc (e :: es) slot ↔ StoresDesc [e] slot ∨ StoresDesc es slot :=
  @storesDesc_append [e] es slot

theorem storesDesc_desc {s slot : Nat} {d : CmdDescType0} :
    StoresDesc [.desc s d] slot ↔ slot = s := by
  simp [StoresDesc]

theorem storesDesc_keeps {es : List Effect} (h : ∀ e ∈ es, e.KeepsDesc) (slot : Nat) :
    ¬StoresDesc es slot := fun ⟨_, hd⟩ => h _ hd

/-- The descriptors that the loop stores into, with the one that it begins at. -/
theorem mapFrags_stores (hN : 0 < N) {saved : Nat} {frags : List Nat} {x : XmitLocals}
    (hprod : v.producer = (P + v.moved) % N)
    (hx : (mapFrags io N saved frags i v).2 = some x) :
    v.moved ≤ x.moved ∧ ∀ slot,
      (slot = (P + v.moved) % N ∨ StoresDesc (mapFrags io N saved frags i v).1 slot) ↔
        ∃ j, v.moved ≤ j ∧ j ≤ x.moved ∧ slot = (P + j) % N := by
  induction frags generalizing i v with
  | nil =>
    obtain rfl := Option.some.inj hx
    refine ⟨Nat.le_refl _, fun slot => ?_⟩
    have hnone : ¬StoresDesc (mapFrags io N saved [] i v).1 slot :=
      storesDesc_keeps (fun e he => absurd he List.not_mem_nil) slot
    rw [or_iff_left hnone]
    constructor
    · exact fun h => ⟨v.moved, Nat.le_refl _, Nat.le_refl _, h⟩
    · rintro ⟨j, hge, hle, h⟩
      rwa [Nat.le_antisymm hle hge] at h
  | cons len rest ih =>
    rw [mapFrags] at hx ⊢
    cases hdma : io.mapPage i with
    | none => simp [hdma] at hx
    | some dma =>
      have hwprod : (if v.k % 4 = 0 then v.nextDesc N else v).producer =
          (P + (if v.k % 4 = 0 then v.nextDesc N else v).moved) % N := by
        split
        · show Ring.next N v.producer = _
          rw [hprod, next_add_mod hN]
          rfl
        · exact hprod
      have hmoved : (if v.k % 4 = 0 then v.nextDesc N else v).moved = v.moved ∨
          (if v.k % 4 = 0 then v.nextDesc N else v).moved = v.moved + 1 := by
        split
        · exact .inr rfl
        · exact .inl rfl
      simp only [hdma] at hx ⊢
      generalize (if v.k % 4 = 0 then v.nextDesc N else v) = w at hx hwprod hmoved ⊢
      obtain ⟨hle, hstores⟩ := ih (i := i + 1) (v := w.putFrag i len dma) hwprod hx
      have hwmoved : (w.putFrag i len dma).moved = w.moved := rfl
      have hwslot : (w.putFrag i len dma).producer = (P + w.moved) % N := hwprod
      rw [hwmoved] at hle hstores
      have hclear (slot : Nat) : StoresDesc
          (if v.k % 4 = 0 then [.desc w.producer w.hwdesc] else []) slot →
            slot = (P + w.moved) % N := by
        split
        · exact fun h => (storesDesc_desc.mp h).trans hwprod
        · exact fun h => absurd h (storesDesc_keeps (fun e he => absurd he List.not_mem_nil) slot)
      refine ⟨by omega, fun slot => ?_⟩
      have hput : StoresDesc [.map dma len, .buf saved (w.putFrag i len dma).pbuf,
          .desc (w.putFrag i len dma).producer (w.putFrag i len dma).hwdesc] slot ↔
            slot = (P + w.moved) % N := by
        rw [hwslot]
        simp [StoresDesc]
      have hall : (slot = (P + v.moved) % N ∨ StoresDesc
            ((if v.k % 4 = 0 then [.desc w.producer w.hwdesc] else []) ++
              [.map dma len, .buf saved (w.putFrag i len dma).pbuf,
                .desc (w.putFrag i len dma).producer (w.putFrag i len dma).hwdesc] ++
              (mapFrags io N saved rest (i + 1) (w.putFrag i len dma)).1) slot) ↔
          slot = (P + v.moved) % N ∨ ∃ j, w.moved ≤ j ∧ j ≤ x.moved ∧ slot = (P + j) % N := by
        rw [← hstores slot, storesDesc_append, storesDesc_append, hput]
        have := hclear slot
        tauto
      rw [hall]
      constructor
      · rintro (h | ⟨j, hge, hlast, h⟩)
        · exact ⟨v.moved, Nat.le_refl _, by omega, h⟩
        · exact ⟨j, by omega, hlast, h⟩
      · rintro ⟨j, hge, hlast, h⟩
        rcases Nat.eq_or_lt_of_le hge with rfl | hlt
        · exact .inl h
        · exact .inr ⟨j, by omega, hlast, h⟩

end

/-! ## The end of a call -/

theorem copyFirst_keepsDesc (skb : Skb) (dst hdrLen : Nat) :
    ∀ e ∈ copyFirst skb dst hdrLen, e.KeepsDesc := by
  unfold copyFirst
  split <;> simp [Effect.KeepsDesc]

theorem copyMore_keepsDesc (skb : Skb) (dst hdrLen : Nat) :
    ∀ e ∈ copyMore skb dst hdrLen, e.KeepsDesc := by
  simp [copyMore, Effect.KeepsDesc]

/-- The copy of the headers stores the first descriptor with the tag, if there is one. -/
theorem tsoCopyHeaders_eq (n : Nat) (skb : Skb) (saved prod : Nat) (d : CmdDescType0) :
    ∃ d' es, (nxNicTsoCopyHeaders n skb saved prod d).1 = storeTag skb saved d' ++ es ∧
      d'.gather = d.gather ∧ ∀ e ∈ es, e.KeepsDesc := by
  rw [nxNicTsoCopyHeaders]
  dsimp only
  split
  · have hgather := (gather_vlanOobLso skb (vlanOob skb d)).trans (gather_vlanOob skb d)
    split
    · refine ⟨_, _, List.append_assoc .., hgather, fun e he => ?_⟩
      rcases List.mem_append.mp he with he | he
      · exact copyFirst_keepsDesc _ _ _ e he
      · exact copyMore_keepsDesc _ _ _ e he
    · exact ⟨_, _, rfl, hgather, copyFirst_keepsDesc _ _ _⟩
  · exact ⟨_, [], (List.append_nil _).symm, gather_vlanOob skb d,
      fun e he => absurd he List.not_mem_nil⟩

theorem storeTag_stores (skb : Skb) (saved : Nat) (d : CmdDescType0) (slot : Nat) :
    StoresDesc (storeTag skb saved d) slot → slot = saved := by
  unfold storeTag
  split
  · exact storesDesc_desc.mp
  · exact fun h => absurd h (storesDesc_keeps (fun e he => absurd he List.not_mem_nil) slot)

/-- The end of a call stores into the first descriptor, and leaves there what is of the parts. -/
theorem xmitFinish_descs (a : Adapter) (n : Nat) (skb : Skb) (t saved : Nat) (v : XmitLocals) :
    (∃ d, d.gather = v.first.gather ∧
        (a.execAll (xmitFinish n skb t saved v)).cmdDescHead =
          Function.update a.cmdDescHead saved d) ∧
      ∀ slot, StoresDesc (xmitFinish n skb t saved v) slot ↔ slot = saved := by
  obtain ⟨d', es, heq, hgather, hkeeps⟩ :=
    tsoCopyHeaders_eq n skb saved (Ring.next n v.producer) (xmitChecked skb t v.first)
  have hchecked := gather_xmitChecked skb t v.first
  have hends : ∀ (p m : Nat), ∀ e ∈ [Effect.produce p m, .doorbell p], e.KeepsDesc := by
    simp [Effect.KeepsDesc]
  rw [xmitFinish, heq, List.cons_append, List.append_assoc]
  constructor
  · rw [Adapter.execAll_cons, Adapter.execAll_append, Adapter.execAll_append,
      execAll_cmdDescHead (hends _ _), execAll_cmdDescHead hkeeps, storeTag]
    split
    · refine ⟨d', hgather.trans hchecked, ?_⟩
      exact Function.update_idem ..
    · exact ⟨_, hchecked, rfl⟩
  · intro slot
    rw [storesDesc_cons, storesDesc_append, storesDesc_append, storesDesc_desc]
    constructor
    · rintro (h | h | h | h)
      · exact h
      · exact storeTag_stores _ _ _ _ h
      · exact absurd h (storesDesc_keeps hkeeps slot)
      · exact absurd h (storesDesc_keeps (hends _ _) slot)
    · exact .inl

/-! ## The call -/

/-- What a call has left, and where it has stored. -/
structure Left (a : Adapter) (es : List Effect) (io : XmitIo) (skb : Skb) : Prop where
  buffers : ∀ m < 4 * skb.noOfDesc, ((a.execAll es).cmdDescHead (a.slotOf (m / 4))).buffer (m % 4) =
    if m < skb.fragCount then stored io skb m else (0, 0)
  numOfBuffers : ((a.execAll es).cmdDescHead a.cmdProducer).numOfBuffers =
    BitVec.ofNat 8 skb.fragCount
  totalLength : ((a.execAll es).cmdDescHead a.cmdProducer).totalLength = BitVec.ofNat 24 skb.len
  fragArray : ∀ m < skb.fragCount, ((a.execAll es).cmdBufArr a.cmdProducer).fragArray m =
    ⟨(part io skb m).2, (part io skb m).1⟩
  stores : ∀ slot, StoresDesc es slot ↔ ∃ j < skb.noOfDesc, slot = a.slotOf j

theorem page_part {io : XmitIo} {skb : Skb} (hmapped : Mapped io skb) {j : Nat}
    (hj : j < skb.frags.length) : skb.frags.getD j 0 = (part io skb (1 + j)).1 ∧
      io.mapPage (1 + j) = some (part io skb (1 + j)).2 := by
  obtain ⟨dma, hdma⟩ := Option.isSome_iff_exists.mp (hmapped.2 j hj)
  rw [Nat.add_comm 1 j, part, hdma]
  exact ⟨rfl, rfl⟩

/-- The start of a call: the linear part is recorded. -/
theorem laid_start {a : Adapter} (dev : NetDev) {io : XmitIo} {skb : Skb} {dma : BitVec 64}
    {H : Nat → CmdDescType0} (hprod : a.cmdProducer < a.maxTxDescCount)
    (hdma : io.mapSkb = some dma) :
    Laid a.maxTxDescCount a.cmdProducer io skb
      (Function.update H a.cmdProducer (xmitFirst dev skb dma)) (xmitLocals dev skb a dma) 1 := by
  have hslot : (a.cmdProducer + 0) % a.maxTxDescCount = a.cmdProducer := Nat.mod_eq_of_lt hprod
  refine ⟨hslot.symm, rfl, (by decide : 1 ≤ 4), ?_, ?_, fun m hm => ?_, fun m hm => ?_, rfl, rfl⟩
  · exact (congrArg _ hslot).trans (Function.update_self ..)
  · exact (congrArg _ hslot).trans (Function.update_self ..)
  · have hm4 : m < 4 := hm
    rw [Nat.div_eq_of_lt hm4, Nat.mod_eq_of_lt hm4, hslot, Function.update_self]
    match m, hm4 with
    | 0, _ =>
      rw [if_pos Nat.one_pos, stored, part, hdma]
      rfl
    | 1, _ | 2, _ | 3, _ => rfl
  · obtain rfl := Nat.lt_one_iff.mp hm
    rw [part, hdma]
    show Function.update (xmitPbuf dev skb (a.cmdBufArr a.cmdProducer)).fragArray 0 _ 0 = _
    rw [Function.update_self]
    rfl

/-- The effects of a call before the loop. -/
def xmitStart (dev : NetDev) (skb : Skb) (a : Adapter) (dma : BitVec 64) : List Effect :=
  [.desc a.cmdProducer { mss := BitVec.ofNat 16 (xmitMss dev skb) },
    .buf a.cmdProducer (xmitPbuf dev skb (a.cmdBufArr a.cmdProducer)),
    .map dma (skb.len - skb.dataLen), .buf a.cmdProducer (xmitLocals dev skb a dma).pbuf,
    .desc a.cmdProducer (xmitLocals dev skb a dma).first]

theorem xmitStart_stores {dev : NetDev} {skb : Skb} {a : Adapter} {dma : BitVec 64}
    {slot : Nat} : StoresDesc (xmitStart dev skb a dma) slot ↔ slot = a.cmdProducer := by
  constructor
  · rintro ⟨d, hd⟩
    simp only [xmitStart, List.mem_cons, Effect.desc.injEq, reduceCtorEq, List.not_mem_nil,
      or_false, false_or] at hd
    exact hd.elim And.left And.left
  · rintro rfl
    exact ⟨_, List.mem_cons_self⟩

/-- The effects of a mapped packet's call: those before the loop, those of the loop, and those
behind it. -/
theorem xmitQueue_eq {a : Adapter} {dev : NetDev} {io : XmitIo} {skb : Skb} {dma : BitVec 64}
    {x : XmitLocals} (hdma : io.mapSkb = some dma)
    (hx : (mapFrags io a.maxTxDescCount a.cmdProducer skb.frags 1
      (xmitLocals dev skb a dma)).2 = some x) :
    xmitQueue dev io skb a = xmitStart dev skb a dma ++
      (mapFrags io a.maxTxDescCount a.cmdProducer skb.frags 1 (xmitLocals dev skb a dma)).1 ++
      xmitFinish a.maxTxDescCount skb (tagged dev skb) a.cmdProducer x := by
  rw [xmitQueue, hdma]
  dsimp only
  rw [hx]
  rfl

/-- **The whole call.** -/
theorem xmitQueue_left {a : Adapter} (dev : NetDev) {io : XmitIo} {skb : Skb}
    (hprod : a.cmdProducer < a.maxTxDescCount) (hroom : skb.noOfDesc < a.maxTxDescCount)
    (hmapped : Mapped io skb) : Left a (xmitQueue dev io skb a) io skb := by
  have hN : 0 < a.maxTxDescCount := Nat.zero_lt_of_lt hprod
  obtain ⟨dma, hdma⟩ := Option.isSome_iff_exists.mp hmapped.1
  obtain ⟨x, hx, -, hrewrites, -⟩ := hmapped.loop a.maxTxDescCount a.cmdProducer
    (xmitLocals dev skb a dma)
  have hmod : a.cmdProducer % a.maxTxDescCount = a.cmdProducer := Nat.mod_eq_of_lt hprod
  have hslots : skb.noOfDesc = (1 + skb.frags.length + 3) / 4 := rfl
  have hqueue := xmitQueue_eq hdma hx
  obtain ⟨start, hstart⟩ : ∃ es, es = xmitStart dev skb a dma := ⟨_, rfl⟩
  obtain ⟨loop, hloop⟩ : ∃ es, es = (mapFrags io a.maxTxDescCount a.cmdProducer skb.frags 1
    (xmitLocals dev skb a dma)).1 := ⟨_, rfl⟩
  rw [← hstart, ← hloop] at hqueue
  have hbegin : (a.execAll start).cmdDescHead =
      Function.update a.cmdDescHead a.cmdProducer (xmitFirst dev skb dma) := by
    rw [hstart]
    exact Function.update_idem ..
  have hlaid : Laid a.maxTxDescCount a.cmdProducer io skb (a.execAll start).cmdDescHead
      (xmitLocals dev skb a dma) 1 := hbegin ▸ laid_start dev hprod hdma
  have hmapx : (mapFrags io a.maxTxDescCount (a.cmdProducer % a.maxTxDescCount) skb.frags 1
      (xmitLocals dev skb a dma)).2 = some x := by rw [hmod, hx]
  obtain ⟨hdone, hpos⟩ := hlaid.mapFrags hN (Nat.le_refl 1) (fun j hj => page_part hmapped hj)
    (by omega) hmapx
  rw [hmod, ← hloop, ← Adapter.execAll_append] at hdone
  obtain ⟨⟨d, hgather, hdescs⟩, hfinish⟩ := xmitFinish_descs (a.execAll (start ++ loop))
    a.maxTxDescCount skb (tagged dev skb) a.cmdProducer x
  rw [← Adapter.execAll_append, ← hqueue] at hdescs
  have hq : x.moved + 1 = skb.noOfDesc := by
    have hidx := hdone.index
    have hle := hdone.le
    omega
  have hfirst := hdone.first
  rw [hmod] at hfirst
  refine ⟨fun m hm => ?_, ?_, ?_, fun m hm => ?_, fun slot => ?_⟩
  · have hold := hdone.buffers m (by omega)
    rw [hdescs]
    by_cases hslot : a.slotOf (m / 4) = a.cmdProducer
    · rw [Adapter.slotOf] at hslot
      rw [hslot, hfirst] at hold
      rw [Adapter.slotOf, hslot, Function.update_self, ← gather_buffer, hgather, gather_buffer,
        hold]
      rfl
    · rw [Function.update_of_ne hslot]
      exact hold
  · rw [hdescs, Function.update_self]
    exact (congrArg CmdDescType0.numOfBuffers hgather).trans hdone.numOfBuffers
  · rw [hdescs, Function.update_self]
    exact (congrArg CmdDescType0.totalLength hgather).trans hdone.totalLength
  · have hbuf : Rewrites a.cmdProducer (a.cmdBufArr a.cmdProducer) x.pbuf
        (xmitQueue dev io skb a) := by
      rw [hqueue, hstart, hloop]
      exact ((xmitStart_rewrites.append mapOne_rewrites).append hrewrites).append
        (Rewrites.keep fun e he => (xmitFinish_plain _ _ _ _ _ e he).keepsBuf)
    rw [hbuf a rfl, Function.update_self]
    exact hdone.fragArray m hm
  · obtain ⟨-, hstores⟩ := mapFrags_stores (P := a.cmdProducer) (i := 1) hN
      (v := xmitLocals dev skb a dma) hmod.symm hx
    have hloops := hstores slot
    rw [← hloop] at hloops
    have hzero : a.slotOf 0 = a.cmdProducer := hmod
    rw [hqueue, storesDesc_append, storesDesc_append, hfinish, hstart, xmitStart_stores, ← hzero]
    have hsame : slot = a.slotOf 0 ∨ StoresDesc loop slot ↔
        ∃ j < skb.noOfDesc, slot = a.slotOf j := by
      refine hloops.trans (exists_congr fun j => ?_)
      rw [← hq, Nat.lt_succ_iff]
      exact and_iff_right (Nat.zero_le j)
    rw [hsame]
    exact or_iff_left_of_imp fun h => ⟨0, by omega, h⟩

/-! ## Reading the descriptors back -/

/-- Descriptor by descriptor, the buffers of `q` descriptors are numbered through. -/
theorem flatMap_four {β : Type} (f : Nat → β) (q : Nat) :
    (List.range q).flatMap (fun j => (List.range 4).map fun k => f (4 * j + k)) =
      (List.range (4 * q)).map f := by
  induction q with
  | zero => rfl
  | succ q ih =>
    rw [List.range_succ (n := q), List.flatMap_append, ih, Nat.mul_succ, List.range_add,
      List.map_append, List.map_map, List.flatMap_cons, List.flatMap_nil, List.append_nil]
    rfl

theorem map_append_replicate {β : Type} (f : Nat → β) (z : β) {n m : Nat} (h : n ≤ m) :
    (List.range n).map f ++ List.replicate (m - n) z =
      (List.range m).map fun i => if i < n then f i else z := by
  obtain ⟨k, rfl⟩ := Nat.exists_eq_add_of_le h
  rw [List.range_add, List.map_append, List.map_map, Nat.add_sub_cancel_left]
  refine congrArg₂ _ (List.map_congr_left fun i hi => (if_pos (List.mem_range.mp hi)).symm) ?_
  refine Eq.symm (List.eq_replicate_iff.mpr ⟨by rw [List.length_map, List.length_range], ?_⟩)
  intro b hb
  obtain ⟨i, -, rfl⟩ := List.mem_map.mp hb
  exact if_neg (Nat.not_lt.mpr (Nat.le_add_right n i))

theorem toNat_ofNat_eq_iff {w n : Nat} : (BitVec.ofNat w n).toNat = n ↔ n < 2 ^ w := by
  rw [BitVec.toNat_ofNat]
  exact Nat.mod_eq_iff_lt (Nat.ne_of_gt (Nat.two_pow_pos w))

/-- A part is read back as it is, if its length fits. -/
theorem stored_eq_iff (io : XmitIo) (skb : Skb) (i : Nat) :
    ((stored io skb i).1.toNat, (stored io skb i).2) = part io skb i ↔
      (part io skb i).1 < 2 ^ 16 := by
  rw [← toNat_ofNat_eq_iff (w := 16), Prod.ext_iff]
  exact and_iff_left rfl

section
variable {a : Adapter} {es : List Effect} {io : XmitIo} {skb : Skb}

theorem Left.buffers_iff (h : Left a es io skb) :
    (List.range skb.noOfDesc).flatMap
        (fun j => ((a.execAll es).cmdDescHead (a.slotOf j)).buffers) =
      parts io skb ++ List.replicate (4 * skb.noOfDesc - skb.fragCount) (0, 0) ↔
        ∀ i < skb.fragCount, (part io skb i).1 < 2 ^ 16 := by
  have hcount : skb.fragCount ≤ 4 * skb.noOfDesc := by
    rw [Skb.noOfDesc]
    omega
  -- buffer `m` of the packet is buffer `m % 4` of descriptor `m / 4`
  obtain ⟨read, hread⟩ : ∃ f : Nat → Nat × BitVec 64, f = fun m =>
      let b := ((a.execAll es).cmdDescHead (a.slotOf (m / 4))).buffer (m % 4)
      (b.1.toNat, b.2) := ⟨_, rfl⟩
  have hflat : (List.range skb.noOfDesc).flatMap
        (fun j => ((a.execAll es).cmdDescHead (a.slotOf j)).buffers) =
      (List.range (4 * skb.noOfDesc)).map read := by
    rw [← flatMap_four, hread]
    refine List.flatMap_congr fun j _ => List.map_congr_left fun k hk => ?_
    have hk4 := List.mem_range.mp hk
    dsimp only
    rw [Nat.mul_add_div (Nat.succ_pos 3), Nat.div_eq_of_lt hk4, Nat.add_zero,
      Nat.mul_add_mod, Nat.mod_eq_of_lt hk4]
  rw [hflat, parts, map_append_replicate _ _ hcount, List.map_inj_left]
  constructor
  · intro hall i hi
    have hi' := hall i (List.mem_range.mpr (Nat.lt_of_lt_of_le hi hcount))
    rw [if_pos hi, hread] at hi'
    dsimp only at hi'
    rw [h.buffers i (Nat.lt_of_lt_of_le hi hcount), if_pos hi] at hi'
    exact (stored_eq_iff io skb i).mp hi'
  · intro hfit i hi
    rw [hread]
    dsimp only
    rw [h.buffers i (List.mem_range.mp hi)]
    split
    · rename_i hlt
      exact (stored_eq_iff io skb i).mpr (hfit i hlt)
    · rfl

/-- The call places the packet, whatever its lengths. -/
theorem Left.placed (h : Left a es io skb) (hcount : skb.fragCount < 2 ^ 8) :
    Placed a es io skb := by
  refine ⟨?_, ?_, h.stores⟩
  · rw [h.numOfBuffers]
    exact toNat_ofNat_eq_iff.mpr hcount
  · refine List.map_congr_left fun i hi => ?_
    rw [h.fragArray i (List.mem_range.mp hi)]

/-- The card reads the packet, if the lengths fit. -/
theorem Left.described_iff (h : Left a es io skb) : Described a es io skb ↔ LengthsFit io skb := by
  have htotal : ((a.execAll es).cmdDescHead a.cmdProducer).totalLength.toNat = skb.len ↔
      skb.len < 2 ^ 24 := by
    rw [h.totalLength, toNat_ofNat_eq_iff]
  constructor
  · intro hs
    exact ⟨h.buffers_iff.mp hs.buffers, htotal.mp hs.totalLength⟩
  · intro hfit
    exact ⟨h.buffers_iff.mpr hfit.1, htotal.mpr hfit.2⟩

end

section
variable {a : Adapter} {dev : NetDev} {io : XmitIo} {skb s : Skb}

theorem room_of_queuedAs (hcons : a.lastCmdConsumer < a.maxTxDescCount)
    (hs : queuedAs dev io skb a = some s) : s.noOfDesc + 2 < a.maxTxDescCount := by
  have hfull := not_ringFull_of_queuedAs hs
  unfold ringFull Ring.bound at hfull
  split at hfull <;> omega

/-- The call that puts a packet on the ring. -/
theorem unmNicXmitFrame_queued (hs : queuedAs dev io skb a = some s) :
    (unmNicXmitFrame dev io skb a).1 = xmitQueue dev io s a := by
  rcases unmNicXmitFrame_cases dev io skb a with ⟨hnone, -⟩ | ⟨hnone, -⟩ | ⟨x, hx, hcall⟩
  · exact absurd (hnone.symm.trans hs) (Option.some_ne_none s).symm
  · exact absurd (hnone.symm.trans hs) (Option.some_ne_none s).symm
  · obtain rfl := Option.some.inj (hx.symm.trans hs)
    rw [hcall]

/-- **A packet is in its descriptors.**  A call that queues the packet `s` with all its parts
mapped stores into exactly the descriptors that the parts need, counts the parts in the first of
them and records them in `cmd_buf_arr`, whatever their lengths; and the buffers that the card
reads there, with the length of the whole, are those of the packet just if all lengths fit in
the fields of a descriptor.  `s` is the packet as it is queued, after `unm_nic_xmit_frame` has
pulled parts of one with too many of them into the linear part; the ring may wrap inside it. -/
theorem packet_scattered_iff (hprod : a.cmdProducer < a.maxTxDescCount)
    (hcons : a.lastCmdConsumer < a.maxTxDescCount) (hs : queuedAs dev io skb a = some s)
    (hmapped : Mapped io s) :
    Placed a (unmNicXmitFrame dev io skb a).1 io s ∧
      (Described a (unmNicXmitFrame dev io skb a).1 io s ↔ LengthsFit io s) := by
  have hroom := room_of_queuedAs hcons hs
  have hcount : s.fragCount < 2 ^ 8 :=
    Nat.lt_of_le_of_lt (fragCount_le_of_linearize (queuedAs_linearize hs)) (by decide)
  rw [unmNicXmitFrame_queued hs]
  have hleft := xmitQueue_left dev hprod (by omega) hmapped
  exact ⟨hleft.placed hcount, hleft.described_iff⟩

end

/-- Six parts, from the last slot of the ring on. -/
def sixParts : Skb :=
  { id := 1, len := 6000, dataLen := 5000, frags := [1000, 1000, 1000, 500, 1500] }

/-- The mappings of one call: the parts of the packet lie a page apart. -/
def pageIo : XmitIo where
  mapSkb := some 0x1000
  mapPage i := some (BitVec.ofNat 64 (0x1000 * (i + 1)))

/-- The second descriptor of the six parts is in the first slot of the ring. -/
theorem packet_scattered_wraps :
    Placed { maxTxDescCount := 16, cmdProducer := 15, lastCmdConsumer := 15 }
        (unmNicXmitFrame {} pageIo sixParts
          { maxTxDescCount := 16, cmdProducer := 15, lastCmdConsumer := 15 }).1 pageIo sixParts ∧
      Described { maxTxDescCount := 16, cmdProducer := 15, lastCmdConsumer := 15 }
        (unmNicXmitFrame {} pageIo sixParts
          { maxTxDescCount := 16, cmdProducer := 15, lastCmdConsumer := 15 }).1 pageIo sixParts :=
  (packet_scattered_iff (by decide) (by decide) rfl (by decide)).imp_right fun h =>
    h.mpr (by decide)

/-- One part of 64 KiB. -/
def hugePart : Skb := { id := 1, len := 65536 }

/-- The length of a part of 64 KiB is not in the descriptor: its field has sixteen bits. -/
theorem huge_part_cut :
    queuedAs {} pageIo hugePart { maxTxDescCount := 16 } = some hugePart ∧
      hugePart.fragCount = 1 ∧ Mapped pageIo hugePart ∧
      ¬Described { maxTxDescCount := 16 }
        (unmNicXmitFrame {} pageIo hugePart { maxTxDescCount := 16 }).1 pageIo hugePart :=
  ⟨rfl, rfl, by decide, fun h => absurd h.buffers (by decide +kernel)⟩

end Tx
end NxNic

import NxNic.Tx.Pending

/-! # Where the producers store

The effects of a call under `tx_lock` are fixed by what it reads when it takes
the lock: its *plan*.  With `P` commands ever posted and `R` of them reaped, the
slots a producer may use are those of the counters `P`, …, `R + N - 1`
(`FreeSlot`).  A plan is safe when all it stores lands there, and when the
producer it publishes leaves at least one slot free (`SafePlan`).

The plans of the three producers are shown safe from their three tests for room.
For a packet that needs `nx_nic_tso_copy_headers` this takes a further
condition, because that function bounds neither of its copies by the slot it
writes to: `HeadersFit`.
-/
namespace NxNic
namespace Tx

/-! ## Plans -/

/-- The effect stores into slot `s` of the descriptor ring or of `cmd_buf_arr`. -/
def Effect.Writes (s : Nat) : Effect → Prop
  | .desc slot _ | .buf slot _ => slot = s
  | .copy off _ len => 0 < len ∧ off / descSize ≤ s ∧ s ≤ (off + len - 1) / descSize
  | _ => False

instance (s : Nat) (e : Effect) : Decidable (e.Writes s) := by
  cases e <;> simp only [Effect.Writes] <;> infer_instance

/-- Slot `s` is that of a counter from `P` on, less than a lap ahead of `R`. -/
def FreeSlot (N R P s : Nat) : Prop := ∃ m, P ≤ m ∧ m < R + N ∧ m % N = s

/-- How far the effect moves `cmdProducer`. -/
def Effect.produced : Effect → Nat
  | .produce _ moved => moved
  | _ => 0

/-- The effect stores into free slots only, publishes a producer that does not
meet `lastCmdConsumer`, and leaves a valid pending queue. -/
def SafeEffect (N R P : Nat) (e : Effect) : Prop :=
  (∀ s, e.Writes s → FreeSlot N R P s) ∧
    match e with
    | .produce producer moved => producer = (P + moved) % N ∧ P + moved < R + N
    | .pending p => p.Valid
    | .consume _ _ => False
    | _ => True

/-- A list of effects each of which is safe when its turn comes. -/
def SafePlan (N R : Nat) : Nat → List Effect → Prop
  | _, [] => True
  | P, e :: es => SafeEffect N R P e ∧ SafePlan N R (P + e.produced) es

variable {N R P : Nat}

theorem FreeSlot.mono {R' s : Nat} (h : FreeSlot N R P s) (hR : R ≤ R') : FreeSlot N R' P s := by
  obtain ⟨m, h1, h2, h3⟩ := h
  exact ⟨m, h1, by omega, h3⟩

/-- A plan stays safe while the completion handler makes room. -/
theorem SafePlan.mono {R' : Nat} (hR : R ≤ R') {es : List Effect} {P : Nat}
    (h : SafePlan N R P es) : SafePlan N R' P es := by
  induction es generalizing P with
  | nil => trivial
  | cons e es ih =>
    obtain ⟨⟨hw, he⟩, hes⟩ := h
    refine ⟨⟨fun s hs => (hw s hs).mono hR, ?_⟩, ih hes⟩
    cases e with
    | produce producer moved => exact ⟨he.1, by have := he.2; omega⟩
    | _ => exact he

/-- Effects that do not move the producer. -/
def Quiet (N R P : Nat) (es : List Effect) : Prop :=
  ∀ e ∈ es, e.produced = 0 ∧ SafeEffect N R P e

theorem Quiet.nil : Quiet N R P [] := fun _ he => absurd he List.not_mem_nil

theorem Quiet.cons {e : Effect} {es : List Effect} (h1 : e.produced = 0)
    (h2 : SafeEffect N R P e) (hes : Quiet N R P es) : Quiet N R P (e :: es) := by
  intro f hf
  rcases List.mem_cons.mp hf with rfl | hf
  · exact ⟨h1, h2⟩
  · exact hes f hf

theorem Quiet.append {es fs : List Effect} (he : Quiet N R P es) (hf : Quiet N R P fs) :
    Quiet N R P (es ++ fs) := by
  intro e h
  rcases List.mem_append.mp h with h | h
  · exact he e h
  · exact hf e h

/-- What comes after quiet effects is safe if it is safe at once. -/
theorem Quiet.safePlan_append {es fs : List Effect} (he : Quiet N R P es)
    (hf : SafePlan N R P fs) : SafePlan N R P (es ++ fs) := by
  induction es with
  | nil => exact hf
  | cons e es ih =>
    obtain ⟨h1, h2⟩ := he e List.mem_cons_self
    refine ⟨h2, ?_⟩
    rw [h1]
    exact ih fun f hf => he f (List.mem_cons_of_mem _ hf)

theorem Quiet.safePlan {es : List Effect} (he : Quiet N R P es) : SafePlan N R P es := by
  have h : SafePlan N R P (es ++ []) := he.safePlan_append trivial
  rwa [List.append_nil] at h

/-- Effects that touch neither ring. -/
def Effect.Silent : Effect → Prop
  | .map _ _ | .unmap _ _ | .kfreeSkb _ | .stopQueue | .wakeQueue => True
  | _ => False

theorem Quiet.of_silent {es : List Effect} (h : ∀ e ∈ es, e.Silent) : Quiet N R P es := by
  intro e he
  have hs := h e he
  cases e with
  | map | unmap | kfreeSkb | stopQueue | wakeQueue =>
    exact ⟨rfl, fun _ hw => absurd hw id, trivial⟩
  | _ => exact absurd hs id

/-- A store into the slot of counter `P + j`. -/
theorem safeEffect_desc {j : Nat} (h : P + j < R + N) (d : CmdDescType0) :
    SafeEffect N R P (.desc ((P + j) % N) d) := by
  refine ⟨?_, trivial⟩
  rintro s rfl
  exact ⟨P + j, by omega, h, rfl⟩

theorem safeEffect_buf {j : Nat} (h : P + j < R + N) (b : UnmCmdBuffer) :
    SafeEffect N R P (.buf ((P + j) % N) b) := by
  refine ⟨?_, trivial⟩
  rintro s rfl
  exact ⟨P + j, by omega, h, rfl⟩

/-- A copy within the memory of `k` slots, from that of counter `P + j` on, that
does not pass the end of the ring. -/
theorem safeEffect_copy {j k off len : Nat} (src : Nat → BitVec 8) (hN : 0 < N)
    (h : P + j + k ≤ R + N) (hlo : descSize * ((P + j) % N) ≤ off)
    (hhi : off + len ≤ descSize * ((P + j) % N + k)) (hend : off + len ≤ descSize * N)
    (hk : k ≤ N) : SafeEffect N R P (.copy off src len) := by
  refine ⟨?_, trivial⟩
  rintro s ⟨hlen, hs1, hs2⟩
  have hd : (0 : Nat) < descSize := by decide
  have h1 : (P + j) % N ≤ s :=
    Nat.le_trans ((Nat.le_div_iff_mul_le hd).mpr (by rw [Nat.mul_comm]; exact hlo)) hs1
  have h2 : s < (P + j) % N + k :=
    Nat.lt_of_le_of_lt hs2 ((Nat.div_lt_iff_lt_mul hd).mpr (by rw [Nat.mul_comm]; omega))
  have h3 : s < N :=
    Nat.lt_of_le_of_lt hs2 ((Nat.div_lt_iff_lt_mul hd).mpr (by rw [Nat.mul_comm]; omega))
  refine ⟨P + j + (s - (P + j) % N), by omega, by omega, ?_⟩
  rw [Ring.add_mod_cases (P + j) _ (by omega) hN]
  split <;> omega

theorem next_add_mod (hN : 0 < N) (j : Nat) :
    Ring.next N ((P + j) % N) = (P + (j + 1)) % N := by
  rw [Ring.next_mod _ hN, Nat.add_assoc]

/-! ## Commands -/

theorem postDescs_quiet {a : Adapter} (cmd : BitVec 8) (hN : 0 < N)
    (ha : a.maxTxDescCount = N) (descs : List CmdDescType0) (j : Nat)
    (h : P + j + descs.length ≤ R + N) :
    Quiet N R P (postDescs a cmd descs ((P + j) % N)).1 ∧
      (postDescs a cmd descs ((P + j) % N)).2 = (P + (j + descs.length)) % N := by
  induction descs generalizing j with
  | nil => exact ⟨Quiet.nil, rfl⟩
  | cons d rest ih =>
    simp only [List.length_cons] at h
    obtain ⟨h1, h2⟩ := ih (j + 1) (by omega)
    have hslot : P + j < R + N := by omega
    simp only [postDescs, ha, next_add_mod hN]
    refine ⟨Quiet.cons rfl (safeEffect_buf hslot _) (Quiet.cons rfl (safeEffect_desc hslot _) h1),
      ?_⟩
    rw [h2, List.length_cons]
    congr 2
    omega

theorem Quiet.singleton {e : Effect} (h : e.Silent) : Quiet N R P [e] :=
  Quiet.of_silent fun f hf => by rw [List.mem_singleton.mp hf]; exact h

/-- The end of a call that publishes a producer. -/
theorem safePlan_publish {moved : Nat} (h : P + moved < R + N) :
    SafePlan N R P [.produce ((P + moved) % N) moved, .doorbell ((P + moved) % N)] :=
  ⟨⟨fun _ hs => absurd hs id, rfl, h⟩, ⟨fun _ hs => absurd hs id, trivial⟩, trivial⟩

/-- What the producers' tests for room compute, in terms of the counters. -/
theorem bound_counters (hRP : R ≤ P) (hPR : P < R + N) :
    Ring.bound N (R % N) (P % N) + P = P % N + (R + N) := by
  have := Ring.bound_mod hRP hPR
  omega

/-- The adapter's indices are those of the counters `P` and `R`. -/
structure Adapter.At (a : Adapter) (N R P : Nat) : Prop where
  pos : 0 < N
  size : a.maxTxDescCount = N
  producer : a.cmdProducer = P % N
  consumer : a.lastCmdConsumer = R % N
  le : R ≤ P
  lt : P < R + N

theorem safeEffect_pending {p : PendingCmdDescs} (hp : p.Valid) :
    SafeEffect N R P (.pending p) := ⟨fun _ hs => absurd hs id, hp⟩

/-- `nx_nic_send_cmd_descs` keeps to the free slots and leaves one of them. -/
theorem nxNicSendCmdDescs_safe {a : Adapter} (ha : a.At N R P) (hp : a.pendingCmds.Valid)
    (descs : List CmdDescType0) (alloc : Option PendingCmdDescBlock) :
    SafePlan N R P (nxNicSendCmdDescs descs alloc a).1 := by
  have hbound := bound_counters ha.le ha.lt
  unfold nxNicSendCmdDescs
  split
  · trivial
  · split
    · split
      · trivial
      · rename_i r hr
        obtain ⟨q, hq, rfl⟩ := Option.map_eq_some_iff.mp hr
        -- a queued request touches no slot: its one effect is the new pending queue
        obtain ⟨hv, hfit, -⟩ := nxMakeAvailable_spec hp (by omega) hq
        obtain ⟨h1, h2, -⟩ := queueAll_spec descs hv hfit (by omega)
        rw [h1]
        exact ⟨safeEffect_pending h2, trivial⟩
    · rename_i hroom
      have hfree : P + descs.length < R + N := by
        unfold commandsWait at hroom
        rw [ha.size, ha.consumer, ha.producer] at hroom
        omega
      obtain ⟨h1, h2⟩ := postDescs_quiet (R := R) (P := P) 0 ha.pos ha.size descs 0 (by omega)
      rw [Nat.add_zero, ← ha.producer] at h1 h2
      simp only [Nat.zero_add] at h2
      refine h1.safePlan_append ?_
      rw [h2]
      exact safePlan_publish hfree

/-- The free slots `unm_proc_pending_cmd_desc` counts are all but one. -/
theorem freeLength_counters {a : Adapter} (ha : a.At N R P) :
    P + freeLength N (P % N) (R % N) + 1 = R + N := by
  have hbound := bound_counters ha.le ha.lt
  have h1 := Nat.mod_lt P ha.pos
  have h2 := Nat.mod_lt R ha.pos
  have hle := ha.le
  unfold Ring.bound at hbound
  unfold freeLength
  split
  · rename_i heq
    -- equal indices mean an empty ring, since a full one is never published
    have := Ring.eq_of_mod_eq hle ha.lt heq.symm
    omega
  · split
    · rw [if_pos (by omega)] at hbound
      omega
    · rw [if_neg (by omega)] at hbound
      omega

/-- The loop of `unm_proc_pending_cmd_desc` stays within the slots it counted. -/
theorem procLoop_quiet {a : Adapter} (hN : 0 < N) (hsize : a.maxTxDescCount = N) (fuel : Nat)
    {v : ProcLocals} (hv : v.pend.Valid) (hprod : v.producer = (P + v.moved) % N)
    (hlen : P + v.moved + v.length < R + N) :
    Quiet N R P (procLoop a fuel v).1 ∧
      (procLoop a fuel v).2.producer = (P + (procLoop a fuel v).2.moved) % N ∧
      P + (procLoop a fuel v).2.moved < R + N := by
  induction fuel generalizing v with
  | zero => exact ⟨Quiet.nil, hprod, by simp only [procLoop]; omega⟩
  | succ fuel ih =>
    unfold procLoop
    split
    · exact ⟨Quiet.nil, hprod, by simp only; omega⟩
    · split
      · exact ⟨Quiet.nil, hprod, by simp only; omega⟩
      · rename_i b p hdeq
        obtain ⟨hp, -, -, hcnt, -⟩ := unmDequeue_spec hv hdeq
        -- a block comes off only when its commands fit in the slots that are left
        obtain ⟨h1, h2⟩ := postDescs_quiet (R := R) (P := P) pegnetRequest hN hsize b.descs v.moved
          (by rw [PendingCmdDescBlock.length_descs]; omega)
        rw [← hprod] at h1 h2
        rw [PendingCmdDescBlock.length_descs] at h2
        obtain ⟨h3, h4⟩ := ih (v := ⟨(postDescs a pegnetRequest b.descs v.producer).2,
          v.moved + b.cnt, v.length - b.cnt, freePendCmdDescBlock p b⟩) (hp.withFree _) h2
          (by simp only; omega)
        exact ⟨h1.append h3, h4⟩

/-- `unm_proc_pending_cmd_desc` keeps to the free slots and leaves one of them. -/
theorem unmProcPendingCmdDesc_safe {a : Adapter} (ha : a.At N R P) (hp : a.pendingCmds.Valid) :
    SafePlan N R P (unmProcPendingCmdDesc a) := by
  have hfree := freeLength_counters ha
  have hloop := procLoop_quiet (R := R) (P := P) ha.pos ha.size a.pendingCmds.blockCount
    (v := ⟨a.cmdProducer, 0, freeLength a.maxTxDescCount a.cmdProducer a.lastCmdConsumer,
      a.pendingCmds⟩) hp ha.producer (by
        simp only [ha.size, ha.producer, ha.consumer]
        omega)
  have hvalid := (procLoop_spec a a.pendingCmds.blockCount
    (v := ⟨a.cmdProducer, 0, freeLength a.maxTxDescCount a.cmdProducer a.lastCmdConsumer,
      a.pendingCmds⟩) hp).1
  unfold unmProcPendingCmdDesc
  simp only
  generalize procLoop a _ _ = r at hloop hvalid ⊢
  obtain ⟨hquiet, hprod, hlt⟩ := hloop
  refine hquiet.safePlan_append ⟨safeEffect_pending hvalid, ?_⟩
  split
  · trivial
  · rw [hprod]
    exact safePlan_publish hlt

/-! ## Packets -/

/-- The packet is segmented by the card, so its headers go on the ring. -/
def lsoPacket (dev : NetDev) (skb : Skb) : Prop :=
  BitVec.ofNat 16 (xmitMss dev skb) ≠ 0 ∧
    (protoIsIp skb (tagged dev skb) || protoIsIpv6 skb (tagged dev skb)) = true

instance (dev : NetDev) (skb : Skb) : Decidable (lsoPacket dev skb) := by
  unfold lsoPacket; infer_instance

/-- The bytes of header that go on the ring: `totalHdrLength`, an 8-bit field. -/
def lsoHdrLen (dev : NetDev) (skb : Skb) : Nat :=
  (BitVec.ofInt 8 (tsoHdrLen skb (tagged dev skb)) +
    BitVec.ofNat 8 (if skb.vlanTag.isSome then vlanHlen else 0)).toNat

/-- What is left for the second header slot. -/
def moreHdrLen (hdrLen : Nat) : Nat := hdrLen - firstHdrLen hdrLen

/-- The copies of the packet's headers fit: a header with an out-of-band tag has
the sixteen bytes that precede the tag, and what the second header slot receives
ends within the ring's memory and before the slots in use. -/
def HeadersFit (dev : NetDev) (skb : Skb) (a : Adapter) : Prop :=
  lsoPacket dev skb →
    (skb.vlanTag.isSome = true → 16 ≤ lsoHdrLen dev skb) ∧
    (descSize < moreHdrLen (lsoHdrLen dev skb) →
      descSize * ((a.cmdProducer + (skb.noOfDesc + 1)) % a.maxTxDescCount) +
          moreHdrLen (lsoHdrLen dev skb) ≤ descSize * a.maxTxDescCount ∧
        a.cmdProducer + skb.noOfDesc + (moreHdrLen (lsoHdrLen dev skb) + 63) / descSize <
          Ring.bound a.maxTxDescCount a.lastCmdConsumer a.cmdProducer)

instance (dev : NetDev) (skb : Skb) (a : Adapter) : Decidable (HeadersFit dev skb a) := by
  unfold HeadersFit; infer_instance

/-- Every part of the packet gets a mapping. -/
def Mapped (io : XmitIo) (skb : Skb) : Prop :=
  io.mapSkb.isSome = true ∧ ∀ i < skb.frags.length, (io.mapPage (i + 1)).isSome = true

instance (io : XmitIo) (skb : Skb) : Decidable (Mapped io skb) := by
  unfold Mapped; infer_instance

/-- The packet a call puts on the ring, as it is there: none when the call drops
it before it has looked for room, or finds no room. -/
def queuedAs (dev : NetDev) (io : XmitIo) (skb : Skb) (a : Adapter) : Option Skb :=
  if skb.len = 0 then none
  else
    (linearize io (tagged dev skb) skb).filter fun s =>
      (dev.carrierOk || dev.loopbackStart) && !decide (ringFull a s)

/-- A call of `unm_nic_xmit_frame` whose header copies, if it comes to them, fit. -/
def XmitFits (dev : NetDev) (io : XmitIo) (skb : Skb) (a : Adapter) : Prop :=
  ∀ s ∈ queuedAs dev io skb a, Mapped io s → HeadersFit dev s a

instance (dev : NetDev) (io : XmitIo) (skb : Skb) (a : Adapter) :
    Decidable (XmitFits dev io skb a) := by
  unfold XmitFits; infer_instance

@[simp] theorem CmdDescType0.setBuffer_mss (d : CmdDescType0) (k len : Nat) (dma : BitVec 64) :
    (d.setBuffer k len dma).mss = d.mss := by
  unfold CmdDescType0.setBuffer; split <;> rfl

@[simp] theorem CmdDescType0.setBuffer_opcode (d : CmdDescType0) (k len : Nat)
    (dma : BitVec 64) : (d.setBuffer k len dma).opcode = d.opcode := by
  unfold CmdDescType0.setBuffer; split <;> rfl

/-- The invariant of the loop over the fragments, at fragment `i`: it is buffer
`k` of the `moved`-th descriptor after the first, whose segment size and opcode
are still those the call gave it. -/
structure XmitLocals.At (v : XmitLocals) (N P i : Nat) (mss : BitVec 16) : Prop where
  producer : v.producer = (P + v.moved) % N
  index : i = 4 * v.moved + v.k
  pos : 1 ≤ v.k
  le : v.k ≤ 4
  hwdesc : v.moved = 0 → v.hwdesc = v.first
  mss : v.first.mss = mss
  opcode : v.first.opcode = BitVec.ofNat 6 txEtherPkt

theorem quiet_cleanTxDmaMapping (b : UnmCmdBuffer) (last : Nat) :
    Quiet N R P (cleanTxDmaMapping b last) := by
  apply Quiet.of_silent
  intro e he
  obtain ⟨k, -, rfl⟩ := List.mem_map.mp he
  trivial

/-- Recording a fragment keeps the invariant; `w` is after the move to the next
descriptor, where one was needed. -/
theorem XmitLocals.At.putFrag {v : XmitLocals} {i : Nat} {mss : BitVec 16}
    (hN : 0 < N) (hv : v.At N P i mss) (len : Nat) (dma : BitVec 64) :
    ((if v.k % 4 = 0 then v.nextDesc N else v).putFrag i len dma).At N P (i + 1) mss := by
  obtain ⟨hprod, hidx, h1, h4, hhw, hmss, hop⟩ := hv
  split
  · rename_i hk
    refine ⟨?_, ?_, ?_, ?_, ?_, ?_, ?_⟩ <;>
      simp only [XmitLocals.putFrag, XmitLocals.nextDesc]
    · rw [hprod, next_add_mod hN]
    · omega
    · omega
    · omega
    · intro h
      omega
    · simpa using hmss
    · simpa using hop
  · rename_i hk
    refine ⟨hprod, ?_, ?_, ?_, ?_, ?_, ?_⟩ <;> simp only [XmitLocals.putFrag]
    · omega
    · omega
    · omega
    · intro h
      rw [if_pos h]
    · split
      · rename_i h0
        rw [CmdDescType0.setBuffer_mss, hhw h0, hmss]
      · exact hmss
    · split
      · rename_i h0
        rw [CmdDescType0.setBuffer_opcode, hhw h0, hop]
      · exact hop

/-- The descriptor the loop may move to is cleared. -/
theorem quiet_clearDesc (c : Prop) [Decidable c] {w : XmitLocals}
    (hprod : w.producer = (P + w.moved) % N) (hlt : P + w.moved < R + N) :
    Quiet N R P (if c then [.desc w.producer w.hwdesc] else []) := by
  rw [hprod]
  split
  · exact Quiet.cons rfl (safeEffect_desc hlt _) Quiet.nil
  · exact Quiet.nil

/-- The loop over the fragments fills the slots that were counted for it. -/
theorem mapFrags_quiet (io : XmitIo) (hN : 0 < N) (frags : List Nat) (i : Nat) {v : XmitLocals}
    {mss : BitVec 16} (hv : v.At N P i mss) (hroom : P + (i + frags.length + 3) / 4 ≤ R + N) :
    Quiet N R P (mapFrags io N (P % N) frags i v).1 ∧
      ∀ x, (mapFrags io N (P % N) frags i v).2 = some x → x.At N P (i + frags.length) mss := by
  induction frags generalizing i v with
  | nil => exact ⟨Quiet.nil, fun x hx => Option.some.inj hx ▸ hv⟩
  | cons len rest ih =>
    have hprod : (if v.k % 4 = 0 then v.nextDesc N else v).producer =
        (P + (if v.k % 4 = 0 then v.nextDesc N else v).moved) % N := by
      split
      · simp only [XmitLocals.nextDesc]
        rw [hv.producer, next_add_mod hN]
      · exact hv.producer
    -- four buffers fill a descriptor, so fragment `i` is never past slot `i / 4`
    have hlt : P + (if v.k % 4 = 0 then v.nextDesc N else v).moved < R + N := by
      have := hv.index
      have := hv.pos
      have := hv.le
      simp only [List.length_cons] at hroom
      split
      · simp only [XmitLocals.nextDesc]
        omega
      · omega
    have hput := fun dma => hv.putFrag hN len dma
    unfold mapFrags
    generalize (if v.k % 4 = 0 then v.nextDesc N else v) = w at hprod hlt hput ⊢
    have hclear := quiet_clearDesc (v.k % 4 = 0) hprod hlt
    cases hmap : io.mapPage i with
    | none => exact ⟨hclear.append (quiet_cleanTxDmaMapping _ _), nofun⟩
    | some dma =>
      obtain ⟨h1, h2⟩ := ih (i + 1) (hput dma) (by
        simp only [List.length_cons] at hroom
        omega)
      refine ⟨(hclear.append ?_).append h1, fun x hx => ?_⟩
      · refine Quiet.cons rfl ⟨fun _ hs => absurd hs id, trivial⟩ (Quiet.cons rfl ?_
          (Quiet.cons rfl ?_ Quiet.nil))
        · exact safeEffect_buf (j := 0) (by omega) _
        · simp only [XmitLocals.putFrag, hprod]
          exact safeEffect_desc hlt _
      · have := h2 x hx
        rw [List.length_cons]
        rwa [Nat.add_right_comm i 1, Nat.add_assoc] at this

/-- The loop ends early when one of its fragments cannot be mapped. -/
theorem mapPage_of_mapFrags (io : XmitIo) (n saved : Nat) (frags : List Nat) (i : Nat)
    {v x : XmitLocals} (h : (mapFrags io n saved frags i v).2 = some x) :
    ∀ j < frags.length, (io.mapPage (i + j)).isSome = true := by
  induction frags generalizing i v with
  | nil => intro j hj; simp at hj
  | cons len rest ih =>
    unfold mapFrags at h
    cases hmap : io.mapPage i with
    | none => simp [hmap] at h
    | some dma =>
      simp only [hmap] at h
      intro j hj
      cases j with
      | zero => simp [hmap]
      | succ j =>
        have := ih (i + 1) h j (by simpa using hj)
        rwa [Nat.add_assoc, Nat.add_comm 1 j] at this

theorem isLso_vlanOob (skb : Skb) (d : CmdDescType0) : (vlanOob skb d).isLso = d.isLso := by
  unfold vlanOob; split <;> rfl

/-- `nx_nic_check_tso` marks exactly the packets to be segmented. -/
theorem isLso_xmitChecked {dev : NetDev} {skb : Skb} {d : CmdDescType0}
    (hmss : d.mss = BitVec.ofNat 16 (xmitMss dev skb))
    (hop : d.opcode = BitVec.ofNat 6 txEtherPkt) :
    (xmitChecked skb (tagged dev skb) d).isLso = true ↔ lsoPacket dev skb := by
  have hflags : (xmitChecked skb (tagged dev skb) d).isLso =
      (nxNicCheckTso skb (tagged dev skb) d).isLso := by
    unfold xmitChecked
    simp only
    split <;> rfl
  have hplain : d.isLso = false := by
    simp [CmdDescType0.isLso, hop, txEtherPkt, txTcpLso, txTcpLso6]
  rw [hflags, lsoPacket, ← hmss]
  unfold nxNicCheckTso
  by_cases h0 : d.mss = 0
  -- without a segment size every branch leaves one of the other opcodes
  · have hno : ∀ x : CmdDescType0, x.opcode = d.opcode ∨ x.opcode = txTcpPkt ∨
        x.opcode = txUdpPkt ∨ x.opcode = txTcpv6Pkt ∨ x.opcode = txUdpv6Pkt →
        x.isLso = false := by
      intro x hx
      simp only [CmdDescType0.isLso, hop] at hx ⊢
      rcases hx with h | h | h | h | h <;> rw [h] <;> decide
    simp only [h0, ne_eq, not_true_eq_false, if_false, false_and, iff_false,
      Bool.not_eq_true]
    repeat' split
    all_goals
      apply hno
      simp [setHdrOffsets]
  · simp only [h0, ne_eq, not_false_eq_true, if_true, true_and]
    split
    · rename_i h
      simp [h, setHdrOffsets, CmdDescType0.isLso]
    · rename_i h
      split
      · rename_i h6
        simp [h6, setHdrOffsets, CmdDescType0.isLso]
      · rename_i h6
        simp only [h, h6, Bool.or_self, Bool.false_eq_true, iff_false, Bool.not_eq_true]
        exact hplain

/-- The header length the copies use. -/
theorem totalHdrLength_xmitChecked {dev : NetDev} {skb : Skb} {d : CmdDescType0}
    (hmss : d.mss ≠ 0) :
    (vlanOobLso skb (vlanOob skb (xmitChecked skb (tagged dev skb) d))).totalHdrLength.toNat =
      lsoHdrLen dev skb := by
  have hcheck : (xmitChecked skb (tagged dev skb) d).totalHdrLength =
      BitVec.ofInt 8 (tsoHdrLen skb (tagged dev skb)) := by
    unfold xmitChecked nxNicCheckTso
    simp only [ne_eq, hmss, not_false_eq_true, if_true]
    repeat' split
    all_goals rfl
  unfold lsoHdrLen vlanOobLso vlanOob
  cases skb.vlanTag with
  | none => simp [hcheck]
  | some vid => simp [hcheck]

/-- A copy into one slot. -/
theorem safeEffect_copy_slot {j off len : Nat} (src : Nat → BitVec 8) (hN : 0 < N)
    (h : P + j < R + N) (hlo : descSize * ((P + j) % N) ≤ off)
    (hhi : off + len ≤ descSize * ((P + j) % N) + descSize) :
    SafeEffect N R P (.copy off src len) := by
  have hlt := Nat.mod_lt (P + j) hN
  have hend := Nat.mul_le_mul_left descSize (Nat.succ_le_of_lt hlt)
  rw [Nat.mul_succ] at hend
  exact safeEffect_copy (k := 1) src hN (by omega) hlo (by rw [Nat.mul_succ]; omega) (by omega) hN

theorem copyFirst_quiet (skb : Skb) {hdrLen j : Nat} (hN : 0 < N) (h : P + j < R + N)
    (htag : skb.vlanTag.isSome = true → 16 ≤ hdrLen) :
    Quiet N R P (copyFirst skb (descSize * ((P + j) % N)) hdrLen) := by
  have hfirst : firstHdrLen hdrLen ≤ 62 := Nat.min_le_right ..
  have hcopy : ∀ off len src, off + len ≤ descSize →
      SafeEffect N R P (.copy (descSize * ((P + j) % N) + off) src len) := by
    intro off len src hle
    exact safeEffect_copy_slot src hN h (by omega) (by omega)
  unfold copyFirst
  cases hv : skb.vlanTag with
  | none => exact Quiet.cons rfl (hcopy 2 _ _ (by simp [descSize]; omega)) Quiet.nil
  | some vid =>
    -- with sixteen bytes of header the length of the third copy does not wrap around
    have h16 : 16 ≤ hdrLen := htag (by simp [hv])
    have hsize : sizeT ((firstHdrLen hdrLen : Int) - 16) ≤ 46 := by
      have : 16 ≤ firstHdrLen hdrLen := by
        simp only [firstHdrLen, descSize, ipAlignmentBytes]
        omega
      unfold sizeT
      omega
    refine Quiet.cons rfl (hcopy 0 _ _ (by decide)) (Quiet.cons rfl (hcopy 14 _ _ (by decide))
      (Quiet.cons rfl (hcopy 16 _ _ (by decide)) (Quiet.cons rfl (hcopy 18 _ _ ?_) Quiet.nil)))
    simp only [descSize]
    omega

/-- What the copies of a packet's headers need, for a packet whose `q` slots
begin at counter `P`. -/
def HeaderRoom (N R P q hdrLen : Nat) (skb : Skb) : Prop :=
  (skb.vlanTag.isSome = true → 16 ≤ hdrLen) ∧
    (descSize < moreHdrLen hdrLen →
      descSize * ((P + (q + 1)) % N) + moreHdrLen hdrLen ≤ descSize * N ∧
        P + q + (moreHdrLen hdrLen + 63) / descSize < R + N)

theorem copyMore_quiet (skb : Skb) {hdrLen q : Nat} (hN : 0 < N) (hq : P + (q + 1) < R + N)
    (hfit : HeaderRoom N R P q hdrLen skb) :
    Quiet N R P (copyMore skb (descSize * ((P + (q + 1)) % N)) hdrLen) := by
  refine Quiet.cons rfl ?_ Quiet.nil
  have hlt := Nat.mod_lt (P + (q + 1)) hN
  by_cases hmore : descSize < moreHdrLen hdrLen
  · obtain ⟨hend, hroom⟩ := hfit.2 hmore
    unfold moreHdrLen at hend hroom
    simp only [descSize] at *
    exact safeEffect_copy (j := q + 1) (k := (hdrLen - firstHdrLen hdrLen + 63) / 64) _ hN
      (by omega) (Nat.le_refl _) (by simp only [descSize]; omega) hend (by omega)
  -- at most 64 bytes are left, and they stay in the second slot
  · unfold moreHdrLen at hmore
    exact safeEffect_copy_slot _ hN hq (by omega) (by omega)

theorem storeTag_quiet (skb : Skb) (d : CmdDescType0) (h : P < R + N) :
    Quiet N R P (storeTag skb (P % N) d) := by
  unfold storeTag
  split
  · exact Quiet.cons rfl (safeEffect_desc (j := 0) h d) Quiet.nil
  · exact Quiet.nil

/-- `nx_nic_tso_copy_headers`, for a packet whose descriptors are those of the
counters `P`, …, `P + q - 1`: it takes at most the two slots that follow, and
nothing else. -/
theorem nxNicTsoCopyHeaders_quiet {dev : NetDev} {skb : Skb} {d : CmdDescType0} {q : Nat}
    (hN : 0 < N) (hroom : P + q + 2 < R + N)
    (hmss : d.mss = BitVec.ofNat 16 (xmitMss dev skb))
    (hop : d.opcode = BitVec.ofNat 6 txEtherPkt)
    (hfit : lsoPacket dev skb → HeaderRoom N R P q (lsoHdrLen dev skb) skb) :
    let r := nxNicTsoCopyHeaders N skb (P % N) ((P + q) % N)
      (xmitChecked skb (tagged dev skb) d)
    Quiet N R P r.1 ∧ r.2.1 = (P + (q + r.2.2)) % N ∧ r.2.2 ≤ 2 := by
  have hlso := isLso_xmitChecked hmss hop
  have hlen := @totalHdrLength_xmitChecked dev skb d
  generalize xmitChecked skb (tagged dev skb) d = c at hlso hlen
  simp only [nxNicTsoCopyHeaders, isLso_vlanOob, next_add_mod hN]
  by_cases hyes : c.isLso = true
  · have hpkt := hlso.mp hyes
    have hfit := hfit hpkt
    rw [if_pos hyes, hlen (by rw [hmss]; exact hpkt.1)]
    have htag := storeTag_quiet (R := R) (P := P) skb (vlanOobLso skb (vlanOob skb c))
      (by omega : P < R + N)
    have hfirst := copyFirst_quiet skb hN (by omega : P + q < R + N) hfit.1
    split
    · exact ⟨(htag.append hfirst).append (copyMore_quiet skb hN (by omega) hfit), rfl,
        Nat.le_refl 2⟩
    · exact ⟨htag.append hfirst, rfl, Nat.le_succ 1⟩
  · rw [if_neg hyes]
    exact ⟨storeTag_quiet skb _ (by omega), rfl, Nat.zero_le 2⟩

/-- The test for room counts the packet's descriptors and two header slots. -/
theorem room_of_not_ringFull {a : Adapter} (ha : a.At N R P) {skb : Skb}
    (h : ¬ ringFull a skb) : P + skb.noOfDesc + 2 < R + N := by
  have hbound := bound_counters ha.le ha.lt
  unfold ringFull at h
  rw [ha.size, ha.consumer, ha.producer] at h
  omega

/-- The condition on a call, in terms of the counters. -/
theorem headerRoom_of_fit {a : Adapter} (ha : a.At N R P) {dev : NetDev} {skb : Skb}
    (h : HeadersFit dev skb a) (hpkt : lsoPacket dev skb) :
    HeaderRoom N R P skb.noOfDesc (lsoHdrLen dev skb) skb := by
  have hbound := bound_counters ha.le ha.lt
  refine ⟨(h hpkt).1, fun hmore => ?_⟩
  obtain ⟨h1, h2⟩ := (h hpkt).2 hmore
  rw [ha.size, ha.producer, Nat.mod_add_mod] at h1
  rw [ha.size, ha.consumer, ha.producer] at h2
  exact ⟨h1, by omega⟩

/-- The descriptors and the command buffer of a packet for which there is room. -/
theorem xmitQueue_safe {a : Adapter} (ha : a.At N R P) (dev : NetDev) (io : XmitIo) (skb : Skb)
    (hroom : P + skb.noOfDesc + 2 < R + N)
    (hfit : Mapped io skb → HeadersFit dev skb a) :
    SafePlan N R P (xmitQueue dev io skb a) := by
  have hslot : P + 0 < R + N := by omega
  have hstart : ∀ d b, Quiet N R P [.desc a.cmdProducer d, .buf a.cmdProducer b] := by
    intro d b
    rw [ha.producer]
    exact Quiet.cons rfl (safeEffect_desc hslot d) (Quiet.cons rfl (safeEffect_buf hslot b)
      Quiet.nil)
  have hfree : Quiet N R P [.kfreeSkb skb.id] :=
    Quiet.singleton trivial
  unfold xmitQueue
  simp only
  cases hskb : io.mapSkb with
  | none => exact ((hstart _ _).append hfree).safePlan
  | some dma =>
    have hmap : ∀ len b d, Quiet N R P
        [.map dma len, .buf a.cmdProducer b, .desc a.cmdProducer d] := by
      intro len b d
      rw [ha.producer]
      exact Quiet.cons rfl ⟨fun _ hs => absurd hs id, trivial⟩ (Quiet.cons rfl
        (safeEffect_buf hslot b) (Quiet.cons rfl (safeEffect_desc hslot d) Quiet.nil))
    have hinit : (xmitLocals dev skb a dma).At N P 1 (BitVec.ofNat 16 (xmitMss dev skb)) :=
      ⟨ha.producer, rfl, Nat.le_refl 1, by simp [xmitLocals], fun _ => rfl, rfl, rfl⟩
    have hdesc : skb.noOfDesc = (1 + skb.frags.length + 3) / 4 := rfl
    obtain ⟨hquiet, hdone⟩ := mapFrags_quiet (R := R) io ha.pos skb.frags 1 hinit (by omega)
    have hpages := fun x => mapPage_of_mapFrags io N (P % N) skb.frags 1
      (v := xmitLocals dev skb a dma) (x := x)
    simp only
    rw [ha.size]
    have hbefore := ((hstart { mss := BitVec.ofNat 16 (xmitMss dev skb) }
      (xmitPbuf dev skb (a.cmdBufArr a.cmdProducer))).append (hmap (skb.len - skb.dataLen)
      (xmitLocals dev skb a dma).pbuf (xmitLocals dev skb a dma).first)).append hquiet
    rw [← ha.producer] at hdone hpages hbefore
    generalize mapFrags io N a.cmdProducer skb.frags 1 _ = r at hdone hpages hbefore ⊢
    cases hres : r.2 with
    | none => exact (hbefore.append hfree).safePlan
    | some v =>
      have hv := hdone v hres
      -- the loop came to its end, so every part is mapped and the condition applies
      have hmapped : Mapped io skb :=
        ⟨by simp [hskb], fun i hi => by rw [Nat.add_comm]; exact hpages v hres i hi⟩
      have hq : v.moved + 1 = skb.noOfDesc := by
        have := hv.index
        have := hv.pos
        have := hv.le
        omega
      refine hbefore.safePlan_append ?_
      have hcopy := nxNicTsoCopyHeaders_quiet (R := R) ha.pos hroom hv.mss hv.opcode
        (headerRoom_of_fit ha (hfit hmapped))
      unfold xmitFinish
      have hnext : Ring.next N v.producer = (P + skb.noOfDesc) % N := by
        rw [hv.producer, next_add_mod ha.pos, hq]
      simp only [hnext, hq]
      rw [ha.producer]
      simp only at hcopy
      generalize nxNicTsoCopyHeaders N skb (P % N) _ _ = c at hcopy ⊢
      obtain ⟨h1, h2, h3⟩ := hcopy
      refine (Quiet.cons rfl (safeEffect_desc hslot _) h1).safePlan_append ?_
      rw [h2]
      exact safePlan_publish (by omega)

theorem not_ringFull_of_queuedAs {dev : NetDev} {io : XmitIo} {skb s : Skb} {a : Adapter}
    (h : queuedAs dev io skb a = some s) : ¬ ringFull a s := by
  unfold queuedAs at h
  split at h
  · cases h
  · have hp := (Option.filter_eq_some_iff.mp h).2
    simpa using (Bool.and_eq_true_iff.mp hp).2

theorem queuedAs_linearize {dev : NetDev} {io : XmitIo} {skb s : Skb} {a : Adapter}
    (h : queuedAs dev io skb a = some s) : linearize io (tagged dev skb) skb = some s := by
  unfold queuedAs at h
  split at h
  · cases h
  · exact (Option.filter_eq_some_iff.mp h).1

theorem linearize_id {io : XmitIo} {t : Nat} {skb s : Skb} (h : linearize io t skb = some s) :
    s.id = skb.id := by
  unfold linearize at h
  simp only at h
  split at h
  · exact Option.some.inj h ▸ rfl
  · split at h
    · exact Option.some.inj h ▸ rfl
    · cases h

/-- What a call does: it drops the packet, or it finds the ring full, or it puts
the packet on the ring. -/
theorem unmNicXmitFrame_cases (dev : NetDev) (io : XmitIo) (skb : Skb) (a : Adapter) :
    (queuedAs dev io skb a = none ∧ unmNicXmitFrame dev io skb a = ([.kfreeSkb skb.id], .ok)) ∨
    (queuedAs dev io skb a = none ∧ unmNicXmitFrame dev io skb a = ([.stopQueue], .busy)) ∨
    ∃ s, queuedAs dev io skb a = some s ∧
      unmNicXmitFrame dev io skb a = (xmitQueue dev io s a, .ok) := by
  unfold queuedAs unmNicXmitFrame
  by_cases hlen : skb.len = 0
  · rw [if_pos hlen, if_pos hlen]
    exact Or.inl ⟨rfl, rfl⟩
  · rw [if_neg hlen, if_neg hlen]
    cases hlin : linearize io (tagged dev skb) skb with
    | none => exact Or.inl ⟨rfl, rfl⟩
    | some s =>
      by_cases hcarrier : (dev.carrierOk || dev.loopbackStart) = true
      · have hdown : (!dev.carrierOk && !dev.loopbackStart) = false := by
          rw [← Bool.not_or, hcarrier]
          rfl
        by_cases hfull : ringFull a s
        · exact Or.inr (Or.inl ⟨by simp [Option.filter, hfull], by simp [hdown, hfull]⟩)
        · exact Or.inr (Or.inr ⟨s, by simp only [Option.filter]; simp [hcarrier, hfull],
            by simp [hdown, hfull]⟩)
      · have hdown : (!dev.carrierOk && !dev.loopbackStart) = true := by
          rw [← Bool.not_or]
          simp only [hcarrier, Bool.not_false]
        exact Or.inl ⟨by simp only [Option.filter]; simp [hcarrier],
          by simp only [hdown, if_true, linearize_id hlin]⟩

/-- `unm_nic_xmit_frame` keeps to the free slots and leaves one of them, when
its header copies fit. -/
theorem unmNicXmitFrame_safe {a : Adapter} (ha : a.At N R P) (dev : NetDev) (io : XmitIo)
    (skb : Skb) (hfit : XmitFits dev io skb a) :
    SafePlan N R P (unmNicXmitFrame dev io skb a).1 := by
  have hstop : ∀ e : Effect, e.Silent → SafePlan N R P [e] :=
    fun e he => (Quiet.singleton he).safePlan
  rcases unmNicXmitFrame_cases dev io skb a with ⟨-, h⟩ | ⟨-, h⟩ | ⟨s, hs, h⟩
  · rw [h]
    exact hstop (.kfreeSkb _) trivial
  · rw [h]
    exact hstop .stopQueue trivial
  · rw [h]
    exact xmitQueue_safe ha dev io s (room_of_not_ringFull ha (not_ringFull_of_queuedAs hs))
      (hfit s hs)

end Tx
end NxNic

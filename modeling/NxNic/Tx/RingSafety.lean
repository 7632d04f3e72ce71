import NxNic.Tx.Plans

/-! # The command ring is never overrun

The producers take `tx_lock` one at a time: a call reads what it needs and then
performs its effects one by one, while the device completes commands and the
completion handler, which does not take the lock, reaps them.  The handler is
cut at its accesses: it reads `*cmdConsumer` once, reaps one slot at a time, and
stores `lastCmdConsumer` at its end.  One handler runs at a time
(`tx_cpu_excl`).

A packet that `__pskb_pull_tail` fails for is dropped before the lock is taken,
and the end of the call unlocks it all the same.  If another producer held it, a
third one can take it then; so the state has a list of the producers past
`spin_lock`, and the lock beside it.

The counters `posted`, `completed` and `reaped` number the commands; the indices
of the adapter are their remainders, and while no packet is dropped that way the
list has the holder of the lock and no one else (`RingWorld.Inv`).  What the
holder has still to do is a safe plan (`SafePlan`), which the steps of the device
and of the handler leave safe.  The result is `command_ring_safe`.
-/
namespace NxNic
namespace Tx

/-! ## The machine -/

/-- Where `unm_process_cmd_ring` is: in its loop, or past the store of
`lastCmdConsumer`. -/
inductive Reaper where
  | reaping (consumer lastConsumer count : Nat)
  | published

/-- The adapter, `tx_lock`, what each producer that is past `spin_lock` has still
to do, the completion handler, and the numbers of commands posted, completed and
reaped so far. -/
structure RingWorld where
  adapter : Adapter
  txLock : Bool := false
  producers : List (List Effect) := []
  reaper : Option Reaper := none
  posted : Nat := 0
  completed : Nat := 0
  reaped : Nat := 0

/-- The steps: a producer takes the lock, performs its next effect, or releases
the lock; the device completes a command; the completion handler starts, reaps
one slot, stores `lastCmdConsumer`, and wakes the queue. -/
inductive RingAction where
  | xmit (dev : NetDev) (io : XmitIo) (skb : Skb)
  | send (descs : List CmdDescType0) (alloc : Option PendingCmdDescBlock)
  | proc
  | store (i : Nat)
  | unlock (i : Nat)
  | device
  | reap
  | reapOne
  | publish
  | wake

/-- A producer takes `tx_lock`. -/
def RingWorld.lock (w : RingWorld) (es : List Effect) : Option RingWorld :=
  if w.txLock then none else some { w with txLock := true, producers := w.producers ++ [es] }

/-- `unm_nic_xmit_frame`: an empty packet never gets to the lock, and one that cannot
be made linear gets to its release only. -/
def RingWorld.xmit (w : RingWorld) (dev : NetDev) (io : XmitIo) (skb : Skb) : Option RingWorld :=
  if skb.len = 0 then some w
  else if (linearize io (tagged dev skb) skb).isNone then some { w with txLock := false }
  else w.lock (unmNicXmitFrame dev io skb w.adapter).1

/-- The command ring and everyone who uses it. -/
def ringMachine : Machine RingWorld RingAction where
  next w
    | .xmit dev io skb => w.xmit dev io skb
    | .send descs alloc => w.lock (nxNicSendCmdDescs descs alloc w.adapter).1
    | .proc => w.lock (unmProcPendingCmdDesc w.adapter)
    | .store i =>
        match w.producers[i]? with
        | some (e :: es) =>
            some { w with
              adapter := w.adapter.exec e
              producers := w.producers.set i es
              posted := w.posted + e.produced }
        | _ => none
    | .unlock i =>
        if w.producers[i]?.any List.isEmpty then
          some { w with txLock := false, producers := w.producers.eraseIdx i }
        else none
    | .device =>
        if w.adapter.cmdConsumer = w.adapter.cmdProducer then none
        else
          some { w with
            adapter := w.adapter.setCmdConsumer
              (Ring.next w.adapter.maxTxDescCount w.adapter.cmdConsumer)
            completed := w.completed + 1 }
    | .reap =>
        if w.reaper.isNone then
          some { w with
            reaper := some (.reaping w.adapter.cmdConsumer w.adapter.lastCmdConsumer 0) }
        else none
    | .reapOne =>
        match w.reaper with
        | some (.reaping consumer lastConsumer count) =>
            if lastConsumer = consumer ∨ maxStatusHandle ≤ count then none
            else
              some { w with
                adapter := w.adapter.execAll
                  (reapSlot lastConsumer (w.adapter.cmdBufArr lastConsumer))
                reaper := some (.reaping consumer
                  (Ring.next w.adapter.maxTxDescCount lastConsumer) (count + 1)) }
        | _ => none
    | .publish =>
        match w.reaper with
        | some (.reaping consumer lastConsumer count) =>
            if lastConsumer ≠ consumer ∧ count < maxStatusHandle then none
            else if count = 0 then some { w with reaper := none }
            else
              some { w with
                adapter := w.adapter.exec (.consume lastConsumer count)
                reaper := some .published
                reaped := w.reaped + count }
        | _ => none
    | .wake =>
        match w.reaper with
        | some .published =>
            if w.adapter.queueStopped && w.adapter.running then
              if w.txLock then none
              else some { w with adapter := w.adapter.exec .wakeQueue, reaper := none }
            else some { w with reaper := none }
        | _ => none

/-- An empty ring of `n` slots. -/
def RingWorld.initial (n : Nat) : RingWorld := { adapter := { maxTxDescCount := n } }

/-- The condition on the steps of a run: a packet that has to be made linear can be,
and the copies of its headers, where a call makes them, fit. -/
def RingAction.Fits (w : RingWorld) : RingAction → Prop
  | .xmit dev io skb =>
      (skb.len = 0 ∨ (linearize io (tagged dev skb) skb).isSome) ∧ XmitFits dev io skb w.adapter
  | _ => True

instance (w : RingWorld) (x : RingAction) : Decidable (x.Fits w) := by
  unfold RingAction.Fits; split <;> infer_instance

/-! ## Effects and indices -/

/-- A copy that ends within the ring leaves the word behind it alone. -/
theorem wordAfterCopy_of_le {base off len w : Nat} (src : Nat → BitVec 8)
    (h : 0 < len → off + len ≤ base) (hw : w < 256 ^ 4) :
    wordAfterCopy base off src len w = w := by
  have hout : ∀ i, ¬ (off ≤ base + i ∧ base + i < off + len) := by
    intro i hi
    have := h (by omega)
    omega
  have hbyte : ∀ i, w / 256 ^ i % 256 + 256 * (w / 256 ^ (i + 1)) = w / 256 ^ i := by
    intro i
    rw [Nat.pow_succ, ← Nat.div_div_eq_div_mul]
    exact Nat.mod_add_div ..
  have htop := hbyte 3
  rw [Nat.div_eq_of_lt (hw : w < 256 ^ (3 + 1))] at htop
  have hrange : List.range 4 = [0, 1, 2, 3] := by decide
  simp only [wordAfterCopy, hout, if_false, hrange, List.foldr_cons, List.foldr_nil]
  rw [htop, hbyte 2, hbyte 1, hbyte 0, Nat.pow_zero, Nat.div_one]

/-- The indices of the adapter agree with the three counters. -/
structure Adapter.Counts (a : Adapter) (N R C P : Nat) : Prop extends a.At N R P where
  device : a.cmdConsumer = C % N
  pending : a.pendingCmds.Valid

/-- Neither the pending queue nor the device's word is among the indices. -/
theorem Adapter.At.of_pending {a : Adapter} {N R P : Nat} (ha : a.At N R P)
    (p : PendingCmdDescs) : ({ a with pendingCmds := p } : Adapter).At N R P :=
  ⟨ha.pos, ha.size, ha.producer, ha.consumer, ha.le, ha.lt⟩

theorem Adapter.Counts.of_eq {a b : Adapter} {N R C P : Nat} (ha : a.Counts N R C P)
    (h1 : b.maxTxDescCount = a.maxTxDescCount) (h2 : b.cmdProducer = a.cmdProducer)
    (h3 : b.lastCmdConsumer = a.lastCmdConsumer) (h4 : b.cmdConsumer = a.cmdConsumer)
    (h5 : b.pendingCmds = a.pendingCmds) : b.Counts N R C P where
  pos := ha.pos
  size := h1.trans ha.size
  producer := h2.trans ha.producer
  consumer := h3.trans ha.consumer
  le := ha.le
  lt := ha.lt
  device := h4.trans ha.device
  pending := h5 ▸ ha.pending

/-- The device moves on by one slot. -/
theorem Adapter.Counts.device_next {a : Adapter} {N R C P : Nat} (ha : a.Counts N R C P) :
    (a.setCmdConsumer (Ring.next a.maxTxDescCount a.cmdConsumer)).Counts N R (C + 1) P where
  pos := ha.pos
  size := ha.size
  producer := ha.producer
  consumer := ha.consumer
  le := ha.le
  lt := ha.lt
  device := by
    show Ring.next a.maxTxDescCount a.cmdConsumer = _
    rw [ha.size, ha.device, Ring.next_mod _ ha.pos]
  pending := ha.pending

/-- A safe effect moves the producer by what it says and nothing else. -/
theorem Adapter.Counts.exec {a : Adapter} {N R C P : Nat} (ha : a.Counts N R C P)
    (hN : N ≤ 256 ^ 4) {e : Effect} (he : SafeEffect N R P e) :
    (a.exec e).Counts N R C (P + e.produced) := by
  obtain ⟨hw, he⟩ := he
  cases e with
  | produce p k =>
    obtain ⟨rfl, hlt⟩ := he
    exact ⟨⟨ha.pos, ha.size, rfl, ha.consumer, Nat.le_add_right_of_le ha.le, hlt⟩, ha.device,
      ha.pending⟩
  | consume p k => exact absurd he id
  | pending p => exact ⟨ha.toAt.of_pending p, ha.device, he⟩
  | copy off src len =>
    -- the last byte lies in a free slot, so the copy ends before the device's word
    have hend : 0 < len → off + len ≤ descSize * N := by
      intro hlen
      obtain ⟨m, -, -, hm⟩ := hw ((off + len - 1) / descSize)
        ⟨hlen, Nat.div_le_div_right (by omega), Nat.le_refl _⟩
      have hlt : (off + len - 1) / descSize < N := hm ▸ Nat.mod_lt m ha.pos
      have := (Nat.div_lt_iff_lt_mul (by decide)).mp hlt
      rw [Nat.mul_comm] at this
      omega
    have hword : a.cmdConsumer < 256 ^ 4 := by
      have := Nat.mod_lt C ha.pos
      rw [ha.device]
      omega
    refine ha.of_eq ?_ ?_ ?_ ?_ ?_ <;> rw [Adapter.exec]
    · rw [Adapter.setCmdConsumer_maxTxDescCount]
    · rw [Adapter.setCmdConsumer_cmdProducer]
    · rw [Adapter.setCmdConsumer_lastCmdConsumer]
    · rw [ha.size, wordAfterCopy_of_le src hend hword]
      rfl
    · rw [Adapter.setCmdConsumer_pendingCmds]
  | _ => exact ha.of_eq rfl rfl rfl rfl rfl

theorem Adapter.Counts.execAll_reapSlot {a : Adapter} {N R C P : Nat} (ha : a.Counts N R C P)
    (slot : Nat) (b : UnmCmdBuffer) : (a.execAll (reapSlot slot b)).Counts N R C P := by
  have hquiet : ∀ (es : List Effect), (∀ e ∈ es, e.Silent ∨ ∃ c, e = .buf slot c) →
      ∀ a : Adapter, a.Counts N R C P → (a.execAll es).Counts N R C P := by
    intro es
    induction es with
    | nil => exact fun _ _ ha => ha
    | cons e es ih =>
      intro he a ha
      refine ih (fun f hf => he f (List.mem_cons_of_mem _ hf)) _ ?_
      rcases he e List.mem_cons_self with hs | ⟨c, rfl⟩
      · cases e with
        | map | unmap | kfreeSkb | stopQueue | wakeQueue => exact ha.of_eq rfl rfl rfl rfl rfl
        | _ => exact absurd hs id
      · exact ha.of_eq rfl rfl rfl rfl rfl
  refine hquiet _ ?_ a ha
  intro e he
  obtain ⟨dma, len, rfl⟩ | ⟨skb, rfl⟩ | ⟨c, rfl⟩ := mem_reapSlot he
  · exact Or.inl trivial
  · exact Or.inl trivial
  · exact Or.inr ⟨_, rfl⟩

/-! ## The invariant -/

/-- The handler in its loop has taken `count` slots, all of them completed, and
the consumer it read is not past what the device has completed since. -/
def RingWorld.Reaping (w : RingWorld) (n consumer lastConsumer count : Nat) : Prop :=
  ∃ m, consumer = m % n ∧ lastConsumer = (w.reaped + count) % n ∧ w.reaped + count ≤ m ∧
    m ≤ w.completed

/-- No producer is past `spin_lock` but the holder of the lock. -/
structure RingWorld.Exclusive (w : RingWorld) : Prop where
  free : w.txLock = false → w.producers = []
  held : w.txLock = true → ∃ es, w.producers = [es]

/-- The indices are those of the counters, the counters are in order, the holder
of the lock has a safe plan, and the handler is among the completed commands. -/
structure RingWorld.Inv (n : Nat) (w : RingWorld) : Prop extends w.Exclusive where
  counts : w.adapter.Counts n w.reaped w.completed w.posted
  reaped_le : w.reaped ≤ w.completed
  completed_le : w.completed ≤ w.posted
  plan : ∀ es ∈ w.producers, SafePlan n w.reaped w.posted es
  reaping : ∀ c l k, w.reaper = some (.reaping c l k) → w.Reaping n c l k

theorem RingWorld.initial_inv {n : Nat} (hn : 0 < n) : (RingWorld.initial n).Inv n where
  free _ := rfl
  held h := absurd h Bool.false_ne_true
  counts := ⟨⟨hn, rfl, (Nat.zero_mod n).symm, (Nat.zero_mod n).symm, Nat.le_refl 0, by
    simpa [RingWorld.initial] using hn⟩, (Nat.zero_mod n).symm, PendingCmdDescs.valid_empty⟩
  reaped_le := Nat.le_refl 0
  completed_le := Nat.le_refl 0
  plan _ hes := absurd hes List.not_mem_nil
  reaping := nofun

variable {n : Nat} {w w' : RingWorld}

/-- A producer that takes the lock with a safe plan. -/
theorem RingWorld.Inv.lock (hw : w.Inv n) {es : List Effect}
    (hes : SafePlan n w.reaped w.posted es) (h : w.lock es = some w') : w'.Inv n := by
  unfold RingWorld.lock at h
  split at h
  · cases h
  · rename_i hfree
    obtain rfl := Option.some.inj h
    have hnone := hw.free (Bool.not_eq_true _ ▸ hfree)
    refine { hw with
      free := fun hfree => absurd hfree.symm Bool.false_ne_true
      held := fun _ => ⟨es, by simp only [hnone, List.nil_append]⟩
      plan := fun fs hfs => ?_ }
    simp only [hnone, List.nil_append, List.mem_singleton] at hfs
    exact hfs ▸ hes

/-- The producer that performs an effect is the holder of the lock. -/
theorem RingWorld.Exclusive.only (hw : w.Exclusive) {i : Nat} {es : List Effect}
    (h : w.producers[i]? = some es) : w.producers = [es] ∧ i = 0 ∧ w.txLock = true := by
  cases hlock : w.txLock with
  | false =>
    rw [hw.free hlock] at h
    cases h
  | true =>
    obtain ⟨fs, hfs⟩ := hw.held hlock
    rw [hfs] at h
    obtain ⟨hi, rfl⟩ := List.getElem?_eq_some_iff.mp h
    obtain rfl : i = 0 := Nat.lt_one_iff.mp hi
    exact ⟨hfs, rfl, rfl⟩

theorem RingWorld.Exclusive.length_le (hw : w.Exclusive) : w.producers.length ≤ 1 := by
  cases hlock : w.txLock with
  | false =>
    rw [hw.free hlock]
    exact Nat.zero_le 1
  | true =>
    obtain ⟨es, hes⟩ := hw.held hlock
    rw [hes]
    exact Nat.le_refl 1

/-- The holder of the lock performs its next effect. -/
theorem RingWorld.Inv.store (hw : w.Inv n) (hn : n ≤ 256 ^ 4) {i : Nat} {e : Effect}
    {es : List Effect} (hnext : w.producers[i]? = some (e :: es)) :
    RingWorld.Inv n { w with
      adapter := w.adapter.exec e
      producers := w.producers.set i es
      posted := w.posted + e.produced } := by
  obtain ⟨hone, rfl, hlock⟩ := hw.toExclusive.only hnext
  obtain ⟨he, hes⟩ := hw.plan (e :: es) (hone ▸ List.mem_singleton_self _)
  refine { hw with
    free := fun hfree => absurd (hfree.symm.trans hlock) Bool.false_ne_true
    held := fun _ => ⟨es, by rw [hone]; rfl⟩
    counts := hw.counts.exec hn he
    completed_le := Nat.le_add_right_of_le hw.completed_le
    plan := fun fs hfs => ?_ }
  replace hfs : fs ∈ w.producers.set 0 es := hfs
  rw [hone] at hfs
  exact List.mem_singleton.mp hfs ▸ hes

/-- The holder of the lock releases it. -/
theorem RingWorld.Inv.unlock (hw : w.Inv n) {i : Nat} (hdone : w.producers[i]? = some []) :
    RingWorld.Inv n { w with txLock := false, producers := w.producers.eraseIdx i } := by
  obtain ⟨hone, rfl, -⟩ := hw.toExclusive.only hdone
  have hnone : w.producers.eraseIdx 0 = [] := by rw [hone]; rfl
  exact { hw with
    free := fun _ => hnone
    held := fun hlock => absurd hlock Bool.false_ne_true
    plan := fun es hes => absurd (hnone ▸ hes) List.not_mem_nil }

/-- A packet is sent, and the condition holds. -/
theorem RingWorld.Inv.xmit (hw : w.Inv n) {dev : NetDev} {io : XmitIo} {skb : Skb}
    (hx : (RingAction.xmit dev io skb).Fits w) (h : w.xmit dev io skb = some w') : w'.Inv n := by
  obtain ⟨hlinear, hfits⟩ := hx
  rw [RingWorld.xmit] at h
  split at h
  · exact Option.some.inj h ▸ hw
  · rename_i hlen
    have hsome := hlinear.resolve_left hlen
    split at h
    · rename_i hnone
      rw [← Option.not_isSome, hsome] at hnone
      cases hnone
    · exact hw.lock (unmNicXmitFrame_safe hw.counts.toAt dev io skb hfits) h

/-- The device completes the next command. -/
theorem RingWorld.Inv.device (hw : w.Inv n)
    (hne : w.adapter.cmdConsumer ≠ w.adapter.cmdProducer) :
    RingWorld.Inv n { w with
      adapter := w.adapter.setCmdConsumer
        (Ring.next w.adapter.maxTxDescCount w.adapter.cmdConsumer)
      completed := w.completed + 1 } := by
  -- different indices mean different counters
  have hlt : w.completed < w.posted := by
    refine Nat.lt_of_le_of_ne hw.completed_le fun heq => hne ?_
    rw [hw.counts.device, hw.counts.producer, heq]
  refine { hw with
    counts := hw.counts.device_next
    reaped_le := Nat.le_succ_of_le hw.reaped_le
    completed_le := hlt
    reaping := fun c l k hr => ?_ }
  obtain ⟨m, h1, h2, h3, h4⟩ := hw.reaping c l k hr
  exact ⟨m, h1, h2, h3, Nat.le_succ_of_le h4⟩

/-- The handler starts. -/
theorem RingWorld.Inv.reap (hw : w.Inv n) :
    RingWorld.Inv n { w with
      reaper := some (.reaping w.adapter.cmdConsumer w.adapter.lastCmdConsumer 0) } := by
  refine { hw with reaping := fun c l k hr => ?_ }
  obtain ⟨rfl, rfl, rfl⟩ := Reaper.reaping.inj (Option.some.inj hr)
  exact ⟨w.completed, hw.counts.device, hw.counts.consumer, hw.reaped_le, Nat.le_refl _⟩

/-- The handler reaps one slot. -/
theorem RingWorld.Inv.reapOne (hw : w.Inv n) {c l k : Nat}
    (hr : w.reaper = some (.reaping c l k)) (hne : l ≠ c) :
    RingWorld.Inv n { w with
      adapter := w.adapter.execAll (reapSlot l (w.adapter.cmdBufArr l))
      reaper := some (.reaping c (Ring.next w.adapter.maxTxDescCount l) (k + 1)) } := by
  refine { hw with
    counts := hw.counts.execAll_reapSlot l _
    reaping := fun c' l' k' hr' => ?_ }
  obtain ⟨rfl, rfl, rfl⟩ := Reaper.reaping.inj (Option.some.inj hr')
  obtain ⟨m, h1, h2, h3, h4⟩ := hw.reaping _ _ _ hr
  have hlt : w.reaped + k < m := by
    refine Nat.lt_of_le_of_ne h3 fun heq => hne ?_
    rw [h1, h2, heq]
  -- the consumer the handler read is still `m`, however far the device is by now
  refine ⟨m, h1, ?_, hlt, h4⟩
  show Ring.next w.adapter.maxTxDescCount l = _
  rw [hw.counts.size, h2, next_add_mod hw.counts.pos]

/-- The handler stores `lastCmdConsumer`. -/
theorem RingWorld.Inv.publish (hw : w.Inv n) {c l k : Nat}
    (hr : w.reaper = some (.reaping c l k)) :
    RingWorld.Inv n { w with
      adapter := w.adapter.exec (.consume l k)
      reaper := some .published
      reaped := w.reaped + k } := by
  obtain ⟨m, -, h2, h3, h4⟩ := hw.reaping _ _ _ hr
  obtain ⟨hat, hdev, hpend⟩ := hw.counts
  have hlt := hat.lt
  have hcomp := hw.completed_le
  exact { hw with
    counts := ⟨⟨hat.pos, hat.size, hat.producer, h2, by simp only; omega, by simp only; omega⟩,
      hdev, hpend⟩
    reaped_le := Nat.le_trans h3 h4
    plan := fun es hes => (hw.plan es hes).mono (Nat.le_add_right _ _)
    reaping := nofun }

theorem RingWorld.Inv.step (hn : n ≤ 256 ^ 4) {x : RingAction} (hw : w.Inv n) (hx : x.Fits w)
    (h : ringMachine.next w x = some w') : w'.Inv n := by
  have hfree : RingWorld.Inv n { w with reaper := none } := { hw with reaping := nofun }
  cases x with
  | xmit dev io skb => exact hw.xmit hx h
  | send descs alloc =>
    exact hw.lock (nxNicSendCmdDescs_safe hw.counts.toAt hw.counts.pending descs alloc) h
  | proc => exact hw.lock (unmProcPendingCmdDesc_safe hw.counts.toAt hw.counts.pending) h
  | store i =>
    simp only [ringMachine] at h
    split at h
    · rename_i e es hnext
      exact Option.some.inj h ▸ hw.store hn hnext
    · cases h
  | unlock i =>
    simp only [ringMachine] at h
    split at h
    · rename_i hdone
      obtain ⟨es, hes, hempty⟩ := (Option.any_eq_true ..).mp hdone
      exact Option.some.inj h ▸ hw.unlock (List.isEmpty_iff.mp hempty ▸ hes)
    · cases h
  | device =>
    simp only [ringMachine] at h
    split at h
    · cases h
    · rename_i hne
      exact Option.some.inj h ▸ hw.device hne
  | reap =>
    simp only [ringMachine] at h
    split at h
    · exact Option.some.inj h ▸ hw.reap
    · cases h
  | reapOne =>
    simp only [ringMachine] at h
    split at h
    · rename_i c l k hr
      split at h
      · cases h
      · rename_i hgo
        exact Option.some.inj h ▸ hw.reapOne hr fun heq => hgo (Or.inl heq)
    · cases h
  | publish =>
    simp only [ringMachine] at h
    split at h
    · rename_i c l k hr
      split at h
      · cases h
      · split at h
        · exact Option.some.inj h ▸ hfree
        · exact Option.some.inj h ▸ hw.publish hr
    · cases h
  | wake =>
    simp only [ringMachine] at h
    split at h
    · split at h
      · split at h
        · cases h
        · obtain rfl := Option.some.inj h
          exact { hw with
            counts := hw.counts.of_eq rfl rfl rfl rfl rfl
            reaping := nofun }
      · exact Option.some.inj h ▸ hfree
    · cases h

/-! ## Safety -/

/-- What the effect stores lands inside the rings and outside the slots in use. -/
def Effect.Outside (a : Adapter) (e : Effect) : Prop :=
  ∀ s, e.Writes s →
    s < a.maxTxDescCount ∧ ¬ Ring.Between a.lastCmdConsumer a.cmdProducer s

theorem RingWorld.Inv.outside (hw : w.Inv n) {e : Effect} {es : List Effect}
    (hes : e :: es ∈ w.producers) : e.Outside w.adapter := by
  intro s hs
  obtain ⟨m, h1, h2, rfl⟩ := (hw.plan _ hes).1.1 s hs
  rw [hw.counts.size, hw.counts.consumer, hw.counts.producer]
  exact ⟨Nat.mod_lt m hw.counts.pos, Ring.not_between_of_room hw.counts.le h1 h2⟩

/-- **The command ring is never overrun**, in any run whose packets can be made
linear and whose header copies fit.  There is one producer past `spin_lock` at
most, and whatever it stores next lands inside the rings and outside the interval
in use; that interval holds the commands posted and not reaped, at
most all slots but one, so that the two indices meet only when every command
posted has been reaped; and the completion handler takes completed slots only. -/
theorem command_ring_safe (hpos : 0 < n) (hmax : n ≤ 1024) {l : List RingAction}
    (h : (ringMachine.guard fun w x => x.Fits w).run (RingWorld.initial n) l = some w) :
    (w.producers.length ≤ 1 ∧ ∀ e es, e :: es ∈ w.producers → e.Outside w.adapter) ∧
      (w.adapter.lastCmdConsumer = w.reaped % n ∧ w.adapter.cmdConsumer = w.completed % n ∧
        w.adapter.cmdProducer = w.posted % n) ∧
      (w.reaped ≤ w.completed ∧ w.completed ≤ w.posted ∧ w.posted < w.reaped + n) ∧
      (w.adapter.cmdProducer = w.adapter.lastCmdConsumer ↔ w.posted = w.reaped) ∧
      ∀ c s k, w.reaper = some (.reaping c s k) → s ≠ c →
        Ring.Between w.adapter.lastCmdConsumer w.adapter.cmdConsumer s := by
  have hw : w.Inv n := Machine.run_guard_invariant
    (fun _ _ _ hI hx hn => hI.step (Nat.le_trans hmax (by decide)) hx hn)
    (RingWorld.initial_inv hpos) h
  obtain ⟨hat, hdev, -⟩ := hw.counts
  refine ⟨⟨hw.length_le, fun e es hes => hw.outside hes⟩, ⟨hat.consumer, hdev, hat.producer⟩,
    ⟨hw.reaped_le, hw.completed_le, hat.lt⟩, ?_, ?_⟩
  · rw [hat.producer, hat.consumer]
    constructor
    · intro heq
      exact (Ring.eq_of_mod_eq hat.le hat.lt heq.symm).symm
    · intro heq
      rw [heq]
  · intro c s k hr hne
    -- slot `s` is that of counter `reaped + k`, which the device has completed
    obtain ⟨m, h1, h2, h3, h4⟩ := hw.reaping c s k hr
    have hlt : w.reaped + k < m := by
      refine Nat.lt_of_le_of_ne h3 fun heq => hne ?_
      rw [h1, h2, heq]
    have hcomp := hw.completed_le
    have hfull := hat.lt
    rw [hat.consumer, hdev, Ring.between_mod_iff hw.reaped_le (by omega)
      (by rw [h2]; exact Nat.mod_lt _ hpos)]
    exact ⟨w.reaped + k, by omega, by omega, h2.symm⟩

/-! ## Runs on a ring of 256 slots -/

/-- A request of `k` commands from the lock to its release. -/
def requestSteps (k : Nat) : List RingAction :=
  .send (List.replicate k {}) none :: List.replicate (2 * k + 2) (.store 0) ++ [.unlock 0]

/-- A packet all of whose parts are mapped, in a call of `effects` effects. -/
def xmitSteps (skb : Skb) (effects : Nat) : List RingAction :=
  .xmit {} ⟨true, some 0x1000, fun _ => some 0x2000⟩ skb :: List.replicate effects (.store 0) ++
    [.unlock 0]

/-- `k` commands are completed and reaped. -/
def reapSteps (k : Nat) : List RingAction :=
  List.replicate k .device ++ .reap :: List.replicate k .reapOne ++ [.publish, .wake]

/-- An LSO packet over IPv4, with 54 bytes of header. -/
def lsoSkb : Skb where
  id := 1
  len := 4000
  gsoSize := 1440
  protocol := 0x800
  data := fun i => if i = 46 then 0x50 else 0

/-- A packet in six pieces. -/
def splitSkb : Skb := { id := 2, len := 600, dataLen := 500, frags := List.replicate 5 100 }

/-- 252 commands are posted and eight of them reaped.  An LSO packet with its header then takes the
slots 252 and 253, three commands go round the end of the ring, a packet is dropped
because its linear part has no mapping, and one in six pieces is queued from slot 1 on, up to its
last store. -/
def sharedRun : List RingAction :=
  (List.replicate 4 (requestSteps 63)).flatten ++ reapSteps 8 ++ xmitSteps lsoSkb 9 ++
    requestSteps 3 ++ .xmit {} ⟨true, none, fun _ => none⟩ lsoSkb ::
    List.replicate 3 (.store 0) ++ .unlock 0 :: (xmitSteps splitSkb 24).take 22

theorem command_ring_safe_shared :
    ∃ w, (ringMachine.guard fun w x => x.Fits w).run (RingWorld.initial 256) sharedRun = some w ∧
      (w.posted, w.reaped, w.adapter.cmdProducer) = (257, 8, 1) ∧ w.producers ≠ [] ∧
      (w.producers.length ≤ 1 ∧ ∀ e es, e :: es ∈ w.producers → e.Outside w.adapter) := by
  have hrun : ((ringMachine.guard fun w x => x.Fits w).run (RingWorld.initial 256) sharedRun).map
      (fun w => ((w.posted, w.reaped, w.adapter.cmdProducer), w.producers.isEmpty)) =
        some ((257, 8, 1), false) := by
    decide +kernel
  obtain ⟨w, hw, hends⟩ := Option.map_eq_some_iff.mp hrun
  obtain ⟨hcounts, hmore⟩ := Prod.mk.inj hends
  refine ⟨w, hw, hcounts, fun hnone => ?_, (command_ring_safe (by decide) (by decide) hw).1⟩
  rw [hnone] at hmore
  cases hmore

/-- An LSO packet over IPv6 with 120 bytes of extension headers: 194 bytes of
header. -/
def longHeaderSkb : Skb where
  id := 1
  len := 4000
  gsoSize := 1440
  protocol := 0x86dd
  transportOffset := 174
  data := fun i => if i = 186 then 0x50 else 0

/-- 256 commands are posted and the first four of them reaped, so that slots 4
to 255 are in use; then the packet is queued in the four free ones, up to its
second header copy. -/
def longHeaderRun : List RingAction :=
  (List.replicate 4 (requestSteps 63)).flatten ++ reapSteps 4 ++ requestSteps 4 ++
    (xmitSteps longHeaderSkb 9).take 8

/-- Where a header copy does not fit, it lands on a command the device has not
even completed. -/
theorem command_ring_overrun :
    ∃ w ∈ ringMachine.run (RingWorld.initial 256) longHeaderRun,
      ∃ es ∈ w.producers, ∃ e ∈ es.head?, e.Writes 4 ∧
        Ring.Between w.adapter.lastCmdConsumer w.adapter.cmdProducer 4 ∧
        Ring.Between w.adapter.cmdConsumer w.adapter.cmdProducer 4 := by
  decide +kernel

/-- While a packet is queued, one in 20 pieces is dropped; a third one takes the lock, and the first
is queued to its end. -/
def strayUnlockRun : List RingAction :=
  (xmitSteps { id := 1, len := 60 } 8).take 1 ++
    .xmit {} ⟨false, none, fun _ => none⟩
      { id := 3, len := 2060, dataLen := 2000, frags := List.replicate 20 100 } ::
    (xmitSteps splitSkb 24).take 1 ++ List.replicate 8 (.store 0)

/-- Where a packet cannot be made linear, another one lands on a command that is in use. -/
theorem stray_unlock_overruns :
    ∃ w ∈ ringMachine.run (RingWorld.initial 256) strayUnlockRun,
      ∃ es ∈ w.producers, ∃ e ∈ es.head?, e.Writes 0 ∧
        Ring.Between w.adapter.lastCmdConsumer w.adapter.cmdProducer 0 := by
  decide +kernel

end Tx
end NxNic

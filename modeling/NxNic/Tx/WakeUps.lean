import NxNic.Tx.Plans

/-! # Stopping and waking the transmit queue

`unm_nic_xmit_frame` reads `lastCmdConsumer`, finds no room and stops the queue, all under
`tx_lock`; `unm_process_cmd_ring` stores `lastCmdConsumer`, looks whether the queue is stopped
and wakes it, and takes the lock for the last of these only.  Both are cut at these accesses, and
where each of them stands is part of the state (`WakeWorld`), beside the adapter.  A step is one
access of either, the device completing a command, or a command posted by somebody else.  One
handler runs at a time (`tx_cpu_excl`).

`WakeWorld.Lost` is what must not happen: the queue of a running interface is stopped, every
command is completed and processed, and no call is left that wakes it.

A stop is in time when commands are left to be processed, or the handler has not looked yet:
one that comes later finds nobody to undo it.  The invariant ties the indices to the numbers of
commands posted, completed and reaped (`WakeWorld.At`).  With it a step that leaves the queue lost
has found it lost or is a stop too late, and after a stop too late it is lost
(`WakeAction.inTime_of_not_lost`); `queue_woken_iff` is the two over runs.
-/
namespace NxNic
namespace Tx

/-! ## The machine -/

/-- Where `unm_nic_xmit_frame` is while it holds `tx_lock`, for a packet of `noOfDesc`
descriptors. -/
inductive XmitPc where
  | locked (noOfDesc : Nat)
  /-- `k` and `lastCmdConsumer` are read. -/
  | read (noOfDesc k lastCmdConsumer : Nat)
  /-- There is room. -/
  | room (noOfDesc : Nat)
  /-- At the label `requeue_packet`. -/
  | requeue

/-- Where `unm_process_cmd_ring` is: in its loop, past the store of `lastCmdConsumer`, or past
the test of the queue, which it wants to wake. -/
inductive CmdRingPc where
  | loop (consumer lastConsumer count : Nat)
  | stored
  | waking

/-- The adapter, the call that holds `tx_lock`, and the completion handler. -/
structure WakeWorld where
  adapter : Adapter
  xmit : Option XmitPc := none
  handler : Option CmdRingPc := none

/-- The steps of the two functions, of the device, and of others who post commands. -/
inductive WakeAction where
  | lock (skb : Skb)
  | read
  | test
  /-- The packet is posted, with `hdrs` slots for its headers. -/
  | queue (hdrs : Fin 3)
  | stop
  | drop
  /-- `nx_nic_send_cmd_descs` and `unm_proc_pending_cmd_desc`. -/
  | command (nrElements : Nat)
  | device
  | enter
  | reap
  | store
  | look
  | wake

/-- The producer moves by `moved` slots. -/
def Adapter.post (a : Adapter) (moved : Nat) : Adapter :=
  a.exec (.produce ((Ring.next a.maxTxDescCount)^[moved] a.cmdProducer) moved)

/-- The packet goes on the ring, or the call to the label `requeue_packet`. -/
def XmitPc.tested (n noOfDesc k lastCmdConsumer : Nat) : XmitPc :=
  if Ring.bound n lastCmdConsumer k ≤ k + noOfDesc + 2 then .requeue else .room noOfDesc

/-- An undisturbed call goes to the label just if `unmNicXmitFrame` finds the ring full. -/
theorem XmitPc.tested_eq_requeue (a : Adapter) (skb : Skb) :
    XmitPc.tested a.maxTxDescCount skb.noOfDesc a.cmdProducer a.lastCmdConsumer = .requeue ↔
      ringFull a skb := by
  rw [XmitPc.tested, ringFull]
  split
  · exact iff_of_true rfl ‹_›
  · exact iff_of_false nofun ‹_›

/-- The transmit queue and everyone who stops or wakes it. -/
def wakeMachine : Machine WakeWorld WakeAction where
  next w
    | .lock skb =>
        if w.xmit.isNone then some { w with xmit := some (.locked skb.noOfDesc) } else none
    | .read =>
        match w.xmit with
        | some (.locked noOfDesc) =>
            some { w with
              xmit := some (.read noOfDesc w.adapter.cmdProducer w.adapter.lastCmdConsumer) }
        | _ => none
    | .test =>
        match w.xmit with
        | some (.read noOfDesc k lastCmdConsumer) =>
            some { w with
              xmit := some (.tested w.adapter.maxTxDescCount noOfDesc k lastCmdConsumer) }
        | _ => none
    | .queue hdrs =>
        match w.xmit with
        | some (.room noOfDesc) =>
            some { w with adapter := w.adapter.post (noOfDesc + hdrs), xmit := none }
        | _ => none
    | .stop =>
        match w.xmit with
        | some .requeue => some { w with adapter := w.adapter.exec .stopQueue, xmit := none }
        | _ => none
    | .drop =>
        -- without a carrier, or when the packet cannot be mapped
        match w.xmit with
        | some (.locked _) => some { w with xmit := none }
        | some (.room _) => some { w with xmit := none }
        | _ => none
    | .command nrElements =>
        if w.xmit.isNone ∧ 0 < nrElements ∧ w.adapter.cmdProducer + nrElements <
            Ring.bound w.adapter.maxTxDescCount w.adapter.lastCmdConsumer w.adapter.cmdProducer then
          some { w with adapter := w.adapter.post nrElements }
        else none
    | .device =>
        if w.adapter.cmdConsumer = w.adapter.cmdProducer then none
        else
          some { w with
            adapter := w.adapter.setCmdConsumer
              (Ring.next w.adapter.maxTxDescCount w.adapter.cmdConsumer) }
    | .enter =>
        if w.handler.isNone then
          some { w with
            handler := some (.loop w.adapter.cmdConsumer w.adapter.lastCmdConsumer 0) }
        else none
    | .reap =>
        match w.handler with
        | some (.loop consumer lastConsumer count) =>
            if lastConsumer = consumer ∨ maxStatusHandle ≤ count then none
            else
              some { w with
                handler := some (.loop consumer
                  (Ring.next w.adapter.maxTxDescCount lastConsumer) (count + 1)) }
        | _ => none
    | .store =>
        match w.handler with
        | some (.loop consumer lastConsumer count) =>
            if lastConsumer ≠ consumer ∧ count < maxStatusHandle then none
            else if count = 0 then some { w with handler := none }
            else
              some { w with
                adapter := w.adapter.exec (.consume lastConsumer count)
                handler := some .stored }
        | _ => none
    | .look =>
        match w.handler with
        | some .stored =>
            some { w with
              handler := if w.adapter.queueStopped && w.adapter.running then some .waking
                else none }
        | _ => none
    | .wake =>
        match w.handler with
        | some .waking =>
            if w.xmit.isNone then
              some { w with adapter := w.adapter.exec .wakeQueue, handler := none }
            else none
        | _ => none

/-- An empty ring of `n` slots. -/
def WakeWorld.initial (n : Nat) (running : Bool) : WakeWorld where
  adapter := { maxTxDescCount := n, running := running }

/-! ## The property -/

/-- What is left of the handler's call wakes a queue that is stopped. -/
def CmdRingPc.Wakes : CmdRingPc → Prop
  | .loop consumer lastConsumer count => lastConsumer ≠ consumer ∨ 0 < count
  | .stored => True
  | .waking => True

/-- There is a call that wakes a queue that is stopped. -/
def WakeWorld.Wakes (w : WakeWorld) : Prop :=
  match w.handler with
  | none => False
  | some pc => pc.Wakes

/-- The queue of a running interface is stopped, all commands are completed and processed, and
nobody is left to wake it. -/
def WakeWorld.Lost (w : WakeWorld) : Prop :=
  w.adapter.queueStopped = true ∧ w.adapter.running = true ∧
    w.adapter.lastCmdConsumer = w.adapter.cmdProducer ∧ ¬w.Wakes

/-- **The condition**: when the queue of a running interface is stopped, commands are left to be
processed, or the handler has still to look at the queue. -/
def WakeAction.InTime (w : WakeWorld) : WakeAction → Prop
  | .stop =>
    w.adapter.running = true → w.adapter.lastCmdConsumer ≠ w.adapter.cmdProducer ∨ w.Wakes
  | _ => True

instance (pc : CmdRingPc) : Decidable pc.Wakes :=
  match pc with
  | .loop _ _ _ => inferInstanceAs (Decidable (_ ∨ _))
  | .stored => .isTrue trivial
  | .waking => .isTrue trivial

instance (w : WakeWorld) : Decidable w.Wakes :=
  match h : w.handler with
  | none => .isFalse (by rw [WakeWorld.Wakes, h]; exact not_false)
  | some pc => decidable_of_iff pc.Wakes (by rw [WakeWorld.Wakes, h])

instance (w : WakeWorld) : Decidable w.Lost := inferInstanceAs (Decidable (_ ∧ _))

/-! ## The invariant -/

variable {n R C P : Nat} {w w' : WakeWorld}

/-- The call for a packet, between the counters: there may be more room by now than it has
read of. -/
def XmitPc.At (n R P : Nat) : XmitPc → Prop
  | .locked noOfDesc => 0 < noOfDesc
  | .read noOfDesc k lastCmdConsumer =>
    0 < noOfDesc ∧ k = P % n ∧ ∃ r, lastCmdConsumer = r % n ∧ r ≤ R ∧ P < r + n
  | .room noOfDesc => 0 < noOfDesc ∧ P + noOfDesc + 2 < R + n
  | .requeue => True

/-- The handler in its loop has passed `count` commands, all of them completed. -/
def CmdRingPc.At (n R C : Nat) : CmdRingPc → Prop
  | .loop consumer lastConsumer count =>
    ∃ m, consumer = m % n ∧ lastConsumer = (R + count) % n ∧ R + count ≤ m ∧ m ≤ C
  | _ => True

/-- The indices are those of the numbers of commands reaped, completed and posted. -/
structure WakeWorld.At (n R C P : Nat) (w : WakeWorld) : Prop where
  adapter : w.adapter.At n R P
  device : w.adapter.cmdConsumer = C % n
  reaped_le : R ≤ C
  completed_le : C ≤ P
  xmit : ∀ pc ∈ w.xmit, pc.At n R P
  handler : ∀ pc ∈ w.handler, pc.At n R C

theorem Skb.noOfDesc_pos (skb : Skb) : 0 < skb.noOfDesc := by
  rw [Skb.noOfDesc, Skb.fragCount]
  omega

theorem Adapter.At.post {a : Adapter} (ha : a.At n R P) {moved : Nat} (h : P + moved < R + n) :
    (a.post moved).At n R (P + moved) where
  pos := ha.pos
  size := ha.size
  producer := by
    show (Ring.next a.maxTxDescCount)^[moved] a.cmdProducer = _
    rw [ha.size, ha.producer, Ring.iterate_next _ _ ha.pos]
  consumer := ha.consumer
  le := Nat.le_add_right_of_le ha.le
  lt := h

/-- The indices coincide just if all the commands are processed. -/
theorem Adapter.At.consumer_eq_iff {a : Adapter} (ha : a.At n R P) :
    a.lastCmdConsumer = a.cmdProducer ↔ R = P := by
  rw [ha.consumer, ha.producer]
  exact ⟨Ring.eq_of_mod_eq ha.le ha.lt, fun h => h ▸ rfl⟩

/-- The test for room, when it was made with an older `lastCmdConsumer`. -/
theorem XmitPc.At.tested {noOfDesc k last : Nat} (h : (XmitPc.read noOfDesc k last).At n R P)
    (hle : R ≤ P) : (XmitPc.tested n noOfDesc k last).At n R P := by
  obtain ⟨hpos, rfl, r, rfl, hr, hlap⟩ := h
  have hbound := bound_counters (N := n) (Nat.le_trans hr hle) hlap
  rw [XmitPc.tested]
  split
  · trivial
  · rename_i hroom
    exact ⟨hpos, by omega⟩

/-- Commands are posted. -/
theorem WakeWorld.At.post (h : w.At n R C P) (moved : Nat) (hroom : P + moved < R + n) :
    WakeWorld.At n R C (P + moved)
      { w with adapter := w.adapter.post moved, xmit := none } where
  adapter := h.adapter.post hroom
  device := h.device
  reaped_le := h.reaped_le
  completed_le := Nat.le_add_right_of_le h.completed_le
  xmit := nofun
  handler := h.handler

/-- The call for a packet goes on. -/
theorem WakeWorld.At.withXmit (h : w.At n R C P) {pc : XmitPc} (hpc : pc.At n R P) :
    WakeWorld.At n R C P { w with xmit := some pc } where
  adapter := h.adapter
  device := h.device
  reaped_le := h.reaped_le
  completed_le := h.completed_le
  xmit := fun _ hx => Option.some.inj hx ▸ hpc
  handler := h.handler

theorem WakeWorld.At.unlocked (h : w.At n R C P) :
    WakeWorld.At n R C P { w with xmit := none } where
  adapter := h.adapter
  device := h.device
  reaped_le := h.reaped_le
  completed_le := h.completed_le
  xmit := nofun
  handler := h.handler

/-- The handler goes on. -/
theorem WakeWorld.At.withHandler (h : w.At n R C P) {pc : Option CmdRingPc}
    (hpc : ∀ x ∈ pc, x.At n R C) : WakeWorld.At n R C P { w with handler := pc } where
  adapter := h.adapter
  device := h.device
  reaped_le := h.reaped_le
  completed_le := h.completed_le
  xmit := h.xmit
  handler := hpc

/-- The device completes the next command. -/
theorem WakeWorld.At.completes (h : w.At n R C P)
    (hne : w.adapter.cmdConsumer ≠ w.adapter.cmdProducer) :
    WakeWorld.At n R (C + 1) P { w with
      adapter := w.adapter.setCmdConsumer
        (Ring.next w.adapter.maxTxDescCount w.adapter.cmdConsumer) } := by
  have hlt : C < P := by
    refine Nat.lt_of_le_of_ne h.completed_le fun heq => hne ?_
    rw [h.device, h.adapter.producer, heq]
  refine ⟨⟨h.adapter.pos, h.adapter.size, h.adapter.producer, h.adapter.consumer, h.adapter.le,
    h.adapter.lt⟩, ?_, Nat.le_succ_of_le h.reaped_le, hlt, h.xmit, fun pc hpc => ?_⟩
  · show Ring.next w.adapter.maxTxDescCount w.adapter.cmdConsumer = _
    rw [h.adapter.size, h.device, Ring.next_mod _ h.adapter.pos]
  · have hold := h.handler pc hpc
    cases pc with
    | loop c l count =>
      obtain ⟨m, hc, hl, hle, hm⟩ := hold
      exact ⟨m, hc, hl, hle, Nat.le_succ_of_le hm⟩
    | stored => trivial
    | waking => trivial

/-- The handler passes one more command. -/
theorem CmdRingPc.At.reaps {c l count : Nat} (hn : 0 < n)
    (h : (CmdRingPc.loop c l count).At n R C) (hne : l ≠ c) :
    (CmdRingPc.loop c (Ring.next n l) (count + 1)).At n R C := by
  obtain ⟨m, rfl, rfl, hle, hm⟩ := h
  have hlt : R + count < m := Nat.lt_of_le_of_ne hle fun heq => hne (by rw [heq])
  exact ⟨m, rfl, Ring.next_mod _ hn, hlt, hm⟩

/-- What the call for a packet has read stays true when more commands are processed. -/
theorem XmitPc.At.mono {pc : XmitPc} (h : pc.At n R P) {R' : Nat} (hR : R ≤ R') :
    pc.At n R' P := by
  cases pc with
  | locked d => exact h
  | read d k last =>
    obtain ⟨hpos, hk, r, hr, hle, hlap⟩ := h
    exact ⟨hpos, hk, r, hr, Nat.le_trans hle hR, hlap⟩
  | room d => exact ⟨h.1, Nat.lt_of_lt_of_le h.2 (Nat.add_le_add_right hR n)⟩
  | requeue => trivial

/-- The handler stores `lastCmdConsumer`. -/
theorem WakeWorld.At.stores (h : w.At n R C P) {c l count : Nat}
    (hloop : w.handler = some (.loop c l count)) :
    WakeWorld.At n (R + count) C P
      { w with adapter := w.adapter.exec (.consume l count), handler := some .stored } := by
  obtain ⟨m, -, hl, hle, hm⟩ := h.handler _ hloop
  have hC := h.completed_le
  have hlap := h.adapter.lt
  refine ⟨⟨h.adapter.pos, h.adapter.size, h.adapter.producer, hl, by omega, by omega⟩, h.device,
    by omega, hC, fun pc hpc => (h.xmit pc hpc).mono (Nat.le_add_right R count), fun pc hpc => ?_⟩
  obtain rfl := Option.some.inj hpc
  trivial

/-- With commands left to be processed no wake-up is lost. -/
theorem WakeWorld.At.not_lost (h : w.At n R C P) (hlt : R < P) : ¬w.Lost := fun hlost =>
  absurd (h.adapter.consumer_eq_iff.mp hlost.2.2.1) (Nat.ne_of_lt hlt)

/-! ## Steps and runs -/

/-- **What a step keeps**: the counters, and that no wake-up is lost, if it is in time. -/
theorem WakeWorld.At.step {a : WakeAction} (h : w.At n R C P)
    (hnext : wakeMachine.next w a = some w') :
    (∃ R' C' P', w'.At n R' C' P') ∧ (w'.Lost → w.Lost ∨ ¬a.InTime w) := by
  cases a with
  | lock skb =>
    simp only [wakeMachine] at hnext
    split at hnext
    · obtain rfl := Option.some.inj hnext
      exact ⟨⟨R, C, P, h.withXmit skb.noOfDesc_pos⟩, Or.inl⟩
    · cases hnext
  | read =>
    simp only [wakeMachine] at hnext
    split at hnext
    · rename_i d hx
      obtain rfl := Option.some.inj hnext
      exact ⟨⟨R, C, P, h.withXmit ⟨h.xmit _ hx, h.adapter.producer, R, h.adapter.consumer,
        Nat.le_refl R, h.adapter.lt⟩⟩, Or.inl⟩
    · cases hnext
  | test =>
    simp only [wakeMachine] at hnext
    split at hnext
    · rename_i d k last hx
      obtain rfl := Option.some.inj hnext
      rw [h.adapter.size]
      exact ⟨⟨R, C, P, h.withXmit ((h.xmit _ hx).tested h.adapter.le)⟩, Or.inl⟩
    · cases hnext
  | queue hdrs =>
    simp only [wakeMachine] at hnext
    split at hnext
    · rename_i d hx
      obtain rfl := Option.some.inj hnext
      obtain ⟨hpos, hroom⟩ := h.xmit _ hx
      have hposted := h.post (d + hdrs) (by omega)
      have hle := h.adapter.le
      exact ⟨⟨R, C, _, hposted⟩, fun hlost => absurd hlost (hposted.not_lost (by omega))⟩
    · cases hnext
  | stop =>
    simp only [wakeMachine] at hnext
    split at hnext
    · obtain rfl := Option.some.inj hnext
      refine ⟨⟨R, C, P, ⟨⟨h.adapter.pos, h.adapter.size, h.adapter.producer, h.adapter.consumer,
        h.adapter.le, h.adapter.lt⟩, h.device, h.reaped_le, h.completed_le, nofun, h.handler⟩⟩,
        fun hlost => .inr fun hin => ?_⟩
      rcases hin hlost.2.1 with hne | hwakes
      · exact hne hlost.2.2.1
      · exact hlost.2.2.2 hwakes
    · cases hnext
  | drop =>
    simp only [wakeMachine] at hnext
    split at hnext
    · obtain rfl := Option.some.inj hnext
      exact ⟨⟨R, C, P, h.unlocked⟩, Or.inl⟩
    · obtain rfl := Option.some.inj hnext
      exact ⟨⟨R, C, P, h.unlocked⟩, Or.inl⟩
    · cases hnext
  | command nrElements =>
    simp only [wakeMachine] at hnext
    split at hnext
    · rename_i hif
      obtain ⟨hfree, hpos, hroom⟩ := hif
      obtain rfl := Option.some.inj hnext
      have hbound := bound_counters h.adapter.le h.adapter.lt
      rw [h.adapter.size, h.adapter.consumer, h.adapter.producer] at hroom
      have hposted := h.post nrElements (by omega)
      rw [← Option.isNone_iff_eq_none.mp hfree] at hposted
      have hle := h.adapter.le
      exact ⟨⟨R, C, _, hposted⟩, fun hlost => absurd hlost (hposted.not_lost (by omega))⟩
    · cases hnext
  | device =>
    simp only [wakeMachine] at hnext
    split at hnext
    · cases hnext
    · rename_i hne
      obtain rfl := Option.some.inj hnext
      exact ⟨⟨R, C + 1, P, h.completes hne⟩, Or.inl⟩
  | enter =>
    simp only [wakeMachine] at hnext
    split at hnext
    · rename_i hnone
      obtain rfl := Option.some.inj hnext
      refine ⟨⟨R, C, P, h.withHandler fun pc hpc => Option.some.inj hpc ▸ ?_⟩, fun hlost => .inl ?_⟩
      · exact ⟨C, h.device, h.adapter.consumer, h.reaped_le, Nat.le_refl C⟩
      · refine ⟨hlost.1, hlost.2.1, hlost.2.2.1, ?_⟩
        rw [WakeWorld.Wakes, Option.isNone_iff_eq_none.mp hnone]
        exact not_false
    · cases hnext
  | reap =>
    simp only [wakeMachine] at hnext
    split at hnext
    · rename_i c l count hloop
      split at hnext
      · cases hnext
      · rename_i hmore
        obtain rfl := Option.some.inj hnext
        have hreaps := (h.handler _ hloop).reaps h.adapter.pos fun heq => hmore (.inl heq)
        refine ⟨⟨R, C, P, h.withHandler fun pc hpc => Option.some.inj hpc ▸ ?_⟩,
          fun hlost => absurd (.inr (Nat.succ_pos count)) hlost.2.2.2⟩
        rw [h.adapter.size]
        exact hreaps
    · cases hnext
  | store =>
    simp only [wakeMachine] at hnext
    split at hnext
    · rename_i c l count hloop
      split at hnext
      · cases hnext
      · rename_i hdone
        split at hnext
        · rename_i hcount
          obtain rfl := Option.some.inj hnext
          refine ⟨⟨R, C, P, h.withHandler nofun⟩, fun hlost => .inl ?_⟩
          refine ⟨hlost.1, hlost.2.1, hlost.2.2.1, ?_⟩
          rw [WakeWorld.Wakes, hloop]
          rintro (hne | hpos)
          · exact hdone ⟨hne, by rw [hcount]; decide⟩
          · exact absurd hcount (Nat.ne_of_gt hpos)
        · obtain rfl := Option.some.inj hnext
          exact ⟨⟨R + count, C, P, h.stores hloop⟩, fun hlost => absurd trivial hlost.2.2.2⟩
    · cases hnext
  | look =>
    simp only [wakeMachine] at hnext
    split at hnext
    · obtain rfl := Option.some.inj hnext
      cases hseen : w.adapter.queueStopped && w.adapter.running with
      | true =>
        exact ⟨⟨R, C, P, h.withHandler fun pc hpc => Option.some.inj hpc ▸ trivial⟩,
          fun hlost => absurd trivial hlost.2.2.2⟩
      | false =>
        refine ⟨⟨R, C, P, h.withHandler nofun⟩, fun hlost => ?_⟩
        rw [hlost.1, hlost.2.1] at hseen
        cases hseen
    · cases hnext
  | wake =>
    simp only [wakeMachine] at hnext
    split at hnext
    · split at hnext
      · obtain rfl := Option.some.inj hnext
        refine ⟨⟨R, C, P, ⟨⟨h.adapter.pos, h.adapter.size, h.adapter.producer, h.adapter.consumer,
          h.adapter.le, h.adapter.lt⟩, h.device, h.reaped_le, h.completed_le, h.xmit, nofun⟩⟩,
          fun hlost => absurd hlost.1 Bool.false_ne_true⟩
      · cases hnext
    · cases hnext

/-- A stop that is not in time loses the wake-up. -/
theorem WakeAction.inTime_of_not_lost {a : WakeAction} (hnext : wakeMachine.next w a = some w')
    (hkept : ¬w'.Lost) : a.InTime w := by
  cases a with
  | stop =>
    simp only [wakeMachine] at hnext
    split at hnext
    · obtain rfl := Option.some.inj hnext
      intro hrunning
      by_contra hlate
      rw [not_or, not_not] at hlate
      exact hkept ⟨rfl, hrunning, hlate.1, hlate.2⟩
    · cases hnext
  | _ => trivial

/-- An empty ring. -/
theorem WakeWorld.at_initial (hn : 0 < n) (running : Bool) :
    (WakeWorld.initial n running).At n 0 0 0 where
  adapter := ⟨hn, rfl, (Nat.zero_mod n).symm, (Nat.zero_mod n).symm, Nat.le_refl 0, by omega⟩
  device := (Nat.zero_mod n).symm
  reaped_le := Nat.le_refl 0
  completed_le := Nat.le_refl 0
  xmit := nofun
  handler := nofun

/-- **A stopped queue has someone to wake it** throughout a run just if every stop of the run is
in time.  The ring may have any size, and the accesses of the two functions, the completions and
the commands of others come in any order. -/
theorem queue_woken_iff (hn : 0 < n) {running : Bool} {l : List WakeAction} {t : WakeWorld}
    (h : wakeMachine.run (.initial n running) l = some t) :
    (∀ u, wakeMachine.Visits (.initial n running) l u → ¬u.Lost) ↔
      ∀ u a, wakeMachine.Takes (.initial n running) l u a → a.InTime u := by
  refine wakeMachine.visits_iff_takes (K := fun w => (∃ R C P, w.At n R C P) ∧ ¬w.Lost)
    (fun _ hk => hk.2) ?_ (fun _ _ _ _ => WakeAction.inTime_of_not_lost)
    ⟨⟨0, 0, 0, WakeWorld.at_initial hn running⟩, fun hlost => absurd hlost.1 Bool.false_ne_true⟩ h
  intro s a t hk hin hnext
  obtain ⟨⟨R, C, P, hat⟩, hkept⟩ := hk
  obtain ⟨hat', hlost⟩ := hat.step hnext
  exact ⟨hat', fun hl => (hlost hl).elim hkept fun hnot => hnot hin⟩

instance (w : WakeWorld) : (a : WakeAction) → Decidable (a.InTime w)
  | .stop => inferInstanceAs (Decidable (_ → _ ∨ _))
  | .lock _ | .read | .test | .queue _ | .drop | .command _ | .device | .enter | .reap | .store
  | .look | .wake => .isTrue trivial

/-- A packet in five parts, for which two descriptors are needed. -/
def fiveParts : Skb := { id := 1, len := 4096, frags := [1024, 1024, 1024, 1024] }

/-- The handler's call over `k` commands. -/
def handlerSteps (k : Nat) : List WakeAction :=
  .enter :: List.replicate k .reap ++ [.store, .look]

/-- The ring is full but for three slots, the packet finds no room, and the queue is stopped
before the device has completed anything; the handler wakes it. -/
def stoppedInTimeRun : List WakeAction :=
  List.replicate 4 (.command 63) ++ [.lock fiveParts, .read, .test, .stop] ++
    List.replicate 4 .device ++ handlerSteps 4 ++ [.wake]

theorem queue_woken_iff_in_time :
    ∃ t, wakeMachine.run (.initial 256 true) stoppedInTimeRun = some t ∧
      t.adapter.queueStopped = false ∧
      ∀ u, wakeMachine.Visits (.initial 256 true) stoppedInTimeRun u → ¬u.Lost := by
  have hrun : ((wakeMachine.guard fun w a => a.InTime w).run (.initial 256 true)
      stoppedInTimeRun).map (fun t => t.adapter.queueStopped) = some false := by
    decide +kernel
  obtain ⟨t, ht, hwoken⟩ := Option.map_eq_some_iff.mp hrun
  have ht' := Machine.run_of_guard ht
  exact ⟨t, ht', hwoken,
    (queue_woken_iff (by decide) ht').mpr fun _ _ htakes => Machine.takes_of_guard ht htakes⟩

/-- The same ring; everything is completed and processed between the packet's test for room and
the stop. -/
def stoppedLateRun : List WakeAction :=
  List.replicate 4 (.command 63) ++ [.lock fiveParts, .read, .test] ++
    List.replicate 252 .device ++ handlerSteps 128 ++ handlerSteps 124 ++ [.stop]

/-- Nobody is left to wake the queue: `unm_nic_xmit_frame` does not look again once it has stopped
it. -/
theorem wake_up_lost : ∃ t ∈ wakeMachine.run (.initial 256 true) stoppedLateRun, t.Lost := by
  decide +kernel

end Tx
end NxNic

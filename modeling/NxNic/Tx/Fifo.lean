import NxNic.Tx.RingSafety

/-! # Commands go through the pending queue in order

`nx_nic_send_cmd_descs` puts its commands on the ring, or in the pending queue when
the ring is full or others wait there already, and `unm_proc_pending_cmd_desc` moves
commands from the queue to the ring.

The state is the adapter, with the ring's memory and both indices, and a history: what
has been accepted, and what has been placed.  A command is placed when the producer
moves over its slot; it is read from the ring's memory then (`Adapter.passed`).  The
steps are whole calls, the device completing a command, and the completion handler.

Every step keeps `CmdWorld.Fifo`: what was accepted is what was placed and, after it,
what is queued; and what was placed and has not been reaped is in the slots from
`lastCmdConsumer` up to `cmdProducer`, one command a slot.  The result is
`pending_queue_fifo`.
-/
namespace NxNic
namespace Tx

/-! ## Commands placed on the ring -/

/-- The commands in the slots that an effect moves `cmdProducer` over. -/
def Adapter.passed (a : Adapter) : Effect → List CmdDescType0
  | .produce producer _ =>
      (List.range (Ring.span a.maxTxDescCount a.cmdProducer producer)).map fun i =>
        a.cmdDescHead ((a.cmdProducer + i) % a.maxTxDescCount)
  | _ => []

/-- The same for effects one after the other. -/
def Adapter.passedAll : Adapter → List Effect → List CmdDescType0
  | _, [] => []
  | a, e :: es => a.passed e ++ (a.exec e).passedAll es

/-- The adapter with the history of its command traffic: the numbers of commands
completed and reaped, the commands of the calls that returned `0`, the commands placed on
the ring, and every effect so far. -/
structure CmdWorld where
  adapter : Adapter
  completed : Nat := 0
  reaped : Nat := 0
  accepted : List CmdDescType0 := []
  placed : List CmdDescType0 := []
  log : List Effect := []

/-- What happens to the command ring: a request, with the block `kmalloc` has
for it; the pending queue processed; the device completing a command; and the
completion handler. -/
inductive CmdAction where
  | send (descs : List CmdDescType0) (alloc : Option PendingCmdDescBlock)
  | proc
  | device
  | complete

/-- The effects of a call are performed and entered in the history. -/
def CmdWorld.perform (w : CmdWorld) (es : List Effect) (accepted : List CmdDescType0) :
    CmdWorld :=
  { w with
    adapter := w.adapter.execAll es
    reaped := w.reaped + Ring.span w.adapter.maxTxDescCount w.adapter.lastCmdConsumer
      (w.adapter.execAll es).lastCmdConsumer
    accepted := w.accepted ++ accepted
    placed := w.placed ++ w.adapter.passedAll es
    log := w.log ++ es }

/-- The command ring under requests, completions and the device. -/
def cmdMachine : Machine CmdWorld CmdAction where
  next w
    | .send descs alloc =>
        let r := nxNicSendCmdDescs descs alloc w.adapter
        some (w.perform r.1 (if r.2 = 0 then descs else []))
    | .proc => some (w.perform (unmProcPendingCmdDesc w.adapter) [])
    | .device =>
        if w.adapter.cmdConsumer = w.adapter.cmdProducer then none
        else
          some { w with
            adapter := w.adapter.setCmdConsumer
              (Ring.next w.adapter.maxTxDescCount w.adapter.cmdConsumer)
            completed := w.completed + 1 }
    | .complete => some (w.perform (unmProcessCmdRing w.adapter).1 [])

/-- A ring of `n` slots, empty. -/
def CmdWorld.initial (n : Nat) : CmdWorld := { adapter := { maxTxDescCount := n } }

/-! ## What the effects leave alone -/

/-- The effects leave the pending queue alone. -/
def KeepsPending (es : List Effect) : Prop :=
  ∀ e ∈ es, e ≠ .bug ∧ ∀ p, e ≠ .pending p

theorem KeepsPending.append {es fs : List Effect} (he : KeepsPending es) (hf : KeepsPending fs) :
    KeepsPending (es ++ fs) := by
  intro e h
  rcases List.mem_append.mp h with h | h
  · exact he e h
  · exact hf e h

theorem KeepsPending.execAll {es : List Effect} (h : KeepsPending es) (a : Adapter) :
    (a.execAll es).pendingCmds = a.pendingCmds := by
  induction es generalizing a with
  | nil => rfl
  | cons e es ih =>
    rw [Adapter.execAll_cons, ih (fun f hf => h f (List.mem_cons_of_mem _ hf))]
    have he := (h e List.mem_cons_self).2
    cases e with
    | pending p => exact absurd rfl (he p)
    | copy off src len => rw [Adapter.exec, Adapter.setCmdConsumer_pendingCmds]
    | _ => rfl

theorem keepsPending_reapSlot (slot : Nat) (b : UnmCmdBuffer) :
    KeepsPending (reapSlot slot b) := by
  intro e he
  obtain ⟨dma, len, rfl⟩ | ⟨skb, rfl⟩ | ⟨c, rfl⟩ := mem_reapSlot he <;> exact ⟨nofun, nofun⟩

/-- Completions post nothing and leave the pending queue alone. -/
theorem keepsPending_reapLoop (consumer fuel : Nat) (a : Adapter) (last count : Nat) :
    KeepsPending (reapLoop consumer fuel a last count).1 := by
  induction fuel generalizing a last count with
  | zero => intro e he; cases he
  | succ fuel ih =>
    unfold reapLoop
    split
    · intro e he; cases he
    · exact KeepsPending.append (keepsPending_reapSlot _ _) (ih _ _ _)

theorem keepsPending_unmProcessCmdRing (a : Adapter) : KeepsPending (unmProcessCmdRing a).1 := by
  refine KeepsPending.append (keepsPending_reapLoop _ _ _ _ _) ?_
  intro e he
  split at he
  · cases he
  · rcases List.mem_cons.mp he with rfl | he
    · exact ⟨nofun, nofun⟩
    · split at he
      · rw [List.mem_singleton.mp he]
        exact ⟨nofun, nofun⟩
      · cases he

/-! ## Stores to consecutive slots -/

/-- The effects store commands to the slots from that of the counter `P` on, one after the
other, and entries of `cmd_buf_arr`, and nothing else. -/
def Consecutive (N : Nat) : Nat → List Effect → Prop
  | _, [] => True
  | P, .desc slot _ :: es => slot = P % N ∧ Consecutive N (P + 1) es
  | P, .buf _ _ :: es => Consecutive N P es
  | _, _ :: _ => False

section
variable {N : Nat}

theorem consecutive_postDescs {a : Adapter} (hN : 0 < N) (ha : a.maxTxDescCount = N)
    (cmd : BitVec 8) (descs : List CmdDescType0) (P : Nat) :
    Consecutive N P (postDescs a cmd descs (P % N)).1 ∧
      (postDescs a cmd descs (P % N)).2 = (P + descs.length) % N := by
  induction descs generalizing P with
  | nil => exact ⟨trivial, rfl⟩
  | cons d rest ih =>
    obtain ⟨hrest, hend⟩ := ih (P + 1)
    rw [postDescs, ha, Ring.next_mod P hN]
    refine ⟨⟨rfl, hrest⟩, hend.trans ?_⟩
    rw [List.length_cons, Nat.add_right_comm, Nat.add_assoc]

theorem Consecutive.append {P : Nat} {es fs : List Effect} (he : Consecutive N P es)
    (hf : Consecutive N (P + (placedBy es).length) fs) : Consecutive N P (es ++ fs) := by
  induction es generalizing P with
  | nil => exact hf
  | cons e es ih =>
    cases e with
    | desc slot d =>
      refine ⟨he.1, ih he.2 ?_⟩
      rw [Nat.add_assoc, Nat.add_comm 1]
      exact hf
    | buf slot b => exact ih (P := P) he hf
    | _ => exact he.elim

/-- The stores put the commands on the ring, leave the indices alone and move over nothing. -/
theorem Consecutive.holds {es : List Effect} {l : List CmdDescType0} {R : Nat} {a : Adapter}
    (he : Consecutive N l.length es) (hroom : l.length + (placedBy es).length ≤ R + N)
    (ha : Ring.Holds N R a.cmdDescHead l) :
    Ring.Holds N R (a.execAll es).cmdDescHead (l ++ placedBy es) ∧
      (a.execAll es).cmdProducer = a.cmdProducer ∧ a.passedAll es = [] := by
  induction es generalizing l a with
  | nil =>
    refine ⟨?_, rfl, rfl⟩
    show Ring.Holds N R a.cmdDescHead (l ++ [])
    rwa [List.append_nil]
  | cons e es ih =>
    cases e with
    | desc slot d =>
      obtain ⟨rfl, hrest⟩ := he
      have hplaced : placedBy (.desc (l.length % N) d :: es) = d :: placedBy es := rfl
      rw [hplaced, List.length_cons] at hroom
      have hlength : (l ++ [d]).length = l.length + 1 := by
        rw [List.length_append, List.length_singleton]
      obtain ⟨hholds, hprod, hpassed⟩ := ih (l := l ++ [d])
        (a := a.exec (.desc (l.length % N) d)) (hlength ▸ hrest) (by omega)
        (ha.push (by omega) d)
      refine ⟨?_, hprod, hpassed⟩
      rw [hplaced, List.append_cons]
      exact hholds
    | buf slot b => exact ih (a := a.exec (.buf slot b)) he hroom ha
    | _ => exact he.elim

theorem Adapter.passedAll_append (a : Adapter) (es fs : List Effect) :
    a.passedAll (es ++ fs) = a.passedAll es ++ (a.execAll es).passedAll fs := by
  induction es generalizing a with
  | nil => rfl
  | cons e es ih =>
    rw [List.cons_append, passedAll, passedAll, ih, List.append_assoc]
    rfl

/-- The stores of the loop of `unm_proc_pending_cmd_desc`. -/
theorem consecutive_procLoop {a : Adapter} (hN : 0 < N) (ha : a.maxTxDescCount = N) {P : Nat}
    (fuel : Nat) {v : ProcLocals} (hv : v.producer = (P + v.moved) % N) :
    Consecutive N (P + v.moved) (procLoop a fuel v).1 ∧
      (procLoop a fuel v).2.moved = v.moved + (placedBy (procLoop a fuel v).1).length := by
  induction fuel generalizing v with
  | zero => exact ⟨trivial, rfl⟩
  | succ fuel ih =>
    unfold procLoop
    split
    · exact ⟨trivial, rfl⟩
    · split
      · exact ⟨trivial, rfl⟩
      · rename_i b p hdeq
        obtain ⟨hposts, hend⟩ := consecutive_postDescs hN ha pegnetRequest b.descs (P + v.moved)
        rw [← hv, PendingCmdDescBlock.length_descs, Nat.add_assoc] at hend
        obtain ⟨hrest, hmoved⟩ := ih (v := ⟨(postDescs a pegnetRequest b.descs v.producer).2,
          v.moved + b.cnt, v.length - b.cnt, freePendCmdDescBlock p b⟩) hend
        rw [← hv] at hposts
        have hplaced :
            (placedBy (postDescs a pegnetRequest b.descs v.producer).1).length = b.cnt := by
          rw [placedBy_postDescs, PendingCmdDescBlock.length_descs]
        refine ⟨hposts.append ?_, ?_⟩
        · rw [hplaced, Nat.add_assoc]
          exact hrest
        · rw [hmoved, placedBy_append, List.length_append, hplaced, Nat.add_assoc]

/-- The stores leave the indices and the queue alone. -/
theorem Consecutive.counts {es : List Effect} {P : Nat} (he : Consecutive N P es) {a : Adapter}
    {n R C Q : Nat} (ha : a.Counts n R C Q) : (a.execAll es).Counts n R C Q := by
  induction es generalizing P a with
  | nil => exact ha
  | cons e es ih =>
    cases e with
    | desc slot d => exact ih he.2 (ha.of_eq rfl rfl rfl rfl rfl)
    | buf slot b => exact ih (P := P) he (ha.of_eq rfl rfl rfl rfl rfl)
    | _ => exact he.elim

theorem Consecutive.keepsPending {es : List Effect} {P : Nat} (he : Consecutive N P es) :
    KeepsPending es := by
  induction es generalizing P with
  | nil => exact fun _ h => absurd h List.not_mem_nil
  | cons e es ih =>
    have hrest : KeepsPending es := by
      cases e with
      | desc slot d => exact ih he.2
      | buf slot b => exact ih (P := P) he
      | _ => exact he.elim
    intro f hf
    rcases List.mem_cons.mp hf with rfl | hf
    · cases f with
      | desc slot d => exact ⟨nofun, nofun⟩
      | buf slot b => exact ⟨nofun, nofun⟩
      | _ => exact he.elim
    · exact hrest f hf

/-- The producer is published behind the last command on the ring. -/
theorem publish_passed {a : Adapter} {l : List CmdDescType0} {R C P : Nat}
    (ha : a.Counts N R C P) (hholds : Ring.Holds N R a.cmdDescHead l) (hP : P ≤ l.length)
    (hroom : l.length < R + N) (moved : Nat) :
    (a.execAll [.produce (l.length % N) moved, .doorbell (l.length % N)]).Counts N R C l.length ∧
      a.passedAll [.produce (l.length % N) moved, .doorbell (l.length % N)] = l.drop P := by
  have hle := ha.le
  refine ⟨⟨⟨ha.pos, ha.size, rfl, ha.consumer, by omega, hroom⟩, ha.device, ha.pending⟩, ?_⟩
  show (List.range (Ring.span a.maxTxDescCount a.cmdProducer (l.length % N))).map _ ++ [] = _
  rw [List.append_nil, ha.size, ha.producer, Ring.span_mod hP (by omega)]
  exact hholds.read hle hP

end

/-! ## The completion handler -/

/-- The loop passes completed slots only, and stores to `cmd_buf_arr` only. -/
theorem reapLoop_counters {n R C P : Nat} {a : Adapter} (ha : a.Counts n R C P) (fuel : Nat)
    {k : Nat} (hk : R + k ≤ C) (count : Nat) :
    ∃ d, (reapLoop (C % n) fuel a ((R + k) % n) count).2 = ((R + k + d) % n, count + d) ∧
      R + k + d ≤ C ∧
      (a.execAll (reapLoop (C % n) fuel a ((R + k) % n) count).1).Counts n R C P := by
  induction fuel generalizing a k count with
  | zero => exact ⟨0, rfl, hk, ha⟩
  | succ fuel ih =>
    rw [reapLoop]
    split
    · exact ⟨0, rfl, hk, ha⟩
    · rename_i hne
      have hlt : R + k < C := Nat.lt_of_le_of_ne hk fun heq => hne (by rw [heq])
      have hslot := ha.execAll_reapSlot ((R + k) % n) (a.cmdBufArr ((R + k) % n))
      obtain ⟨d, hend, hle, hcounts⟩ := ih hslot (k := k + 1) hlt (count + 1)
      dsimp only
      rw [ha.size, Ring.next_mod _ ha.pos, Nat.add_assoc R, Adapter.execAll_append]
      refine ⟨d + 1, hend.trans ?_, by omega, hcounts⟩
      congr 1
      · congr 1
        omega
      · omega

/-- The effect neither stores a command nor moves the producer. -/
def Effect.KeepsCommands : Effect → Prop
  | .desc _ _ | .produce _ _ => False
  | _ => True

theorem execAll_keepsCommands {es : List Effect} (h : ∀ e ∈ es, e.KeepsCommands) (a : Adapter) :
    (a.execAll es).cmdDescHead = a.cmdDescHead ∧ a.passedAll es = [] := by
  induction es generalizing a with
  | nil => exact ⟨rfl, rfl⟩
  | cons e es ih =>
    have he := h e List.mem_cons_self
    obtain ⟨hhead, hpassed⟩ := ih (fun f hf => h f (List.mem_cons_of_mem _ hf)) (a.exec e)
    rw [Adapter.execAll_cons, hhead, Adapter.passedAll, hpassed]
    cases e with
    | desc | produce => exact he.elim
    | copy off src len => exact ⟨a.setCmdConsumer_cmdDescHead _, rfl⟩
    | _ => exact ⟨rfl, rfl⟩

theorem keepsCommands_reapLoop (consumer fuel : Nat) (a : Adapter) (last count : Nat) :
    ∀ e ∈ (reapLoop consumer fuel a last count).1, e.KeepsCommands := by
  induction fuel generalizing a last count with
  | zero => exact fun e he => absurd he List.not_mem_nil
  | succ fuel ih =>
    rw [reapLoop]
    split
    · exact fun e he => absurd he List.not_mem_nil
    · intro e he
      rcases List.mem_append.mp he with he | he
      · obtain ⟨dma, len, rfl⟩ | ⟨skb, rfl⟩ | ⟨c, rfl⟩ := mem_reapSlot he <;> trivial
      · exact ih _ _ _ e he

theorem keepsCommands_unmProcessCmdRing (a : Adapter) :
    ∀ e ∈ (unmProcessCmdRing a).1, e.KeepsCommands := by
  intro e he
  rcases List.mem_append.mp he with he | he
  · exact keepsCommands_reapLoop _ _ _ _ _ e he
  · split at he
    · exact absurd he List.not_mem_nil
    · rcases List.mem_cons.mp he with rfl | he
      · trivial
      · split at he
        · rw [List.mem_singleton.mp he]
          trivial
        · exact absurd he List.not_mem_nil

/-- **The completion handler** moves the consumer over completed slots. -/
theorem unmProcessCmdRing_counts {n R C P : Nat} {a : Adapter} (ha : a.Counts n R C P)
    (hRC : R ≤ C) (hCP : C ≤ P) :
    ∃ d, R + d ≤ C ∧ (a.execAll (unmProcessCmdRing a).1).Counts n (R + d) C P := by
  obtain ⟨d, hend, hle, hcounts⟩ := reapLoop_counters ha maxStatusHandle (k := 0) hRC 0
  refine ⟨d, hle, ?_⟩
  rw [Nat.add_zero, ← ha.device, ← ha.consumer, Nat.zero_add] at hend
  rw [Nat.add_zero, ← ha.device, ← ha.consumer] at hcounts
  rw [unmProcessCmdRing, Adapter.execAll_append, hend]
  by_cases hd : d = 0
  · subst hd
    rw [if_pos rfl]
    exact hcounts
  · rw [if_neg hd]
    have hlt := ha.lt
    have hmoved := fun (q : Bool) (t : Nat) => show Adapter.Counts
        { a.execAll (reapLoop a.cmdConsumer maxStatusHandle a a.lastCmdConsumer 0).1 with
          lastCmdConsumer := (R + d) % n
          queueStopped := q
          txTimeoutCount := t } n (R + d) C P from
      ⟨⟨hcounts.pos, hcounts.size, hcounts.producer, rfl, by omega, by omega⟩, hcounts.device,
        hcounts.pending⟩
    split
    · exact hmoved false 0
    · exact hmoved _ _

/-! ## The invariant -/

/-- **The commands placed are in their slots**: the producer has moved over them, the consumer over
those that are reaped, and each of the others is alone in the slot of its number. -/
structure CmdWorld.InSlots (n : Nat) (w : CmdWorld) : Prop where
  producer : w.adapter.cmdProducer = w.placed.length % n
  consumer : w.adapter.lastCmdConsumer = w.reaped % n
  le : w.reaped ≤ w.placed.length
  lt : w.placed.length < w.reaped + n
  slots : ∀ i, w.reaped ≤ i → ∀ h : i < w.placed.length,
    w.adapter.cmdDescHead (i % n) = w.placed[i]

/-- The invariant of the command traffic: nothing was lost, repeated or
reordered, nothing was dropped, and the ring holds what was placed. -/
structure CmdWorld.Fifo (n : Nat) (w : CmdWorld) : Prop where
  counts : w.adapter.Counts n w.reaped w.completed w.placed.length
  reaped_le : w.reaped ≤ w.completed
  completed_le : w.completed ≤ w.placed.length
  holds : Ring.Holds n w.reaped w.adapter.cmdDescHead w.placed
  order : w.accepted = w.placed ++ w.adapter.pendingCmds.queued
  noBug : .bug ∉ w.log

theorem PendingCmdDescs.Valid.queued_eq_nil {p : PendingCmdDescs} (hp : p.Valid)
    (h : p.cnt = 0) : p.queued = [] :=
  List.eq_nil_of_length_eq_zero (hp.count ▸ h)

variable {n : Nat} {w w' : CmdWorld}

theorem CmdWorld.Fifo.inSlots (hw : w.Fifo n) : w.InSlots n where
  producer := hw.counts.producer
  consumer := hw.counts.consumer
  le := hw.counts.le
  lt := hw.counts.lt
  slots := hw.holds

/-- A step that moves the consumer by `d` slots and keeps the rest of the invariant. -/
theorem CmdWorld.Fifo.perform (hw : w.Fifo n) {es : List Effect} {accepted : List CmdDescType0}
    {d : Nat} (hd : w.reaped + d ≤ w.completed)
    (hcounts : (w.adapter.execAll es).Counts n (w.reaped + d) w.completed
      (w.placed ++ w.adapter.passedAll es).length)
    (hholds : Ring.Holds n w.reaped (w.adapter.execAll es).cmdDescHead
      (w.placed ++ w.adapter.passedAll es))
    (horder : w.accepted ++ accepted = w.placed ++ w.adapter.passedAll es ++
      (w.adapter.execAll es).pendingCmds.queued)
    (hbug : .bug ∉ es) : (w.perform es accepted).Fifo n := by
  have hlt := hw.counts.lt
  have hcompleted := hw.completed_le
  have hreaped : (w.perform es accepted).reaped = w.reaped + d := by
    show w.reaped + Ring.span _ _ _ = _
    rw [hw.counts.size, hw.counts.consumer, hcounts.consumer,
      Ring.span_mod (Nat.le_add_right _ _) (by omega), Nat.add_sub_cancel_left]
  refine ⟨hreaped ▸ hcounts, hreaped ▸ hd, ?_, hreaped ▸ hholds.mono (Nat.le_add_right _ _), horder,
    fun h => ?_⟩
  · show w.completed ≤ (w.placed ++ w.adapter.passedAll es).length
    rw [List.length_append]
    omega
  · exact (List.mem_append.mp h).elim hw.noBug hbug

/-- A step that places nothing and leaves the indices alone. -/
theorem CmdWorld.Fifo.keep (hw : w.Fifo n) {es : List Effect} {accepted : List CmdDescType0}
    (hcounts : (w.adapter.execAll es).Counts n w.reaped w.completed w.placed.length)
    (hes : ∀ e ∈ es, e.KeepsCommands)
    (horder : w.accepted ++ accepted = w.placed ++ (w.adapter.execAll es).pendingCmds.queued)
    (hbug : .bug ∉ es) : (w.perform es accepted).Fifo n := by
  obtain ⟨hhead, hpassed⟩ := execAll_keepsCommands hes w.adapter
  have happend : w.placed ++ w.adapter.passedAll es = w.placed := by
    rw [hpassed, List.append_nil]
  exact hw.perform (d := 0) hw.reaped_le (by rw [happend]; exact hcounts)
    (by rw [happend, hhead]; exact hw.holds) (by rw [happend]; exact horder) hbug

/-- A request: posted when nothing waits and there is room, else queued whole,
else refused. -/
theorem CmdWorld.Fifo.send (hw : w.Fifo n) (descs : List CmdDescType0)
    (alloc : Option PendingCmdDescBlock) :
    (w.perform (nxNicSendCmdDescs descs alloc w.adapter).1
      (if (nxNicSendCmdDescs descs alloc w.adapter).2 = 0 then descs else [])).Fifo n := by
  have hnothing : (w.perform [] []).Fifo n :=
    hw.keep hw.counts (fun e he => absurd he List.not_mem_nil)
      ((List.append_nil _).trans hw.order) List.not_mem_nil
  have hbound := bound_counters hw.counts.le hw.counts.lt
  unfold nxNicSendCmdDescs
  split
  · exact hnothing
  · rename_i hlen
    split
    · split
      · exact hnothing
      · rename_i r hr
        obtain ⟨q, hq, rfl⟩ := Option.map_eq_some_iff.mp hr
        obtain ⟨hv, hfit, hqueued⟩ := nxMakeAvailable_spec hw.counts.pending (by omega) hq
        obtain ⟨h1, h2, h3⟩ := queueAll_spec descs hv hfit (by omega)
        rw [h1]
        refine hw.keep ⟨hw.counts.toAt.of_pending _, hw.counts.device, h2⟩ ?_ ?_ ?_
        · intro e he
          rw [List.mem_singleton.mp he]
          trivial
        · show w.accepted ++ descs = w.placed ++ (queueAll descs q).2.queued
          rw [h3, hqueued, hw.order, List.append_assoc]
        · exact fun h => absurd (List.mem_singleton.mp h) nofun
    · rename_i hroom
      show (w.perform ((postDescs w.adapter 0 descs w.adapter.cmdProducer).1 ++
        [.produce (postDescs w.adapter 0 descs w.adapter.cmdProducer).2 descs.length,
          .doorbell (postDescs w.adapter 0 descs w.adapter.cmdProducer).2]) descs).Fifo n
      -- posting directly overtakes nothing, because it is tried only on an empty queue
      unfold commandsWait at hroom
      rw [hw.counts.size, hw.counts.consumer, hw.counts.producer] at hroom
      have hempty : w.adapter.pendingCmds.queued = [] :=
        hw.counts.pending.queued_eq_nil (by omega)
      obtain ⟨hposts, hend⟩ :=
        consecutive_postDescs hw.counts.pos hw.counts.size 0 descs w.placed.length
      rw [← hw.counts.producer] at hposts hend
      have hplaced := placedBy_postDescs w.adapter 0 descs w.adapter.cmdProducer
      obtain ⟨hholds, -, hpassed⟩ := hposts.holds (R := w.reaped) (by rw [hplaced]; omega) hw.holds
      rw [hplaced] at hholds
      rw [← List.length_append] at hend
      have hlength : (w.placed ++ descs).length < w.reaped + n := by
        rw [List.length_append]
        omega
      obtain ⟨hcounts, hmoved⟩ := publish_passed (hposts.counts hw.counts) hholds
        (by rw [List.length_append]; omega) hlength descs.length
      rw [List.drop_left] at hmoved
      have hall : w.adapter.passedAll ((postDescs w.adapter 0 descs w.adapter.cmdProducer).1 ++
          [.produce (postDescs w.adapter 0 descs w.adapter.cmdProducer).2 descs.length,
            .doorbell (postDescs w.adapter 0 descs w.adapter.cmdProducer).2]) = descs := by
        rw [Adapter.passedAll_append, hpassed, hend, hmoved]
        rfl
      refine hw.perform (d := 0) hw.reaped_le ?_ ?_ ?_ ?_
      · rw [hall, hend, Adapter.execAll_append]
        exact hcounts
      · rw [hall, Adapter.execAll_append]
        exact hholds
      · rw [hall, Adapter.execAll_append]
        show w.accepted ++ descs = w.placed ++ descs ++
          (w.adapter.execAll _).pendingCmds.queued
        rw [hposts.keepsPending.execAll, hempty, hw.order, hempty]
        simp
      · intro h
        rcases List.mem_append.mp h with h | h
        · exact (hposts.keepsPending _ h).1 rfl
        · simp at h

/-- Processing the pending queue moves its front to the ring. -/
theorem CmdWorld.Fifo.proc (hw : w.Fifo n) :
    (w.perform (unmProcPendingCmdDesc w.adapter) []).Fifo n := by
  have hfree := freeLength_counters hw.counts.toAt
  generalize hv : (⟨w.adapter.cmdProducer, 0, freeLength w.adapter.maxTxDescCount
    w.adapter.cmdProducer w.adapter.lastCmdConsumer, w.adapter.pendingCmds⟩ : ProcLocals) = v
  have hprod : v.producer = (w.placed.length + v.moved) % n := by
    rw [← hv]
    exact hw.counts.producer
  have hzero : v.moved = 0 := by rw [← hv]
  have hlength : v.length = freeLength n (w.placed.length % n) (w.reaped % n) := by
    rw [← hv, hw.counts.size, hw.counts.producer, hw.counts.consumer]
  have hvalid : v.pend.Valid := by
    rw [← hv]
    exact hw.counts.pending
  have hqueued : v.pend.queued = w.adapter.pendingCmds.queued := by rw [← hv]
  obtain ⟨h1, h2⟩ := procLoop_spec w.adapter w.adapter.pendingCmds.blockCount hvalid
  obtain ⟨hposts, hmoved⟩ := consecutive_procLoop hw.counts.pos hw.counts.size
    w.adapter.pendingCmds.blockCount hprod
  obtain ⟨-, hend, hlt⟩ := procLoop_quiet (R := w.reaped) hw.counts.pos hw.counts.size
    w.adapter.pendingCmds.blockCount hvalid hprod (by omega)
  unfold unmProcPendingCmdDesc
  simp only [hv]
  generalize procLoop w.adapter w.adapter.pendingCmds.blockCount v = r
    at h1 h2 hposts hmoved hend hlt ⊢
  rw [hzero, Nat.add_zero] at hposts
  rw [hzero, Nat.zero_add] at hmoved
  rw [hmoved, ← List.length_append] at hend hlt
  obtain ⟨hholds, -, hpassed⟩ := hposts.holds (R := w.reaped)
    (by rw [← List.length_append]; omega) hw.holds
  -- the new queue is stored before the producer
  have hpend : ((w.adapter.execAll r.1).exec (.pending r.2.pend)).Counts n w.reaped w.completed
      w.placed.length :=
    have hcounts := hposts.counts hw.counts
    ⟨hcounts.toAt.of_pending _, hcounts.device, h1⟩
  have hbug : ∀ fs : List Effect, .bug ∉ fs → .bug ∉ r.1 ++ .pending r.2.pend :: fs := by
    intro fs hfs h
    rcases List.mem_append.mp h with h | h
    · exact (hposts.keepsPending _ h).1 rfl
    · rcases List.mem_cons.mp h with h | h
      · cases h
      · exact hfs h
  have hqueue : w.accepted ++ [] = w.placed ++ placedBy r.1 ++ r.2.pend.queued := by
    rw [List.append_nil, hw.order, List.append_assoc, ← h2, hqueued]
  split
  · rename_i hsame
    -- the producer is where it was, so nothing has been stored
    have hnil : placedBy r.1 = [] := by
      rw [hw.counts.producer, hend] at hsame
      have heq := Ring.eq_of_mod_eq (by rw [List.length_append]; omega)
        (by have := hw.counts.le; omega) hsame
      rw [List.length_append] at heq
      exact List.eq_nil_of_length_eq_zero (by omega)
    rw [hnil, List.append_nil] at hqueue hholds
    have hall : w.adapter.passedAll (r.1 ++ [.pending r.2.pend]) = [] := by
      rw [Adapter.passedAll_append, hpassed]
      rfl
    refine hw.perform (d := 0) hw.reaped_le ?_ ?_ ?_ (hbug [] List.not_mem_nil)
    · rw [hall, List.append_nil, Adapter.execAll_append]
      exact hpend
    · rw [hall, List.append_nil, Adapter.execAll_append]
      exact hholds
    · rw [hall, List.append_nil, Adapter.execAll_append]
      exact hqueue
  · obtain ⟨hcounts, hpub⟩ := publish_passed hpend
      (l := w.placed ++ placedBy r.1) hholds (by rw [List.length_append]; omega) hlt r.2.moved
    rw [List.drop_left] at hpub
    have hall : w.adapter.passedAll (r.1 ++ .pending r.2.pend ::
        [.produce r.2.producer r.2.moved, .doorbell r.2.producer]) = placedBy r.1 := by
      rw [Adapter.passedAll_append, hpassed, hend]
      exact hpub
    refine hw.perform (d := 0) hw.reaped_le ?_ ?_ ?_ (hbug _ (by simp))
    · rw [hall, hend, Adapter.execAll_append]
      exact hcounts
    · rw [hall, Adapter.execAll_append]
      exact hholds
    · rw [hall, Adapter.execAll_append]
      exact hqueue

theorem CmdWorld.Fifo.complete (hw : w.Fifo n) :
    (w.perform (unmProcessCmdRing w.adapter).1 []).Fifo n := by
  obtain ⟨d, hd, hcounts⟩ :=
    unmProcessCmdRing_counts hw.counts hw.reaped_le hw.completed_le
  obtain ⟨hhead, hpassed⟩ :=
    execAll_keepsCommands (keepsCommands_unmProcessCmdRing w.adapter) w.adapter
  have happend : w.placed ++ w.adapter.passedAll (unmProcessCmdRing w.adapter).1 = w.placed := by
    rw [hpassed, List.append_nil]
  refine hw.perform hd (by rw [happend]; exact hcounts) (by rw [happend, hhead]; exact hw.holds) ?_
    fun h => (keepsPending_unmProcessCmdRing _ _ h).1 rfl
  rw [happend, List.append_nil, (keepsPending_unmProcessCmdRing _).execAll]
  exact hw.order

/-- **Every step** keeps it. -/
theorem CmdWorld.Fifo.step {x : CmdAction} (hw : w.Fifo n) (h : cmdMachine.next w x = some w') :
    w'.Fifo n := by
  cases x with
  | send descs alloc => exact Option.some.inj h ▸ hw.send descs alloc
  | proc => exact Option.some.inj h ▸ hw.proc
  | device =>
    obtain ⟨hne, h⟩ := Option.ite_none_left_eq_some.mp h
    obtain rfl := Option.some.inj h
    -- different indices mean different counters
    have hlt : w.completed < w.placed.length := by
      refine Nat.lt_of_le_of_ne hw.completed_le fun heq => hne ?_
      rw [hw.counts.device, hw.counts.producer, heq]
    exact { hw with
      counts := hw.counts.device_next
      reaped_le := Nat.le_succ_of_le hw.reaped_le
      completed_le := hlt }
  | complete => exact Option.some.inj h ▸ hw.complete

theorem CmdWorld.initial_fifo (hn : 0 < n) : (CmdWorld.initial n).Fifo n where
  counts := (RingWorld.initial_inv hn).counts
  reaped_le := Nat.le_refl 0
  completed_le := Nat.le_refl 0
  holds _ _ h := absurd h (Nat.not_lt_zero _)
  order := rfl
  noBug := List.not_mem_nil

/-- A refused request has no effect at all. -/
theorem nxNicSendCmdDescs_enomem {descs : List CmdDescType0}
    {alloc : Option PendingCmdDescBlock} {a : Adapter}
    (h : (nxNicSendCmdDescs descs alloc a).2 = enomem) :
    (nxNicSendCmdDescs descs alloc a).1 = [] := by
  unfold nxNicSendCmdDescs at h ⊢
  split
  · rfl
  · rename_i hlen
    rw [if_neg hlen] at h
    split
    · rename_i hwait
      rw [if_pos hwait] at h
      split
      · rfl
      · rename_i r hr
        rw [hr] at h
        cases h
    · rename_i hroom
      rw [if_neg hroom] at h
      cases h

/-- **The pending queue is a loss-free FIFO.**  In every run, the commands placed on
the ring are a prefix of the commands accepted, in call order, and those that are not
reaped yet are in the slots between the two indices, each in one of them; the rest is
the content of the blocks on `cmdList` followed by the current block; `cnt` counts it;
every block on `cmdList` is full; a refused call does nothing; and no command was ever
dropped. -/
theorem pending_queue_fifo (hn : 0 < n) {l : List CmdAction}
    (h : cmdMachine.run (CmdWorld.initial n) l = some w) :
    w.accepted = w.placed ++ w.adapter.pendingCmds.queued ∧ w.InSlots n ∧
      w.adapter.pendingCmds.cnt = w.adapter.pendingCmds.queued.length ∧
      (∀ b ∈ w.adapter.pendingCmds.cmdList, b.cnt = maxPendingDescBlockSize) ∧
      (∀ descs alloc, (nxNicSendCmdDescs descs alloc w.adapter).2 = enomem →
        (nxNicSendCmdDescs descs alloc w.adapter).1 = []) ∧
      .bug ∉ w.log := by
  have hw : w.Fifo n := cmdMachine.run_invariant (fun _ _ _ hI hnext => hI.step hnext)
    (CmdWorld.initial_fifo hn) h
  exact ⟨hw.order, hw.inSlots, hw.counts.pending.count, hw.counts.pending.full,
    fun _ _ he => nxNicSendCmdDescs_enomem he, hw.noBug⟩

/-- `k` commands with the number `i`. -/
def commands (i k : Nat) : List CmdDescType0 :=
  List.replicate k { referenceHandle := BitVec.ofNat 16 i }

/-- Of 252 commands on a ring of 256 slots 20 are completed and reaped.  Ten commands have waited in
the queue until then, and go round the end of the ring; between them, a request found no memory. -/
def queuedRun : List CmdAction :=
  (List.range 4).map (fun i => .send (commands i 63) none) ++
    [.send (commands 4 10) (some ⟨0, fun _ => {}⟩), .send (commands 5 64) none, .proc] ++
    List.replicate 20 .device ++ [.complete, .proc]

theorem pending_queue_fifo_queued :
    ∃ w, cmdMachine.run (CmdWorld.initial 256) queuedRun = some w ∧
      (w.placed.length, w.reaped, w.adapter.cmdProducer) = (262, 20, 6) ∧
      w.adapter.cmdDescHead 5 = { referenceHandle := 4 } ∧
      w.accepted = w.placed ++ w.adapter.pendingCmds.queued ∧ w.InSlots 256 := by
  have hrun : (cmdMachine.run (CmdWorld.initial 256) queuedRun).map
      (fun w => ((w.placed.length, w.reaped, w.adapter.cmdProducer), w.adapter.cmdDescHead 5)) =
        some ((262, 20, 6), { referenceHandle := 4 }) := by
    decide +kernel
  obtain ⟨w, hw, hends⟩ := Option.map_eq_some_iff.mp hrun
  obtain ⟨hcounts, hslot⟩ := Prod.mk.inj hends
  obtain ⟨horder, hslots, -⟩ := pending_queue_fifo (by decide) hw
  exact ⟨w, hw, hcounts, hslot, horder, hslots⟩

end Tx
end NxNic

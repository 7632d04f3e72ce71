import NxNic.Tx.Buffers
import NxNic.Tx.RingSafety

/-! # Packets and mappings are released once

Runs of `unm_nic_xmit_frame` and `unm_process_cmd_ring`, ended at any moment by
`nx_free_tx_resources`.  A run keeps two ledgers: of the packets, each acquired
when a call accepts it and released by `dev_kfree_skb_any`, and of the DMA
mappings.  At any moment the slots in use hold what the ledgers say is held
(`TxWorld.Inv`), which leaves the teardown: it looks at every slot, in use or
not.

The caller of `unm_nic_xmit_frame` owns the packet, so a packet accepted once is
not submitted again; one for which the call returned `NETDEV_TX_BUSY` may be.
-/
namespace NxNic
namespace Tx

/-! ## The machine -/

/-- The adapter, the numbers of commands posted, completed and reaped, and the
ledgers of packets and of mappings.  `dropped` says that the last packet that
was put in a slot could not be mapped. -/
structure TxWorld where
  adapter : Adapter
  posted : Nat := 0
  completed : Nat := 0
  reaped : Nat := 0
  packets : List (Entry Nat) := []
  dma : List (Entry UnmSkbFrag) := []
  dropped : Bool := false

inductive TxAction where
  | xmit (dev : NetDev) (io : XmitIo) (skb : Skb)
  | device
  | complete

/-- How far the effect moves `lastCmdConsumer`. -/
def Effect.consumed : Effect → Nat
  | .consume _ moved => moved
  | _ => 0

def consumedBy (es : List Effect) : Nat := (es.map Effect.consumed).sum

@[simp] theorem consumedBy_append (es fs : List Effect) :
    consumedBy (es ++ fs) = consumedBy es + consumedBy fs := by
  simp [consumedBy]

/-- The effects of a call are performed and entered in the ledgers, after the
packets the call accepted. -/
def TxWorld.perform (w : TxWorld) (es : List Effect) (accepted : List (Entry Nat)) : TxWorld :=
  { w with
    adapter := w.adapter.execAll es
    posted := w.posted + producedBy es
    reaped := w.reaped + consumedBy es
    packets := w.packets ++ accepted ++ skbs.ledger es
    dma := w.dma ++ mappings.ledger es }

/-- Packets queued, completed by the device and reaped. -/
def txMachine : Machine TxWorld TxAction where
  next w
    | .xmit dev io skb =>
        if .acquire skb.id ∈ w.packets then none
        else
          let r := unmNicXmitFrame dev io skb w.adapter
          let w' := w.perform r.1 (if r.2 = .ok then [.acquire skb.id] else [])
          match queuedAs dev io skb w.adapter with
          | none => some w'
          | some s => some { w' with dropped := !decide (Mapped io s) }
    | .device =>
        if w.adapter.cmdConsumer = w.adapter.cmdProducer then none
        else
          some { w with
            adapter := w.adapter.setCmdConsumer
              (Ring.next w.adapter.maxTxDescCount w.adapter.cmdConsumer)
            completed := w.completed + 1 }
    | .complete => some (w.perform (unmProcessCmdRing w.adapter).1 [])

/-- An empty ring of `n` slots. -/
def TxWorld.initial (n : Nat) : TxWorld := { adapter := { maxTxDescCount := n } }

/-- The run ends with `nx_free_tx_resources`. -/
def TxWorld.teardown (w : TxWorld) : TxWorld := w.perform (nxFreeTxResources w.adapter) []

/-- The condition on the steps of a run: the copies of a packet's headers fit. -/
def TxAction.Fits (w : TxWorld) : TxAction → Prop
  | .xmit dev io skb => XmitFits dev io skb w.adapter
  | _ => True

instance (w : TxWorld) (x : TxAction) : Decidable (x.Fits w) := by
  unfold TxAction.Fits; split <;> infer_instance

/-! ## The indices -/

/-- A safe plan, performed at once, moves the producer by what it says. -/
theorem Adapter.Counts.execAll {a : Adapter} {n R C P : Nat} (hn : n ≤ 256 ^ 4)
    {es : List Effect} (ha : a.Counts n R C P) (hes : SafePlan n R P es) :
    (a.execAll es).Counts n R C (P + producedBy es) := by
  induction es generalizing a P with
  | nil => exact ha
  | cons e es ih =>
    have := ih (ha.exec hn hes.1) hes.2
    rwa [Nat.add_assoc] at this

theorem SafePlan.consumedBy {n R P : Nat} {es : List Effect} (h : SafePlan n R P es) :
    consumedBy es = 0 := by
  induction es generalizing P with
  | nil => rfl
  | cons e es ih =>
    obtain ⟨⟨-, he⟩, hes⟩ := h
    have hzero : e.consumed = 0 := by
      cases e with
      | consume p k => exact absurd he id
      | _ => rfl
    rw [Tx.consumedBy, List.map_cons, List.sum_cons, hzero, Nat.zero_add]
    exact ih hes

/-! ## The loop over the completed slots -/

theorem reapSlot_rewrites (s : Nat) (b : UnmCmdBuffer) :
    ∃ c, c.skb = none ∧ Rewrites s b c (reapSlot s b) := by
  cases hskb : b.skb with
  | none =>
    refine ⟨b, hskb, Rewrites.keep fun e he => ?_⟩
    rw [reapSlot, hskb] at he
    cases he
  | some skb =>
    refine ⟨{ b with skb := none }, rfl, ?_⟩
    rw [reapSlot_some hskb]
    refine (Rewrites.keep fun e he => ?_).append fun _ _ => rfl
    obtain ⟨f, -, rfl⟩ := List.mem_map.mp he
    trivial

theorem reapSlot_moves (s : Nat) (b : UnmCmdBuffer) :
    producedBy (reapSlot s b) = 0 ∧ consumedBy (reapSlot s b) = 0 := by
  constructor
  all_goals
    refine List.sum_eq_zero fun k hk => ?_
    obtain ⟨e, he, rfl⟩ := List.mem_map.mp hk
    obtain ⟨dma, len, rfl⟩ | ⟨skb, rfl⟩ | ⟨c, rfl⟩ := mem_reapSlot he <;> rfl

/-- What the slots of the counters from `R` to `P` hold. -/
def Resource.inUse {β : Type} [DecidableEq β] (r : Resource β) (a : Adapter) (n R P : Nat) :
    Multiset β :=
  ∑ i ∈ Finset.Ico R P, r.held (a.cmdBufArr (i % n))

/-- The slots in use that carry a packet have at least one fragment. -/
def Adapter.Fragged (a : Adapter) (n R P : Nat) : Prop :=
  ∀ i, R ≤ i → i < P → (a.cmdBufArr (i % n)).skb.isSome →
    1 ≤ (a.cmdBufArr (i % n)).fragCount.toNat

theorem mod_ne_of_lt {n R i : Nat} (h1 : R < i) (h2 : i < R + n) : i % n ≠ R % n := fun h =>
  Nat.ne_of_lt h1 (Ring.eq_of_mod_eq (Nat.le_of_lt h1) h2 h.symm)

/-- What `d` rounds of the loop have done, from counter `R` on: the slots passed
are empty, the others are as before, and what the former held is released. -/
structure Reaped (n R P d : Nat) (a : Adapter) (es : List Effect) : Prop where
  empty : ∀ i, R ≤ i → i < R + d → ((a.execAll es).cmdBufArr (i % n)).skb = none
  frame : ∀ i, R + d ≤ i → i < R + n → (a.execAll es).cmdBufArr (i % n) = a.cmdBufArr (i % n)
  moves : producedBy es = 0 ∧ consumedBy es = 0
  settle : ∀ {β : Type} [DecidableEq β] (r : Resource β),
    Ledger.settle (r.inUse a n R P) (r.ledger es) = some (r.inUse (a.execAll es) n (R + d) P)
  counts : ∀ R₀ C, a.Counts n R₀ C P → (a.execAll es).Counts n R₀ C P

theorem Reaped.zero (n R P : Nat) (a : Adapter) : Reaped n R P 0 a [] :=
  ⟨fun _ _ _ => by omega, fun _ _ _ => rfl, ⟨rfl, rfl⟩, fun _ => rfl, fun _ _ h => h⟩

/-- One round of the loop, and the rounds after it. -/
theorem Reaped.succ {n R P d : Nat} {a : Adapter} {fs : List Effect} (hRP : R < P)
    (hPn : P < R + n) (hd : d < n) (hfrag : a.Fragged n R P)
    (h : Reaped n (R + 1) P d
      (a.execAll (reapSlot (R % n) (a.cmdBufArr (R % n)))) fs) :
    Reaped n R P (d + 1) a (reapSlot (R % n) (a.cmdBufArr (R % n)) ++ fs) := by
  obtain ⟨c, hc, hrw⟩ := reapSlot_rewrites (R % n) (a.cmdBufArr (R % n))
  have harr := hrw a rfl
  have hmoves := reapSlot_moves (R % n) (a.cmdBufArr (R % n))
  have hother : ∀ i, R < i → i < R + n →
      (a.execAll (reapSlot (R % n) (a.cmdBufArr (R % n)))).cmdBufArr (i % n) =
        a.cmdBufArr (i % n) := by
    intro i h1 h2
    rw [harr, Function.update_of_ne (mod_ne_of_lt h1 h2)]
  have hthis : (a.execAll (reapSlot (R % n) (a.cmdBufArr (R % n)))).cmdBufArr (R % n) = c := by
    rw [harr, Function.update_self]
  have hslot := fun {β : Type} [DecidableEq β] (r : Resource β) =>
    r.reap (R % n) (a.cmdBufArr (R % n)) (∑ i ∈ Finset.Ico (R + 1) P, r.held (a.cmdBufArr (i % n)))
      (hfrag R (Nat.le_refl R) hRP)
  have hcounts := fun (R₀ C : Nat) (ha : a.Counts n R₀ C P) =>
    ha.execAll_reapSlot (R % n) (a.cmdBufArr (R % n))
  generalize reapSlot (R % n) (a.cmdBufArr (R % n)) = es
    at h harr hmoves hother hthis hslot hcounts ⊢
  refine ⟨?_, ?_, ?_, ?_, ?_⟩
  · intro i h1 h2
    rw [Adapter.execAll_append]
    rcases Nat.lt_or_eq_of_le h1 with h1 | rfl
    · exact h.empty i h1 (by omega)
    -- the first slot again, unless the rounds have come round to it
    · by_cases hlap : R + 1 + d ≤ R + n
      · have := h.frame (R + n) hlap (by omega)
        rw [Nat.add_mod_right] at this
        rw [this, hthis]
        exact hc
      · omega
  · intro i h1 h2
    rw [Adapter.execAll_append, h.frame i (by omega) (by omega), hother i (by omega) h2]
  · rw [producedBy_append, consumedBy_append, hmoves.1, hmoves.2, h.moves.1, h.moves.2]
    exact ⟨rfl, rfl⟩
  · intro β _ r
    rw [Adapter.execAll_append, Resource.ledger_append, ← Nat.add_assoc, Nat.add_right_comm]
    refine Ledger.settle_append_of ?_ (h.settle r)
    have hrest : r.inUse (a.execAll es) n (R + 1) P =
        ∑ i ∈ Finset.Ico (R + 1) P, r.held (a.cmdBufArr (i % n)) := by
      refine Finset.sum_congr rfl fun i hi => ?_
      rw [Finset.mem_Ico] at hi
      rw [hother i (by omega) (by omega)]
    rw [hrest, Resource.inUse, Finset.sum_eq_sum_Ico_succ_bot hRP, add_comm]
    exact hslot r
  · intro R₀ C ha
    rw [Adapter.execAll_append]
    exact h.counts R₀ C (hcounts R₀ C ha)

/-- The loop of `unm_process_cmd_ring`, from counter `R` on, passes completed
slots only. -/
theorem reapLoop_spec {n C P : Nat} (hn : 0 < n) (hCP : C ≤ P) (fuel : Nat) {a : Adapter}
    {R : Nat} (count : Nat) (hsize : a.maxTxDescCount = n) (hRC : R ≤ C) (hPn : P < R + n)
    (hfrag : a.Fragged n R P) :
    ∃ d, (reapLoop (C % n) fuel a (R % n) count).2 = ((R + d) % n, count + d) ∧ R + d ≤ C ∧
      Reaped n R P d a (reapLoop (C % n) fuel a (R % n) count).1 := by
  induction fuel generalizing a R count with
  | zero => exact ⟨0, rfl, hRC, Reaped.zero ..⟩
  | succ fuel ih =>
    unfold reapLoop
    by_cases hstop : R % n = C % n
    · rw [if_pos hstop]
      exact ⟨0, rfl, hRC, Reaped.zero ..⟩
    · rw [if_neg hstop]
      have hlt : R < C := Nat.lt_of_le_of_ne hRC fun heq => hstop (by rw [heq])
      -- the round empties this slot only, so the rest still carry their fragments
      obtain ⟨c, -, hrw⟩ := reapSlot_rewrites (R % n) (a.cmdBufArr (R % n))
      have hfrag' : (a.execAll (reapSlot (R % n) (a.cmdBufArr (R % n)))).Fragged n (R + 1) P := by
        intro i h1 h2 h3
        rw [hrw a rfl, Function.update_of_ne (mod_ne_of_lt (by omega) (by omega))] at h3 ⊢
        exact hfrag i (by omega) h2 h3
      obtain ⟨d, h1, h2, h3⟩ := ih (count + 1)
        (by rw [Adapter.execAll_maxTxDescCount]; exact hsize) hlt (by omega) hfrag'
      simp only [hsize, Ring.next_mod R hn]
      refine ⟨d + 1, ?_, by omega, Reaped.succ (by omega) hPn (by omega) hfrag h3⟩
      rw [h1]
      congr 1 <;> first | omega | (congr 1; omega)

/-! ## The invariant -/

/-- The resource's ledger `es` says that the slots in use hold what is held. -/
def TxWorld.Holds {β : Type} [DecidableEq β] (w : TxWorld) (n : Nat) (r : Resource β)
    (es : List (Entry β)) : Prop :=
  Ledger.settle 0 es = some (r.inUse w.adapter n w.reaped w.posted)

/-- The indices are those of the counters; a slot that is not in use carries no
packet, unless it is the producer's and names a dropped one; and both ledgers
agree with the slots in use. -/
structure TxWorld.Inv (n : Nat) (w : TxWorld) : Prop where
  counts : w.adapter.Counts n w.reaped w.completed w.posted
  reaped_le : w.reaped ≤ w.completed
  completed_le : w.completed ≤ w.posted
  free : ∀ i, w.posted ≤ i → i < w.reaped + n → (w.dropped = true → i ≠ w.posted) →
    (w.adapter.cmdBufArr (i % n)).skb = none
  stale : w.dropped = true → ∃ skb, (w.adapter.cmdBufArr (w.posted % n)).skb = some skb ∧
    Entry.acquire skb ∈ w.packets
  fragged : w.adapter.Fragged n w.reaped w.posted
  packets : w.Holds n skbs w.packets
  dma : w.Holds n mappings w.dma
  once : ∀ skb, Ledger.acquired skb w.packets ≤ 1

theorem TxWorld.initial_inv {n : Nat} (hn : 0 < n) : (TxWorld.initial n).Inv n where
  counts := (RingWorld.initial_inv hn).counts
  reaped_le := Nat.le_refl 0
  completed_le := Nat.le_refl 0
  free _ _ _ _ := rfl
  stale := nofun
  fragged _ _ _ := nofun
  packets := rfl
  dma := rfl
  once _ := Nat.zero_le _

variable {n : Nat} {w w' : TxWorld}

/-- Effects free packets; they never accept one. -/
theorem acquired_skbs_ledger (skb : Nat) (es : List Effect) :
    Ledger.acquired skb (skbs.ledger es) = 0 := by
  rw [Ledger.acquired, List.count_eq_zero]
  intro h
  obtain ⟨e, -, he⟩ := List.mem_filterMap.mp h
  cases e <;> cases he

/-- The completion handler, run undisturbed. -/
theorem TxWorld.Inv.complete (hw : w.Inv n) :
    (w.perform (unmProcessCmdRing w.adapter).1 []).Inv n := by
  have hat := hw.counts.toAt
  have hCP := hw.completed_le
  obtain ⟨d, h1, h2, h3⟩ := reapLoop_spec hat.pos hCP maxStatusHandle 0 hat.size hw.reaped_le
    hat.lt hw.fragged
  rw [← hw.counts.device, ← hat.consumer] at h1 h3
  -- the store of `lastCmdConsumer`, and the queue woken up
  have hstore : ∃ fs, (unmProcessCmdRing w.adapter).1 =
        (reapLoop w.adapter.cmdConsumer maxStatusHandle w.adapter w.adapter.lastCmdConsumer 0).1 ++
          fs ∧
      producedBy fs = 0 ∧ consumedBy fs = d ∧ (∀ e ∈ fs, e.Plain) ∧
      ∀ a : Adapter, a.Counts n w.reaped w.completed w.posted →
        (a.execAll fs).Counts n (w.reaped + d) w.completed w.posted := by
    refine ⟨_, rfl, ?_⟩
    rw [h1]
    simp only [Nat.zero_add]
    by_cases hd : d = 0
    · subst hd
      exact ⟨rfl, rfl, fun e he => absurd he List.not_mem_nil, fun a ha => ha⟩
    · rw [if_neg hd]
      have hnext : ∀ (a : Adapter) (q : Bool) (t : Nat),
          a.Counts n w.reaped w.completed w.posted →
          Adapter.Counts { a with
            lastCmdConsumer := (w.reaped + d) % n
            queueStopped := q
            txTimeoutCount := t } n (w.reaped + d) w.completed w.posted := by
        rintro a q t ⟨ha, hdev, hpend⟩
        have := ha.lt
        exact ⟨⟨ha.pos, ha.size, ha.producer, rfl, by omega, by omega⟩, hdev, hpend⟩
      split
      · refine ⟨rfl, rfl, fun e he => ?_, fun a ha => hnext a false 0 ha⟩
        simp only [List.mem_cons, List.not_mem_nil, or_false] at he
        rcases he with rfl | rfl <;> trivial
      · refine ⟨rfl, rfl, fun e he => ?_, fun a ha => hnext a a.queueStopped a.txTimeoutCount ha⟩
        rw [List.mem_singleton.mp he]
        trivial
  obtain ⟨fs, hes, hprod, hcons, hplain, hcounts⟩ := hstore
  have harr : ∀ a : Adapter, (a.execAll fs).cmdBufArr = a.cmdBufArr :=
    execAll_cmdBufArr fun e he => (hplain e he).keepsBuf
  have hskbs := skbs_ledger_plain hplain
  have hmappings := mappings_ledger_plain hplain
  unfold TxWorld.perform
  rw [hes, producedBy_append, consumedBy_append, Adapter.execAll_append, Resource.ledger_append,
    Resource.ledger_append, h3.moves.1, h3.moves.2, hprod, hcons, hskbs, hmappings]
  simp only [Nat.zero_add, Nat.add_zero, List.append_nil]
  generalize reapLoop _ _ _ _ _ = r at h3 ⊢
  refine ⟨hcounts _ (h3.counts _ _ hw.counts), h2, hCP, ?_, ?_, ?_, ?_, ?_, ?_⟩
  · intro i (hi1 : w.posted ≤ i) (hi2 : i < w.reaped + d + n) hi3
    simp only [harr]
    by_cases hlap : i < w.reaped + n
    · rw [h3.frame i (by omega) hlap]
      exact hw.free i hi1 hlap hi3
    -- a lap ahead: the slot is that of a counter the handler has just passed
    · have := h3.empty (i - n) (by omega) (by omega)
      rwa [← Nat.mod_eq_sub_mod (by omega)] at this
  · intro hdrop
    obtain ⟨skb, hskb, hmem⟩ := hw.stale hdrop
    simp only [harr]
    rw [h3.frame _ (by omega) hat.lt]
    exact ⟨skb, hskb, List.mem_append_left _ hmem⟩
  · intro i (hi1 : w.reaped + d ≤ i) (hi2 : i < w.posted) hi3
    have hi4 := hat.lt
    simp only [harr] at hi3 ⊢
    rw [h3.frame i hi1 (by omega)] at hi3 ⊢
    exact hw.fragged i (by omega) hi2 hi3
  · have hsum := h3.settle skbs
    simp only [TxWorld.Holds, Resource.inUse, harr] at hsum ⊢
    exact Ledger.settle_append_of hw.packets hsum
  · have hsum := h3.settle mappings
    simp only [TxWorld.Holds, Resource.inUse, harr] at hsum ⊢
    exact Ledger.settle_append_of hw.dma hsum
  · intro skb
    simp only [Ledger.acquired_append, acquired_skbs_ledger, Nat.add_zero]
    exact hw.once skb

section Update
variable {β : Type} [DecidableEq β] (r : Resource β) {a a' : Adapter} {R P : Nat}
  {b : UnmCmdBuffer} (harr : a'.cmdBufArr = Function.update a.cmdBufArr (P % n) b)
  (hPn : P < R + n)
include harr hPn

/-- The producer's slot is not in use. -/
theorem Resource.inUse_update : r.inUse a' n R P = r.inUse a n R P := by
  refine Finset.sum_congr rfl fun i hi => ?_
  rw [Finset.mem_Ico] at hi
  rw [harr, Function.update_of_ne]
  exact fun h => mod_ne_of_lt hi.2 (by omega) h.symm

/-- A packet of `k` descriptors is posted: its first slot carries it. -/
theorem Resource.inUse_extend (hRP : R ≤ P) {k : Nat} (hk : 1 ≤ k) (hkn : P + k ≤ R + n)
    (hfree : ∀ i, P < i → i < P + k → (a.cmdBufArr (i % n)).skb = none) :
    r.inUse a' n R (P + k) = r.inUse a n R P + r.held b := by
  have hrest : ∑ i ∈ Finset.Ico (P + 1) (P + k), r.held (a'.cmdBufArr (i % n)) = 0 := by
    refine Finset.sum_eq_zero fun i hi => r.held_none _ ?_
    rw [Finset.mem_Ico] at hi
    rw [harr, Function.update_of_ne (mod_ne_of_lt (by omega) (by omega))]
    exact hfree i (by omega) hi.2
  rw [← r.inUse_update harr hPn, Resource.inUse, Resource.inUse,
    ← Finset.sum_Ico_consecutive _ hRP (by omega : P ≤ P + k),
    Finset.sum_eq_sum_Ico_succ_bot (by omega : P < P + k), hrest, add_zero, harr,
    Function.update_self]

end Update

/-- A call that stores to no slot and frees what it accepts. -/
theorem TxWorld.Inv.skip (hw : w.Inv n) {es : List Effect} {accepted : List (Entry Nat)}
    (hcounts : (w.adapter.execAll es).Counts n w.reaped w.completed w.posted)
    (harr : (w.adapter.execAll es).cmdBufArr = w.adapter.cmdBufArr)
    (hmoves : producedBy es = 0 ∧ consumedBy es = 0)
    (hskbs : ∀ m, Ledger.settle m (accepted ++ skbs.ledger es) = some m)
    (hdma : mappings.ledger es = [])
    (honce : ∀ skb, Ledger.acquired skb (w.packets ++ accepted) ≤ 1) :
    (w.perform es accepted).Inv n := by
  unfold TxWorld.perform
  rw [hmoves.1, hmoves.2, hdma]
  simp only [Nat.add_zero, List.append_nil]
  refine ⟨hcounts, hw.reaped_le, hw.completed_le, ?_, ?_, ?_, ?_, ?_, ?_⟩
  · intro i hi1 hi2 hi3
    simp only [harr]
    exact hw.free i hi1 hi2 hi3
  · intro hdrop
    obtain ⟨skb, hskb, hmem⟩ := hw.stale hdrop
    simp only [harr]
    exact ⟨skb, hskb, List.mem_append_left _ (List.mem_append_left _ hmem)⟩
  · simp only [Adapter.Fragged, harr]
    exact hw.fragged
  · have hsum : skbs.inUse (w.adapter.execAll es) n w.reaped w.posted =
        skbs.inUse w.adapter n w.reaped w.posted := by
      simp only [Resource.inUse, harr]
    simp only [TxWorld.Holds, hsum, List.append_assoc]
    exact Ledger.settle_append_of hw.packets (hskbs _)
  · have hsum : mappings.inUse (w.adapter.execAll es) n w.reaped w.posted =
        mappings.inUse w.adapter n w.reaped w.posted := by
      simp only [Resource.inUse, harr]
    simp only [TxWorld.Holds, hsum]
    exact hw.dma
  · intro skb
    simp only [Ledger.acquired_append, acquired_skbs_ledger, Nat.add_zero]
    have := honce skb
    simpa using this

/-- A packet accepted for the first time. -/
theorem acquired_fresh {l : List (Entry Nat)} (h : ∀ skb, Ledger.acquired skb l ≤ 1) {id : Nat}
    (hid : Entry.acquire id ∉ l) (skb : Nat) :
    Ledger.acquired skb (l ++ [.acquire id]) ≤ 1 := by
  rw [Ledger.acquired_append]
  have hle := h skb
  by_cases heq : skb = id
  · subst heq
    have : Ledger.acquired skb l = 0 := Nat.eq_zero_of_not_pos fun hp =>
      hid (Ledger.acquired_pos.mp hp)
    rw [this]
    simp [Ledger.acquired]
  · have : Ledger.acquired skb [.acquire id] = 0 := by
      simp [Ledger.acquired, Ne.symm heq]
    omega

/-- A packet put in the producer's slot and dropped again. -/
theorem TxWorld.Inv.drop (hw : w.Inv n) {dev : NetDev} {io : XmitIo} {s : Skb}
    (hfresh : Entry.acquire s.id ∉ w.packets) (hmap : ¬ Mapped io s)
    (hcounts : (w.adapter.execAll (xmitQueue dev io s w.adapter)).Counts n w.reaped w.completed
      (w.posted + producedBy (xmitQueue dev io s w.adapter)))
    (hcons : consumedBy (xmitQueue dev io s w.adapter) = 0) :
    TxWorld.Inv n { w.perform (xmitQueue dev io s w.adapter) [.acquire s.id] with
      dropped := true } := by
  have hat := hw.counts.toAt
  obtain ⟨⟨b, hb, hrw⟩, hskbs, hset, hprod⟩ := xmitQueue_of_unmapped dev w.adapter hmap
  have harr := hrw w.adapter rfl
  rw [hat.producer] at harr
  unfold TxWorld.perform
  generalize xmitQueue dev io s w.adapter = es at *
  rw [hprod] at hcounts ⊢
  rw [hcons, hskbs]
  simp only [Nat.add_zero] at hcounts ⊢
  refine ⟨hcounts, hw.reaped_le, hw.completed_le, ?_, ?_, ?_, ?_, ?_, ?_⟩
  · intro i (hi1 : w.posted ≤ i) (hi2 : i < w.reaped + n) hi3
    have hlt := Nat.lt_of_le_of_ne hi1 (hi3 rfl).symm
    simp only [harr]
    -- the producer's own slot is exempt, since the packet was dropped
    rw [Function.update_of_ne (mod_ne_of_lt hlt (by have := hat.le; omega))]
    exact hw.free i hi1 hi2 fun _ => Nat.ne_of_gt hlt
  · intro _
    simp only [harr, Function.update_self]
    exact ⟨s.id, hb, by simp⟩
  · intro i hi1 hi2 hi3
    have hlt := hat.lt
    simp only [harr] at hi1 hi2 hi3 ⊢
    rw [Function.update_of_ne fun h => mod_ne_of_lt hi2 (by omega) h.symm] at hi3 ⊢
    exact hw.fragged i hi1 hi2 hi3
  · simp only [TxWorld.Holds, skbs.inUse_update harr hat.lt, List.append_assoc]
    refine Ledger.settle_append_of hw.packets ?_
    simp [Ledger.settle]
  · simp only [TxWorld.Holds, mappings.inUse_update harr hat.lt]
    exact Ledger.settle_append_of hw.dma (hset _)
  · intro skb
    have hrel : Ledger.acquired skb [Entry.release s.id] = 0 := by simp [Ledger.acquired]
    rw [Ledger.acquired_append, hrel]
    exact acquired_fresh hw.once hfresh skb

/-- A packet put on the ring. -/
theorem TxWorld.Inv.queue (hw : w.Inv n) {dev : NetDev} {io : XmitIo} {s : Skb}
    (hfresh : Entry.acquire s.id ∉ w.packets) (hmap : Mapped io s) (hcount : s.fragCount < 256)
    (hcounts : (w.adapter.execAll (xmitQueue dev io s w.adapter)).Counts n w.reaped w.completed
      (w.posted + producedBy (xmitQueue dev io s w.adapter)))
    (hcons : consumedBy (xmitQueue dev io s w.adapter) = 0) :
    TxWorld.Inv n { w.perform (xmitQueue dev io s w.adapter) [.acquire s.id] with
      dropped := false } := by
  have hat := hw.counts.toAt
  obtain ⟨b, hb, hfrag, hrw, hskbs, hset, hprod⟩ := xmitQueue_of_mapped dev w.adapter hmap hcount
  have harr := hrw w.adapter rfl
  rw [hat.producer] at harr
  have hroom := hcounts.lt
  have hempty : ∀ i, w.posted < i → i < w.reaped + n → (w.adapter.cmdBufArr (i % n)).skb = none :=
    fun i h1 h2 => hw.free i (Nat.le_of_lt h1) h2 fun _ => Nat.ne_of_gt h1
  unfold TxWorld.perform
  generalize xmitQueue dev io s w.adapter = es at *
  have hsum := fun {β : Type} [DecidableEq β] (r : Resource β) =>
    r.inUse_extend harr hat.lt hat.le hprod (Nat.le_of_lt hroom)
      fun i h1 h2 => hempty i h1 (by omega)
  rw [hcons, hskbs]
  simp only [Nat.add_zero, List.append_nil]
  refine ⟨hcounts, hw.reaped_le, Nat.le_add_right_of_le hw.completed_le, ?_, nofun, ?_, ?_, ?_, ?_⟩
  · intro i (hi1 : w.posted + producedBy es ≤ i) (hi2 : i < w.reaped + n) _
    have hle := hat.le
    simp only [harr]
    rw [Function.update_of_ne (mod_ne_of_lt (by omega) (by omega))]
    exact hempty i (by omega) hi2
  · intro i (hi1 : w.reaped ≤ i) (hi2 : i < w.posted + producedBy es) hi3
    have hlt := hat.lt
    have hle := hat.le
    simp only [harr] at hi3 ⊢
    -- an earlier packet, the new one, or one of its slots that carry no packet
    rcases Nat.lt_trichotomy i w.posted with h | rfl | h
    · rw [Function.update_of_ne fun h' => mod_ne_of_lt h (by omega) h'.symm] at hi3 ⊢
      exact hw.fragged i hi1 h hi3
    · rwa [Function.update_self]
    · rw [Function.update_of_ne (mod_ne_of_lt h (by omega)), hempty i h (by omega)] at hi3
      cases hi3
  · simp only [TxWorld.Holds, hsum]
    refine Ledger.settle_append_of hw.packets ?_
    simp [Ledger.settle, skbs, hb, ← Multiset.singleton_add, add_comm]
  · simp only [TxWorld.Holds, hsum]
    exact Ledger.settle_append_of hw.dma (hset _)
  · exact acquired_fresh hw.once hfresh

theorem TxWorld.Inv.step (hn : n ≤ 256 ^ 4) {x : TxAction} (hw : w.Inv n) (hx : x.Fits w)
    (h : txMachine.next w x = some w') : w'.Inv n := by
  cases x with
  | complete => exact Option.some.inj h ▸ hw.complete
  | device =>
    simp only [txMachine] at h
    split at h
    · cases h
    · rename_i hne
      obtain rfl := Option.some.inj h
      have hlt : w.completed < w.posted := by
        refine Nat.lt_of_le_of_ne hw.completed_le fun heq => hne ?_
        rw [hw.counts.device, hw.counts.producer, heq]
      exact ⟨hw.counts.device_next, Nat.le_succ_of_le hw.reaped_le, hlt, hw.free, hw.stale,
        hw.fragged, hw.packets, hw.dma, hw.once⟩
  | xmit dev io skb =>
    simp only [txMachine] at h
    split at h
    · cases h
    · rename_i hfresh
      have hsafe := unmNicXmitFrame_safe hw.counts.toAt dev io skb hx
      have hcounts := hw.counts.execAll hn hsafe
      have hcons := hsafe.consumedBy
      rcases unmNicXmitFrame_cases dev io skb w.adapter with ⟨hq, hr⟩ | ⟨hq, hr⟩ | ⟨s, hq, hr⟩
      · rw [hq, hr] at h
        obtain rfl := Option.some.inj h
        exact hw.skip (hw.counts.of_eq rfl rfl rfl rfl rfl) rfl ⟨rfl, rfl⟩
          (fun m => by simp [Ledger.settle, Resource.ledger, skbs, skbEntry]) rfl
          (acquired_fresh hw.once hfresh)
      · rw [hq, hr] at h
        obtain rfl := Option.some.inj h
        exact hw.skip (hw.counts.of_eq rfl rfl rfl rfl rfl) rfl ⟨rfl, rfl⟩ (fun m => rfl) rfl
          (by simpa using hw.once)
      · have hid : s.id = skb.id := linearize_id (queuedAs_linearize hq)
        rw [← hid] at hfresh h
        rw [hr] at hcounts hcons
        rw [hq, hr] at h
        obtain rfl := Option.some.inj h
        simp only [if_true]
        by_cases hmap : Mapped io s
        · rw [decide_eq_true hmap]
          exact hw.queue hfresh hmap
            (Nat.lt_of_le_of_lt (fragCount_le_of_linearize (queuedAs_linearize hq)) (by decide))
            hcounts hcons
        · rw [decide_eq_false hmap]
          exact hw.drop hfresh hmap hcounts hcons

/-! ## Teardown -/

/-- What a teardown releases, slot by slot. -/
theorem ledger_flatMap {β : Type} [DecidableEq β] (r : Resource β) {f : Nat → List Effect}
    {g : Nat → List β} (h : ∀ i, r.ledger (f i) = (g i).map .release) (k : Nat) :
    r.ledger ((List.range k).flatMap f) = ((List.range k).flatMap g).map .release ∧
      (((List.range k).flatMap g : List β) : Multiset β) =
        ∑ s ∈ Finset.range k, (g s : Multiset β) := by
  induction k with
  | zero => exact ⟨rfl, rfl⟩
  | succ k ih =>
    rw [List.range_succ, List.flatMap_append, List.flatMap_append, Finset.sum_range_succ, ← ih.2,
      Resource.ledger_append, ih.1, List.map_append]
    simp [h]

theorem skbs_ledger_teardown (a : Adapter) :
    skbs.ledger (nxFreeTxResources a) =
        ((List.range a.maxTxDescCount).flatMap fun s => (a.cmdBufArr s).skb.toList).map .release ∧
      (((List.range a.maxTxDescCount).flatMap fun s => (a.cmdBufArr s).skb.toList :
        List Nat) : Multiset Nat) =
        ∑ s ∈ Finset.range a.maxTxDescCount, skbs.held (a.cmdBufArr s) := by
  refine ledger_flatMap skbs (fun s => ?_) _
  show List.filterMap skbEntry _ = _
  rw [teardownSlot, List.filterMap_append, List.filterMap_append, filterMap_skbEntry_unmap]
  cases (a.cmdBufArr s).skb <;> rfl

theorem mappings_ledger_teardown (a : Adapter) :
    mappings.ledger (nxFreeTxResources a) =
        ((List.range a.maxTxDescCount).flatMap fun s => teardownFrags (a.cmdBufArr s)).map
          .release ∧
      (((List.range a.maxTxDescCount).flatMap fun s => teardownFrags (a.cmdBufArr s) :
        List UnmSkbFrag) : Multiset UnmSkbFrag) =
        ∑ s ∈ Finset.range a.maxTxDescCount,
          (teardownFrags (a.cmdBufArr s) : Multiset UnmSkbFrag) := by
  refine ledger_flatMap mappings (fun s => ?_) _
  show List.filterMap dmaEntry _ = _
  rw [teardownSlot, List.filterMap_append, List.filterMap_append, filterMap_unmap]
  cases (a.cmdBufArr s).skb <;> simp [dmaEntry]

/-- The slots that are not in use hold at most a dropped packet. -/
theorem TxWorld.Inv.sum_slots (hw : w.Inv n) :
    ∑ s ∈ Finset.range n, skbs.held (w.adapter.cmdBufArr s) =
      skbs.inUse w.adapter n w.reaped w.posted +
        skbs.held (w.adapter.cmdBufArr (w.posted % n)) := by
  have hle := hw.counts.le
  have hlt := hw.counts.lt
  have hrest : ∑ i ∈ Finset.Ico (w.posted + 1) (w.reaped + n),
      skbs.held (w.adapter.cmdBufArr (i % n)) = 0 := by
    refine Finset.sum_eq_zero fun i hi => skbs.held_none _ ?_
    rw [Finset.mem_Ico] at hi
    exact hw.free i (by omega) hi.2 fun _ => by omega
  rw [← Ring.sum_lap _ w.reaped, ← Finset.sum_Ico_consecutive _ hle (Nat.le_of_lt hlt),
    Finset.sum_eq_sum_Ico_succ_bot hlt, hrest, add_zero]
  rfl

theorem released_map_release (skb : Nat) (xs : List Nat) :
    Ledger.released skb (xs.map .release) = (xs : Multiset Nat).count skb := by
  rw [Ledger.released, Multiset.coe_count]
  induction xs with
  | nil => rfl
  | cons x xs ih => simp [List.count_cons, ih]

/-- A packet is freed once for each time it was accepted, and once more if it is
the dropped one whose name is left in the producer's slot. -/
theorem TxWorld.Inv.released_teardown (hw : w.Inv n) (skb : Nat) :
    Ledger.released skb w.teardown.packets =
      Ledger.acquired skb w.packets +
        (skbs.held (w.adapter.cmdBufArr (w.posted % n))).count skb := by
  obtain ⟨h1, h2⟩ := skbs_ledger_teardown w.adapter
  rw [hw.counts.size] at h1 h2
  have hcount := Ledger.count_settle hw.packets skb
  rw [Multiset.count_zero, Nat.zero_add] at hcount
  show Ledger.released skb (w.packets ++ [] ++ skbs.ledger (nxFreeTxResources w.adapter)) = _
  rw [List.append_nil, Ledger.released_append, h1, released_map_release, h2, hw.sum_slots,
    Multiset.count_add, hcount]
  omega

/-- The runs whose header copies fit keep the invariant. -/
theorem TxWorld.run_inv (hpos : 0 < n) (hmax : n ≤ 1024) {l : List TxAction}
    (h : (txMachine.guard fun w x => x.Fits w).run (TxWorld.initial n) l = some w) : w.Inv n :=
  Machine.run_guard_invariant
    (fun _ _ _ hI hx hn => hI.step (Nat.le_trans hmax (by decide)) hx hn)
    (TxWorld.initial_inv hpos) h

/-- **Every packet is released exactly once**, in a run that is torn down at any
moment, if and only if the last packet put in a slot was not dropped for want of
a mapping.  A packet never accepted, such as one refused with `NETDEV_TX_BUSY`,
is neither freed nor named by a slot. -/
theorem packets_released_once (hpos : 0 < n) (hmax : n ≤ 1024) {l : List TxAction}
    (h : (txMachine.guard fun w x => x.Fits w).run (TxWorld.initial n) l = some w) :
    ((∀ skb, .acquire skb ∈ w.packets → Ledger.released skb w.teardown.packets = 1) ∧
      ∀ skb, .acquire skb ∉ w.packets → Ledger.released skb w.teardown.packets = 0 ∧
        ∀ s < n, (w.adapter.cmdBufArr s).skb ≠ some skb) ↔
      w.dropped = false := by
  have hw := TxWorld.run_inv hpos hmax h
  have hrel := hw.released_teardown
  have hone : ∀ skb, .acquire skb ∈ w.packets → Ledger.acquired skb w.packets = 1 := fun skb hs =>
    Nat.le_antisymm (hw.once skb) (Ledger.acquired_pos.mpr hs)
  constructor
  · intro hall
    by_contra hdrop
    -- a dropped packet was freed by its call, and the teardown finds its name again
    obtain ⟨skb, hskb, hmem⟩ := hw.stale (by simpa using hdrop)
    have htwice := hrel skb
    rw [hall.1 skb hmem, hone skb hmem] at htwice
    simp [skbs, hskb] at htwice
  · intro hdrop
    have hempty : (w.adapter.cmdBufArr (w.posted % n)).skb = none :=
      hw.free w.posted (Nat.le_refl _) hw.counts.lt fun ht => by rw [hdrop] at ht; cases ht
    have hheld : skbs.held (w.adapter.cmdBufArr (w.posted % n)) = 0 := skbs.held_none _ hempty
    refine ⟨fun skb hs => ?_, fun skb hs => ?_⟩
    · rw [hrel, hone skb hs, hheld]
      rfl
    · have hzero : Ledger.acquired skb w.packets = 0 :=
        Nat.eq_zero_of_not_pos fun hp => hs (Ledger.acquired_pos.mp hp)
      refine ⟨by rw [hrel, hzero, hheld]; rfl, fun s hslot hname => ?_⟩
      have hcount := Ledger.count_settle hw.packets skb
      rw [Multiset.count_zero, hzero] at hcount
      have hmem : skb ∈ ∑ s ∈ Finset.range n, skbs.held (w.adapter.cmdBufArr s) :=
        Multiset.mem_sum.mpr ⟨s, Finset.mem_range.mpr hslot, by simp [skbs, hname]⟩
      rw [hw.sum_slots, hheld, add_zero] at hmem
      have := Multiset.count_pos.mpr hmem
      omega

/-- All parts of a packet are mapped, from the address `dma` on. -/
def mappedIo (dma : Nat) : XmitIo := ⟨true, some dma, fun i => some (dma + 0x1000 * (i + 1))⟩

/-- No part of a packet can be mapped. -/
def unmappedIo : XmitIo := ⟨true, none, fun _ => none⟩

/-- A packet of one piece. -/
def onePiece (id : Nat) (io : XmitIo) : TxAction := .xmit {} io { id := id, len := 60 }

/-- On a ring of eight slots: a packet of one piece, one of six and an LSO packet fill it, and the
next one is refused.  After the first two are reaped that one is dropped, for want of a mapping, and
another takes its slot.  All are reaped but one, an LSO packet goes round the end of the ring, and a
packet is refused again. -/
def releasedRun : List TxAction :=
  [onePiece 1 (mappedIo 0x1000), .xmit {} (mappedIo 0x10000) { splitSkb with id := 2 },
    .xmit {} (mappedIo 0x20000) { lsoSkb with id := 3 }, onePiece 4 (mappedIo 0x2000),
    .device, .device, .complete, onePiece 4 unmappedIo, onePiece 5 (mappedIo 0x3000),
    .device, .device, .device, .complete, .xmit {} (mappedIo 0x30000) { lsoSkb with id := 6 },
    .xmit {} (mappedIo 0x20000) { splitSkb with id := 7 },
    .xmit {} (mappedIo 0x20000) { splitSkb with id := 8 }, .device]

theorem packets_released_once_reused :
    ∃ w, (txMachine.guard fun w x => x.Fits w).run (TxWorld.initial 8) releasedRun = some w ∧
      (w.posted, w.reaped, w.completed) = (10, 5, 6) ∧
      ((∀ skb, .acquire skb ∈ w.packets → Ledger.released skb w.teardown.packets = 1) ∧
        ∀ skb, .acquire skb ∉ w.packets → Ledger.released skb w.teardown.packets = 0 ∧
          ∀ s < 8, (w.adapter.cmdBufArr s).skb ≠ some skb) := by
  have hrun : ((txMachine.guard fun w x => x.Fits w).run (TxWorld.initial 8) releasedRun).map
      (fun w => ((w.posted, w.reaped, w.completed), w.dropped)) = some ((10, 5, 6), false) := by
    decide +kernel
  obtain ⟨w, hw, hends⟩ := Option.map_eq_some_iff.mp hrun
  obtain ⟨hcounts, hdropped⟩ := Prod.mk.inj hends
  exact ⟨w, hw, hcounts, (packets_released_once (by decide) (by decide) hw).mpr hdropped⟩

/-- A packet whose linear part cannot be mapped, and a teardown: the packet is
freed by both. -/
theorem packet_released_twice :
    ∃ w ∈ txMachine.run (TxWorld.initial 256)
        [.xmit {} ⟨true, none, fun _ => none⟩ { id := 1, len := 60 }],
      .acquire 1 ∈ w.packets ∧ Ledger.released 1 w.teardown.packets = 2 := by
  decide +kernel

/-! ## The mappings a teardown undoes -/

/-- Slot `s` carries a packet the completion handler has not seen yet. -/
def Adapter.Outstanding (a : Adapter) (s : Nat) : Prop :=
  (a.cmdBufArr s).skb.isSome = true ∧ Ring.Between a.lastCmdConsumer a.cmdProducer s

instance (a : Adapter) (s : Nat) : Decidable (a.Outstanding s) := by
  unfold Adapter.Outstanding; infer_instance

/-- Of the entries `0`, …, `fragCount` of every slot, those with an address are
the first `fragCount` ones of the outstanding packets. -/
def CleanTeardown (a : Adapter) : Prop :=
  ∀ s < a.maxTxDescCount, ∀ j ≤ (a.cmdBufArr s).fragCount.toNat,
    ((a.cmdBufArr s).fragArray j).dma ≠ 0 ↔
      a.Outstanding s ∧ j < (a.cmdBufArr s).fragCount.toNat

instance (a : Adapter) : Decidable (CleanTeardown a) := by
  unfold CleanTeardown; infer_instance

/-- The entries of a slot's outstanding packet, and the other entries that a
teardown looks at. -/
def Adapter.outstandingFrags (a : Adapter) (s : Nat) : Multiset UnmSkbFrag :=
  if a.Outstanding s then (a.cmdBufArr s).entries (a.cmdBufArr s).fragCount.toNat else 0

def Adapter.otherFrags (a : Adapter) (s : Nat) : Multiset UnmSkbFrag :=
  if a.Outstanding s then {(a.cmdBufArr s).fragArray (a.cmdBufArr s).fragCount.toNat}
  else (a.cmdBufArr s).entries ((a.cmdBufArr s).fragCount.toNat + 1)

theorem teardownFrags_eq (a : Adapter) (s : Nat) :
    (teardownFrags (a.cmdBufArr s) : Multiset UnmSkbFrag) =
      (a.outstandingFrags s + a.otherFrags s).filter fun f => f.dma ≠ 0 := by
  have hsplit : a.outstandingFrags s + a.otherFrags s =
      (a.cmdBufArr s).entries ((a.cmdBufArr s).fragCount.toNat + 1) := by
    unfold Adapter.outstandingFrags Adapter.otherFrags
    split
    · rw [UnmCmdBuffer.entries_succ]
    · rw [zero_add]
  rw [hsplit]
  rfl

theorem UnmCmdBuffer.mem_entries {b : UnmCmdBuffer} {k : Nat} {f : UnmSkbFrag} :
    f ∈ b.entries k ↔ ∃ j < k, b.fragArray j = f := by
  simp [UnmCmdBuffer.entries]

theorem cleanTeardown_iff (a : Adapter) :
    CleanTeardown a ↔ ∀ s ∈ Finset.range a.maxTxDescCount,
      (∀ f ∈ a.outstandingFrags s, f.dma ≠ 0) ∧ ∀ f ∈ a.otherFrags s, ¬ f.dma ≠ 0 := by
  simp only [CleanTeardown, Finset.mem_range, Adapter.outstandingFrags, Adapter.otherFrags]
  refine forall₂_congr fun s _ => ?_
  by_cases hout : a.Outstanding s
  · simp only [hout, true_and, if_true, UnmCmdBuffer.mem_entries, Multiset.mem_singleton,
      forall_eq, forall_exists_index, and_imp, forall_apply_eq_imp_iff₂]
    constructor
    · intro h
      exact ⟨fun j hj => (h j (Nat.le_of_lt hj)).mpr hj,
        fun hne => Nat.lt_irrefl _ ((h _ (Nat.le_refl _)).mp hne)⟩
    · rintro ⟨h1, h2⟩ j hj
      refine ⟨fun hne => Nat.lt_of_le_of_ne hj fun heq => h2 (heq ▸ hne), h1 j⟩
  · simp only [hout, false_and, if_false, iff_false, Multiset.notMem_zero, false_implies,
      implies_true, true_and, UnmCmdBuffer.mem_entries, forall_exists_index, and_imp,
      forall_apply_eq_imp_iff₂, Nat.lt_succ_iff]

/-- The mappings held are those of the outstanding packets. -/
theorem TxWorld.Inv.sum_outstanding (hw : w.Inv n) :
    ∑ s ∈ Finset.range n, w.adapter.outstandingFrags s =
      mappings.inUse w.adapter n w.reaped w.posted := by
  have hat := hw.counts.toAt
  have hle := hat.le
  have hlt := hat.lt
  have hin : ∀ i, w.reaped ≤ i → i < w.posted →
      Ring.Between w.adapter.lastCmdConsumer w.adapter.cmdProducer (i % n) := by
    intro i h1 h2
    rw [hat.consumer, hat.producer, Ring.between_mod_iff hle hlt (Nat.mod_lt _ hat.pos)]
    exact ⟨i, h1, h2, rfl⟩
  have hout : ∀ i, w.posted ≤ i → i < w.reaped + n →
      ¬ Ring.Between w.adapter.lastCmdConsumer w.adapter.cmdProducer (i % n) := by
    intro i h1 h2
    rw [hat.consumer, hat.producer]
    exact Ring.not_between_of_room hle h1 h2
  have hrest : ∑ i ∈ Finset.Ico w.posted (w.reaped + n),
      w.adapter.outstandingFrags (i % n) = 0 := by
    refine Finset.sum_eq_zero fun i hi => ?_
    rw [Finset.mem_Ico] at hi
    exact if_neg fun h => hout i hi.1 hi.2 h.2
  rw [← Ring.sum_lap _ w.reaped, ← Finset.sum_Ico_consecutive _ hle (Nat.le_of_lt hlt), hrest,
    add_zero]
  refine Finset.sum_congr rfl fun i hi => ?_
  rw [Finset.mem_Ico] at hi
  simp only [Adapter.outstandingFrags, Adapter.Outstanding, hin i hi.1 hi.2, and_true, mappings]

/-- **Every DMA mapping is undone exactly once**, and nothing that is not mapped
is ever unmapped, in a run that is torn down at any moment, if and only if the
teardown finds addresses in the entries of the outstanding packets only. -/
theorem mappings_undone_once (hpos : 0 < n) (hmax : n ≤ 1024) {l : List TxAction}
    (h : (txMachine.guard fun w x => x.Fits w).run (TxWorld.initial n) l = some w) :
    Ledger.settle 0 w.teardown.dma = some 0 ↔ CleanTeardown w.adapter := by
  have hw := TxWorld.run_inv hpos hmax h
  obtain ⟨h1, h2⟩ := mappings_ledger_teardown w.adapter
  show Ledger.settle 0 (w.dma ++ mappings.ledger (nxFreeTxResources w.adapter)) = some 0 ↔ _
  rw [Ledger.settle_append, hw.dma, Option.bind_some, h1, Ledger.settle_releases_eq_zero, h2,
    cleanTeardown_iff, hw.counts.size, ← hw.sum_outstanding, ← Ledger.sum_filter_eq_iff]
  simp only [teardownFrags_eq]

/-- On a ring of eight slots: a packet is dropped, for want of a mapping, and one of six pieces
takes its slot; the device completes it, an LSO packet and another follow, and one is refused. -/
def outstandingRun : List TxAction :=
  [onePiece 1 unmappedIo, .xmit {} (mappedIo 0x10000) { splitSkb with id := 2 }, .device,
    .xmit {} (mappedIo 0x20000) { lsoSkb with id := 3 }, onePiece 4 (mappedIo 0x3000), .device,
    onePiece 5 (mappedIo 0x4000)]

theorem mappings_undone_once_outstanding :
    ∃ w, (txMachine.guard fun w x => x.Fits w).run (TxWorld.initial 8) outstandingRun = some w ∧
      (w.posted, w.reaped, w.completed, w.dma.length) = (5, 0, 2, 8) ∧
      Ledger.settle 0 w.teardown.dma = some 0 := by
  have hrun : ((txMachine.guard fun w x => x.Fits w).run (TxWorld.initial 8) outstandingRun).map
      (fun w => ((w.posted, w.reaped, w.completed, w.dma.length),
        decide (CleanTeardown w.adapter))) = some ((5, 0, 2, 8), true) := by
    decide +kernel
  obtain ⟨w, hw, hends⟩ := Option.map_eq_some_iff.mp hrun
  obtain ⟨hcounts, hclean⟩ := Prod.mk.inj hends
  exact ⟨w, hw, hcounts,
    (mappings_undone_once (by decide) (by decide) hw).mpr (of_decide_eq_true hclean)⟩

/-- A packet mapped, completed by the device and reaped, and a teardown: its
address is unmapped by both. -/
theorem mapping_undone_twice :
    ∃ w ∈ txMachine.run (TxWorld.initial 256)
        [.xmit {} ⟨true, some 0x1000, fun _ => none⟩ { id := 1, len := 60 }, .device, .complete],
      w.teardown.dma =
        [.acquire ⟨0x1000, 60⟩, .release ⟨0x1000, 60⟩, .release ⟨0x1000, 60⟩] ∧
      Ledger.settle 0 w.teardown.dma = none := by
  decide +kernel

end Tx
end NxNic

import Mathlib.Algebra.BigOperators.Pi
import NxNic.Rx.Bounds
import NxNic.Rx.Rings

/-! # The low-water mark

A packet is handed up the stack unless `ring_size - alloc_failures` is below
`NX_NIC_RX_POST_THRES`.  `alloc_failures` counts the buffers that lost their skb
in `process_rxbuffer`, not those that have never had one: it bounds the number of
buffers without an skb only once as many skbs as the ring has buffers were put
into buffers that it does not count.

The states are those of the machine of `Rx/Posting`, which keeps the number of these
skbs beside the rings (`fills`).  `LowWaterSound` is what the test relies on, that the
counter is no less than the deficit, and what it is there for, that a packet which
passes it leaves enough buffers that carry an skb.

The invariant (`DeficitInv`) is a balance that each step of each party keeps: the
buffers without an skb and the fills are the failures and the size of the ring.  With
it `low_water_sound_iff` is arithmetic.
-/
namespace NxNic
namespace Rx
variable {cfg : RxCfg} {st : RxState}

/-! ## Buffers without an skb -/

/-- The number of the first `size` buffers that have no skb. -/
def lacking (size : Nat) (arr : Nat → RxBuffer) : Nat :=
  ((Finset.range size).filter fun i => (arr i).skb = none).card

/-- One buffer is rewritten. -/
theorem lacking_setBuf {size : Nat} (r : RdsRing) {index : Nat} (hindex : index < size)
    (b : RxBuffer) :
    lacking size (r.setBuf index b).rxBufArr + (if (r.rxBufArr index).skb = none then 1 else 0) =
      lacking size r.rxBufArr + if b.skb = none then 1 else 0 := by
  have hmem : index ∈ Finset.range size := Finset.mem_range.mpr hindex
  unfold lacking
  rw [Finset.card_filter, Finset.card_filter, ← Finset.add_sum_erase _ _ hmem,
    ← Finset.add_sum_erase _ _ hmem, RdsRing.setBuf_self]
  have hrest : ∀ i ∈ (Finset.range size).erase index,
      (if ((r.setBuf index b).rxBufArr i).skb = none then 1 else 0) =
        if (r.rxBufArr i).skb = none then 1 else 0 := fun i hi => by
    rw [RdsRing.setBuf_of_ne _ _ (Finset.ne_of_mem_erase hi)]
  rw [Finset.sum_congr rfl hrest]
  omega

/-- The buffers that do have an skb. -/
theorem card_filter_skb (size : Nat) (arr : Nat → RxBuffer) :
    lacking size arr + ((Finset.range size).filter fun i => (arr i).skb ≠ none).card = size := by
  have := Finset.card_filter_add_card_filter_not (s := Finset.range size)
    (fun i => (arr i).skb = none)
  rwa [Finset.card_range] at this

/-! ## The count and the deficit -/

/-- `alloc_failures` is short of the deficit by the buffers that have not got
their first skb yet. -/
structure DeficitInv (size : Nat) (v : RingView) : Prop where
  balance : lacking size v.rds.rxBufArr + v.fills = v.rds.allocFailures + size
  le : v.rds.allocFailures ≤ lacking size v.rds.rxBufArr

/-- Past the loop `nx_post_rx_descriptors` leaves the buffers alone. -/
theorem nxPostStep_other (size dmaSize : Nat) (o : Option (Nat × Nat)) (r : RdsRing) {p : Poster}
    (h : p.pc ≠ .posting) :
    (nxPostStep size dmaSize o r p).rds.rxBufArr = r.rxBufArr ∧
      (nxPostStep size dmaSize o r p).rds.allocFailures = r.allocFailures ∧
      (nxPostStep size dmaSize o r p).unaccounted = false := by
  unfold nxPostStep
  cases hpc : p.pc with
  | posting => exact absurd hpc h
  | returning => by_cases hempty : p.freeList.head = [] <;> simp [hempty]
  | storing => exact ⟨rfl, rfl, rfl⟩
  | ringing => by_cases hzero : p.count = 0 <;> simp [hzero]
  | finishing => exact ⟨rfl, rfl, rfl⟩

theorem DeficitInv.of_eq {size : Nat} {v w : RingView} (h : DeficitInv size v)
    (hbuf : w.rds.rxBufArr = v.rds.rxBufArr) (hfailures : w.rds.allocFailures = v.rds.allocFailures)
    (hfills : w.fills = v.fills) : DeficitInv size w := by
  obtain ⟨hbalance, hle⟩ := h
  exact ⟨by rw [hbuf, hfailures, hfills]; exact hbalance, by rw [hbuf, hfailures]; exact hle⟩

/-- **One step** keeps the balance. -/
theorem DeficitInv.step {size dmaSize : Nat} {v w : RingView} (hinv : RingInv size dmaSize v)
    (h : DeficitInv size v) (hstep : RingStep size dmaSize v w) : DeficitInv size w := by
  obtain ⟨hbalance, hle⟩ := h
  cases hstep with
  | consume s index o hheld hskb =>
    have hindex : index < size :=
      Finset.mem_range.mp (hinv.places.mem (RingInv.mem_posted hheld))
    obtain ⟨b, hb, -, heq⟩ | ⟨b, hb, -, heq⟩ := v.rds.consume_cases index o
    · -- the skb is not replaced, and the failure is counted
      have hlack := lacking_setBuf v.rds hindex b
      rw [if_neg hskb, if_pos hb] at hlack
      rw [heq]
      refine ⟨?_, ?_⟩
      · show lacking size (v.rds.setBuf index b).rxBufArr + v.fills =
          v.rds.allocFailures + 1 + size
        omega
      · show v.rds.allocFailures + 1 ≤ lacking size (v.rds.setBuf index b).rxBufArr
        omega
    · have hlack := lacking_setBuf v.rds hindex b
      rw [if_neg hskb, if_neg hb] at hlack
      rw [heq]
      refine ⟨?_, ?_⟩
      · show lacking size (v.rds.setBuf index b).rxBufArr + v.fills = v.rds.allocFailures + size
        omega
      · show v.rds.allocFailures ≤ lacking size (v.rds.setBuf index b).rxBufArr
        omega
  | repost s index hheld => exact .of_eq ⟨hbalance, hle⟩ rfl rfl rfl
  | drop index hheld => exact .of_eq ⟨hbalance, hle⟩ rfl rfl rfl
  | splice s => exact .of_eq ⟨hbalance, hle⟩ rfl rfl rfl
  | start t ring hidle hfree => exact .of_eq ⟨hbalance, hle⟩ rfl rfl rfl
  | post t p o hp =>
    by_cases hpc : p.pc = .posting
    · have hround : nxPostStep size dmaSize o v.rds p = nxPostRound size dmaSize o v.rds p := by
        rw [nxPostStep, hpc]
      rw [hround]
      obtain ⟨allocated, heq⟩ | ⟨index, rest, -, -, heq⟩ |
        ⟨index, rest, b, hhead, hskb, hb, -, heq⟩ := nxPostRound_cases size dmaSize o v.rds p
      · rw [heq]
        exact .of_eq ⟨hbalance, hle⟩ rfl rfl rfl
      · rw [heq]
        exact .of_eq ⟨hbalance, hle⟩ rfl rfl rfl
      · -- a buffer gets an skb, and one failure is taken off if there is one
        have hmem : index ∈ v.listAt (.inFlight t) := by
          simp only [RingView.listAt, hp, Option.elim_some, hhead, List.mem_cons_self]
        have hlack := lacking_setBuf v.rds (Finset.mem_range.mp (hinv.places.mem hmem)) b
        rw [if_pos hskb, if_neg hb] at hlack
        rw [heq]
        refine ⟨?_, ?_⟩
        · show lacking size (v.rds.setBuf index b).rxBufArr +
              (v.fills + if decide (v.rds.allocFailures = 0) = true then 1 else 0) =
            v.rds.allocFailures - 1 + size
          by_cases hzero : v.rds.allocFailures = 0
          · rw [if_pos (decide_eq_true hzero)]
            omega
          · rw [if_neg (by simpa using hzero)]
            omega
        · show v.rds.allocFailures - 1 ≤ lacking size (v.rds.setBuf index b).rxBufArr
          omega
    · obtain ⟨hbuf, hfailures, hfills⟩ := nxPostStep_other size dmaSize o v.rds hpc
      refine .of_eq ⟨hbalance, hle⟩ hbuf hfailures ?_
      simp only [RingView.post, hfills, Bool.false_eq_true, if_false, Nat.add_zero]
  | fetch hunread => exact .of_eq ⟨hbalance, hle⟩ rfl rfl rfl

theorem DeficitInv.init (cfg : RxCfg) (ring : Nat) :
    DeficitInv (cfg.ringSize ring) ((initialRx cfg).view ring) := by
  have hall : lacking (cfg.ringSize ring) ((initialRx cfg).view ring).rds.rxBufArr =
      cfg.ringSize ring := by
    have hnone : ∀ i ∈ Finset.range (cfg.ringSize ring),
        (((initialRx cfg).view ring).rds.rxBufArr i).skb = none := fun _ _ => rfl
    unfold lacking
    rw [Finset.filter_true_of_mem hnone, Finset.card_range]
  refine ⟨?_, Nat.zero_le _⟩
  rw [hall]
  show cfg.ringSize ring + 0 = 0 + cfg.ringSize ring
  rw [Nat.add_comm]

/-! ## Soundness -/

/-- The number of buffers of the ring that have no skb. -/
def noSkb (cfg : RxCfg) (st : RxState) (ring : Nat) : Nat :=
  ((Finset.range (cfg.ringSize ring)).filter fun i => (st.ctx.buf ring i).skb = none).card

/-- The number of buffers of the ring that carry an skb. -/
def carrying (cfg : RxCfg) (st : RxState) (ring : Nat) : Nat :=
  ((Finset.range (cfg.ringSize ring)).filter fun i => (st.ctx.buf ring i).skb ≠ none).card

/-- What the test for low buffers relies on, and what it is there for. -/
structure LowWaterSound (cfg : RxCfg) (st : RxState) (ring : Nat) : Prop where
  deficit : noSkb cfg st ring ≤ (st.ctx.rdsRings ring).allocFailures
  enough : lowOnBuffers cfg st.ctx ring = false → nxNicRxPostThres ≤ carrying cfg st ring

/-- **The low-water mark is sound** in a reachable state just if as many buffers
as the ring has were filled by `nx_post_rx_descriptors` while `alloc_failures`
was zero.  A first fill that an allocation cuts short is never made up for: the buffers
without an skb stay uncounted in all that follows. -/
theorem low_water_sound_iff (h : ReachableRx cfg st) (ring : Nat)
    (hsize : cfg.ringSize ring < 2 ^ 32) :
    LowWaterSound cfg st ring ↔ st.fills ring = cfg.ringSize ring := by
  obtain ⟨hbalance, hle⟩ := h.ring_induction ring (P := DeficitInv (cfg.ringSize ring))
    (DeficitInv.init cfg ring) fun _ _ hinv hv hstep => hv.step hinv hstep
  have hlacking : lacking (cfg.ringSize ring) (st.view ring).rds.rxBufArr = noSkb cfg st ring := rfl
  have hfailures : (st.view ring).rds.allocFailures = (st.ctx.rdsRings ring).allocFailures := rfl
  have hfills : (st.view ring).fills = st.fills ring := rfl
  have hsplit := card_filter_skb (cfg.ringSize ring) (st.view ring).rds.rxBufArr
  have hcarrying : noSkb cfg st ring + carrying cfg st ring = cfg.ringSize ring := hsplit
  rw [hlacking] at hbalance hle
  rw [hfailures] at hbalance hle
  rw [hfills] at hbalance
  constructor
  · rintro ⟨hdeficit, -⟩
    omega
  · intro hall
    refine ⟨by omega, fun hlow => ?_⟩
    -- the difference does not wrap around
    have hfew : (st.ctx.rdsRings ring).allocFailures ≤ cfg.ringSize ring := by omega
    have hdiff : (cfg.ringSize ring + 2 ^ 32 - (st.ctx.rdsRings ring).allocFailures % 2 ^ 32) %
        2 ^ 32 = cfg.ringSize ring - (st.ctx.rdsRings ring).allocFailures := by omega
    unfold lowOnBuffers at hlow
    rw [hdiff] at hlow
    have := of_decide_eq_false hlow
    omega

/-- A context in which three skbs can be allocated, and then no more. -/
def cfgShort : RxCfg := { cfg64 with alloc := fun i => if i < 3 then some (i, 4096 * i) else none }

/-- The first fill, which stops at the fourth buffer; the card then reads a
descriptor. -/
def shortTrace : List RxAction :=
  .postBuffers 0 0 :: (List.replicate 8 (.post 0) ++ [.fetch 0])

/-- All buffers of the ring are filled at the start, one by one. -/
theorem low_water_sound_iff_fill :
    ∃ st, (rxMachine cfg64).run (initialRx cfg64)
        (.postBuffers 0 0 :: List.replicate 69 (.post 0)) = some st ∧
      LowWaterSound cfg64 st 0 := by
  have hrun : ((rxMachine cfg64).run (initialRx cfg64)
      (.postBuffers 0 0 :: List.replicate 69 (.post 0))).map (fun st => st.fills 0) = some 64 := by
    decide +kernel
  obtain ⟨st, hst, hfills⟩ := Option.map_eq_some_iff.mp hrun
  exact ⟨st, hst, (low_water_sound_iff ⟨_, hst⟩ 0 (by decide)).mpr hfills⟩

/-- A packet that the card may return passes the test while three buffers carry
an skb and `alloc_failures` is zero. -/
theorem low_water_unsound :
    ∃ st desc, ReachableRx cfgShort st ∧ CanReturn st (.rcv desc) ∧
      rcvDescCtx desc = 0 ∧ lowOnBuffers cfgShort st.ctx 0 = false ∧
      carrying cfgShort st 0 < nxNicRxPostThres ∧
      (st.ctx.rdsRings 0).allocFailures < noSkb cfgShort st 0 := by
  have hrun : ((rxMachine cfgShort).run (initialRx cfgShort) shortTrace).map (fun st =>
      decide (CanReturn st (.rcv (hostDesc 4 0)) ∧ rcvDescCtx (hostDesc 4 0) = 0 ∧
        lowOnBuffers cfgShort st.ctx 0 = false ∧ carrying cfgShort st 0 < nxNicRxPostThres ∧
        (st.ctx.rdsRings 0).allocFailures < noSkb cfgShort st 0)) = some true := by
    decide +kernel
  obtain ⟨st, hst, h⟩ := Option.map_eq_some_iff.mp hrun
  exact ⟨st, hostDesc 4 0, ⟨shortTrace, hst⟩, of_decide_eq_true h⟩

end Rx
end NxNic

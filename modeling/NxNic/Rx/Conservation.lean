import NxNic.Rx.Bounds
import NxNic.Rx.Rings

/-! # Conservation of the receive buffers

In every reachable state each buffer of a receive ring is in exactly one place:
posted to the card, on `free_rxbufs`, on the list of one status ring, on the
list of the one call that is posting, or lost.  The lost ones are those that the
card has returned in LRO messages for a ring the handler does not work on: there
are none just if there was no such message.  The descriptors that the card has
not read yet are as they were written.

The result is `buffers_conserved`, for every run of the machine: any number of
status rings and of threads, any outcomes of the allocations, and any messages
that the card may send.  It is read off the invariant of the ring steps
(`RingInv`), which every reachable state has in each ring (`ReachableRx.inv`).
-/
namespace NxNic
namespace Rx
variable {cfg : RxCfg} {st : RxState}

/-- The thread `t` is in a call of `nx_post_rx_descriptors` for the ring. -/
def Posts (st : RxState) (ring t : Nat) (p : Poster) : Prop :=
  st.posters t = some p ∧ p.ring = ring

theorem posts_iff {ring t : Nat} {p : Poster} :
    Posts st ring t p ↔ (st.view ring).posters t = some p := by
  simp [Posts, RxState.view, Option.filter_eq_some_iff]

/-- The buffers of a receive ring are all accounted for. -/
structure BuffersConserved (cfg : RxCfg) (st : RxState) (ring : Nat) : Prop where
  /-- Each buffer is in one place. -/
  place : ∀ i < cfg.ringSize ring, ∃! k, i ∈ (st.view ring).listAt k
  /-- Each is with the driver or with the card, unless a misdirected message has
  returned one. -/
  kept : (∀ i < cfg.ringSize ring, ∃ k, k ≠ .lost ∧ i ∈ (st.view ring).listAt k) ↔
    st.lost ring = []
  /-- There it is once, and no other buffers are anywhere. -/
  once : ∀ k, ((st.view ring).listAt k).Nodup ∧
    ∀ i ∈ (st.view ring).listAt k, i < cfg.ringSize ring
  freeCount : (st.ctx.rdsRings ring).freeRxbufs.count =
    (st.ctx.rdsRings ring).freeRxbufs.head.length
  sdsCount : ∀ s, (st.ctx.freeRbufs s ring).count = (st.ctx.freeRbufs s ring).head.length
  /-- In the loop the count is that of the buffers the call took over. -/
  inFlightCount : ∀ t p, Posts st ring t p → p.HasList →
    p.freeList.count = p.freeList.head.length + p.count
  /-- A ring has the flag set just when a call is posting its buffers. -/
  posting : (st.ctx.rdsRings ring).posting = true ↔ ∃ t p, Posts st ring t p
  one : ∀ t t' p p', Posts st ring t p → Posts st ring t' p' → t = t'
  /-- The descriptors that the card has not read are those of the buffers posted. -/
  unread : ∀ j (h : j < (st.card ring).unread.length),
    (st.ctx.rdsRings ring).hostAddr (((st.card ring).read + j) % cfg.ringSize ring) =
      ⟨(st.ctx.buf ring (st.card ring).unread[j]).dma, (st.card ring).unread[j],
        cfg.dmaSize ring⟩
  /-- The next slot to be written is none of theirs. -/
  slot : ∀ t p, Posts st ring t p → p.pc = .posting → p.freeList.head ≠ [] →
    ∀ j < (st.card ring).unread.length,
      p.producer ≠ ((st.card ring).read + j) % cfg.ringSize ring

/-- Every buffer is in another place than the list of the lost ones just if that
list is empty. -/
theorem Inv.kept_iff (hinv : Inv cfg st) (ring : Nat) :
    (∀ i < cfg.ringSize ring, ∃ k, k ≠ .lost ∧ i ∈ (st.view ring).listAt k) ↔
      st.lost ring = [] := by
  have hplaces := (hinv ring).places
  constructor
  · intro hkept
    refine List.eq_nil_iff_forall_not_mem.mpr fun i hi => ?_
    have hlost : i ∈ (st.view ring).listAt .lost := hi
    obtain ⟨k, hk, hmem⟩ := hkept i (Finset.mem_range.mp (hplaces.mem hlost))
    exact hk (hplaces.unique hmem hlost)
  · intro hnone i hi
    obtain ⟨k, hk, -⟩ := hplaces.existsUnique (Finset.mem_range.mpr hi)
    refine ⟨k, fun hlost => ?_, hk⟩
    subst hlost
    have hlost : i ∈ st.lost ring := hk
    rw [hnone] at hlost
    cases hlost

/-- **No receive buffer is posted twice**, none is lost unless a misdirected
message has returned it, and no descriptor that the card has not read is
overwritten. -/
theorem buffers_conserved (h : ReachableRx cfg st) (ring : Nat) :
    BuffersConserved cfg st ring := by
  have hinv := h.inv ring
  refine
    { place := fun i hi => hinv.places.existsUnique (Finset.mem_range.mpr hi)
      kept := h.inv.kept_iff ring
      once := fun k => ⟨hinv.places.nodup k, fun i hi => Finset.mem_range.mp (hinv.places.mem hi)⟩
      freeCount := hinv.freeCount
      sdsCount := hinv.sdsCount
      inFlightCount := fun t p hp => hinv.inFlightCount t p (posts_iff.mp hp)
      posting := ?_
      one := fun t t' p p' hp hp' => hinv.one t t' p p' (posts_iff.mp hp) (posts_iff.mp hp')
      unread := hinv.desc
      slot := ?_ }
  · simp only [posts_iff]
    exact hinv.posting
  · intro t p hp hpc hhead j hj
    obtain ⟨index, rest, hcons⟩ := List.exists_cons_of_ne_nil hhead
    have hlt := hinv.unread_lt (posts_iff.mp hp) hcons
    rw [hinv.inFlightProducer t p (posts_iff.mp hp)]
    intro he
    have hlap : (st.view ring).card.read + j = (st.view ring).card.read +
        (st.view ring).card.unread.length := by
      refine Ring.eq_of_mod_eq (Nat.add_le_add_left (Nat.le_of_lt hj) _) ?_ he.symm
      omega
    have hj : j < (st.view ring).card.unread.length := hj
    omega

/-- Rings of eight buffers; the tenth allocation fails. -/
def cfg8 : RxCfg :=
  ⟨2, fun _ => 8, fun _ => 2048, fun i => if i = 9 then none else some (i, 4096 * i)⟩

/-- The message of a packet in the buffer `index` of ring 0. -/
def packetIn (index : BitVec 64) : StatusDesc := ⟨(hostDesc 4 0).body0 ||| (index <<< 28), 0⟩

/-- A chained LRO message for the ring `type`: two packets, the first in the buffer `index` and
the other in the buffer `next`. -/
def twoPackets (type index next : BitVec 64) : Dispatch :=
  .lro ⟨(hostDesc unmMsgtypeNicLroChained 2).body0 ||| index, 2#64 ||| (type <<< 12)⟩
    [⟨next, 0⟩]

/-- All eight buffers are posted and read by the card. -/
def fillTrace : List RxAction :=
  .postBuffers 0 0 :: (List.replicate 13 (.post 0) ++ List.replicate 8 (.fetch 0))

/-- Two status rings free buffers of the ring: the second packet of an LRO message
gets no new skb.  One thread posts what the one freed, while another finds the
ring being posted and only puts what the other freed on `free_rxbufs`. -/
def busyTrace : List RxAction :=
  fillTrace ++
    [.receive 0 (twoPackets 0 3 5), .receive 1 (.rcv (packetIn 1)), .postFreed 1 1 0, .post 1,
      .postFreed 2 0 0, .postBuffers 0 0, .receive 1 (.rcv (packetIn 7)), .fetch 0]

theorem buffers_conserved_busy :
    ∃ st, (rxMachine cfg8).run (initialRx cfg8) busyTrace = some st ∧
      BuffersConserved cfg8 st 0 ∧ (st.card 0).held = [0, 2, 4, 6, 1] ∧
      (st.ctx.rdsRings 0).freeRxbufs.head = [3, 5] ∧ (st.ctx.freeRbufs 1 0).head = [7] ∧
      (st.ctx.buf 0 5).skb = none ∧ (st.ctx.rdsRings 0).posting = true := by
  have hrun : ((rxMachine cfg8).run (initialRx cfg8) busyTrace).map (fun st =>
      decide ((st.card 0).held = [0, 2, 4, 6, 1] ∧
        (st.ctx.rdsRings 0).freeRxbufs.head = [3, 5] ∧ (st.ctx.freeRbufs 1 0).head = [7] ∧
        (st.ctx.buf 0 5).skb = none ∧ (st.ctx.rdsRings 0).posting = true)) = some true := by
    decide +kernel
  obtain ⟨st, hst, hbusy⟩ := Option.map_eq_some_iff.mp hrun
  exact ⟨st, hst, buffers_conserved ⟨busyTrace, hst⟩ 0, of_decide_eq_true hbusy⟩

/-- In the loop of `nx_post_rx_descriptors` the count of its list is not the
length of the list. -/
theorem in_flight_count_lags :
    ∃ st t p, ReachableRx cfg8 st ∧ Posts st 0 t p ∧
      p.freeList.count ≠ p.freeList.head.length := by
  have hrun : ((rxMachine cfg8).run (initialRx cfg8) [.postBuffers 0 0, .post 0]).bind
      (fun st => (st.posters 0).map fun p =>
        (p.ring, p.freeList.count, p.freeList.head.length)) = some (0, 8, 7) := by
    decide +kernel
  obtain ⟨st, hst, hrun⟩ := Option.bind_eq_some_iff.mp hrun
  obtain ⟨p, hp, heq⟩ := Option.map_eq_some_iff.mp hrun
  obtain ⟨hring, hcount, hlength⟩ : p.ring = 0 ∧ p.freeList.count = 8 ∧
      p.freeList.head.length = 7 := by
    simpa only [Prod.mk.injEq] using heq
  exact ⟨st, 0, p, ⟨_, hst⟩, ⟨hp, hring⟩, by omega⟩

/-- Ring 1 is filled, and the card returns two of its buffers in a chained LRO message, which
`unm_process_lro` drops. -/
def misdirectedTrace : List RxAction :=
  .postBuffers 0 1 :: (List.replicate 13 (.post 0) ++ List.replicate 8 (.fetch 1) ++
    [.receive 0 (twoPackets 1 3 5)])

/-- A misdirected message loses its buffers. -/
theorem misdirected_lost :
    ∃ st, ReachableRx cfg8 st ∧ 3 < cfg8.ringSize 1 ∧
      ∀ k, k ≠ .lost → 3 ∉ (st.view 1).listAt k := by
  have hrun : ((rxMachine cfg8).run (initialRx cfg8) misdirectedTrace).map
      (fun st => st.lost 1) = some [3, 5] := by
    decide +kernel
  obtain ⟨st, hst, hlost⟩ := Option.map_eq_some_iff.mp hrun
  have hreach : ReachableRx cfg8 st := ⟨_, hst⟩
  refine ⟨st, hreach, by decide, fun k hk hmem => hk ?_⟩
  have hthree : 3 ∈ (st.view 1).listAt .lost := by
    show 3 ∈ st.lost 1
    rw [hlost]
    exact List.mem_cons_self
  exact (hreach.inv 1).places.unique hmem hthree

/-- While a call is posting, the count of its list is off; and a buffer that comes back in a
misdirected message is in none of the places a buffer is to be in. -/
theorem buffers_not_conserved :
    (∃ st t p, ReachableRx cfg8 st ∧ Posts st 0 t p ∧
      p.freeList.count ≠ p.freeList.head.length) ∧
    ∃ st, ReachableRx cfg8 st ∧ 3 < cfg8.ringSize 1 ∧
      ∀ k, k ≠ .lost → 3 ∉ (st.view 1).listAt k :=
  ⟨in_flight_count_lags, misdirected_lost⟩

end Rx
end NxNic

import NxNic.Esx.Conservation

/-! # The exits of the transmit function

`unm_nic_xmit_frame` takes `tx_lock` after it has pulled the fragments that are too many into the
packet.  It ends at `done`, `requeue_packet` or `drop_packet`, all of which unlock; a packet that
is empty is freed before.  What a call does here is its `Event`s: the lock, the slots of the ring
it stores into, the producer and the doorbell.  A copy of headers is a store into every slot that
one of its bytes is in, behind the end of the ring as well.  The two builds differ in what they
check under the lock, in the slots they take and in the ways in which a part of a packet cannot be
mapped.

`GoodExit` is what is asked of a call's events.  A call on its way to the ring either drops the
packet (`Drops`) or queues it (`Queues`), and `Queues.goodExit_iff` says when the slots written are
those that the producer passes.  `exits_iff` is the result for both builds: an exit is good just if
`drop_packet` is not reached without the lock, and no header is copied past its slots.
-/
namespace NxNic
namespace Esx
open Tx

/-- What a call does to the lock, to the ring and to the packet. -/
inductive Event where
  | lock
  | unlock
  | store (slot : Nat)
  | produce (producer : Nat)
  | doorbell (producer : Nat)
  | kfreeSkb (skb : Nat)
  | stopQueue
deriving DecidableEq

/-- The slots that have one of the `len` bytes from byte `off` of the ring on; behind the end of
the ring they go on. -/
def touched (off len : Nat) : List Nat :=
  if len = 0 then []
  else (List.range' (off / descSize) ((off + len - 1) / descSize - off / descSize + 1))

/-- The events of an effect of the native build. -/
def events : Tx.Effect → List Event
  | .desc slot _ => [.store slot]
  | .copy off _ len => (touched off len).map .store
  | .produce producer _ => [.produce producer]
  | .doorbell producer => [.doorbell producer]
  | .kfreeSkb skb => [.kfreeSkb skb]
  | .stopQueue => [.stopQueue]
  | _ => []

/-- What the kernel answers; `bounceFails` says for which fragments `nx_handle_large_addr`
fails. -/
structure Answers extends EsxIo where
  bounceFails : Nat → Bool := fun _ => false

/-- The two builds. -/
inductive Build where
  | native
  | esx (card : Card)

/-! ## The ring under the lock -/

/-- `k` slots are stored into, from the producer on, which goes behind them. -/
def storeSlots (n : Nat) : Nat → Nat → List Event × Nat
  | producer, 0 => ([], producer)
  | producer, k + 1 =>
    let r := storeSlots n (Ring.next n producer) k
    (.store producer :: r.1, r.2)

/-- The parts of a packet in the ESX build, from the one at `producer` on; nothing for the
producer where a part cannot be mapped or bounced. -/
def pieceEvents (n : Nat) (bounceFails : Nat → Bool) :
    List Piece → Nat → List Event × Option Nat
  | [], producer => ([], some producer)
  | p :: rest, producer =>
    let moves := p.page && p.frag % 4 = 0
    let producer := if moves then Ring.next n producer else producer
    let clear : List Event := if moves then [.store producer] else []
    if !p.mapped || bounceFails p.frag then (clear, none)
    else
      let r := pieceEvents n bounceFails rest producer
      (clear ++ .store producer :: r.1, r.2)

/-- `vlan_frag`. -/
def vlanFrag (card : Card) (dev : NetDev) (skb : EsxSkb) (s : Skb) : Bool :=
  vlanCopy card dev skb && hdrCp < s.len - s.dataLen

/-- The parts of the packet `s`, which `skb` has become. -/
def esxPieces (card : Card) (dev : NetDev) (io : Answers) (skb : EsxSkb) (s : Skb) : List Piece :=
  let frag := vlanFrag card dev skb s
  headPieces io.toEsxIo (vlanCopy card dev skb) frag (s.len - s.dataLen) ++
    pagePieces io.toEsxIo frag.toNat 1 s.frags

/-- The copies of `nx_nic_tso_copy_headers`, from the producer on, and where it goes. -/
def copyHeaders (n : Nat) (s : Skb) (producer hdrLen : Nat) : List Tx.Effect × Nat :=
  let first := copyFirst s (descSize * producer) hdrLen
  let producer := Ring.next n producer
  if descSize - ipAlignmentBytes < hdrLen then
    (first ++ copyMore s (descSize * producer) hdrLen, Ring.next n producer)
  else (first, producer)

/-- The packet `s`, which `skb` has become, goes on the ring of the ESX build. -/
def esxQueue (card : Card) (dev : NetDev) (io : Answers) (skb : EsxSkb) (s : Skb) (a : Adapter) :
    List Event :=
  let n := a.maxTxDescCount
  let saved := a.cmdProducer
  let r := pieceEvents n io.bounceFails (esxPieces card dev io skb s) saved
  match r.2 with
  | none => .store saved :: r.1 ++ [.kfreeSkb s.id]
  | some producer =>
    let headers :=
      if lsoPacket dev s then copyHeaders n s (Ring.next n producer) (lsoHdrLen dev s)
      else ([], Ring.next n producer)
    let filter := storeSlots n headers.2 (if io.uaddr && s.protocol = ethPRarp then 1 else 0)
    .store saved :: r.1 ++ .store saved :: headers.1.flatMap events ++ filter.1 ++
      [.produce filter.2, .doorbell filter.2]

namespace Build
variable (b : Build) (dev : NetDev) (io : Answers) (skb : EsxSkb)

/-- What is validated under the lock. -/
def validate (s : Skb) : Bool :=
  match b with
  | native => true
  | esx _ => validateTso dev s

/-- `no_of_desc`. -/
def noOfDesc (s : Skb) : Nat :=
  match b with
  | native => s.noOfDesc
  | esx card => esxNoOfDesc s (vlanFrag card dev skb s).toNat

/-- The call from the point where there is room on the ring. -/
def queue (s : Skb) (a : Adapter) : List Event :=
  match b with
  | native => (xmitQueue dev io.toXmitIo s a).flatMap events
  | esx card => esxQueue card dev io skb s a

end Build

/-! ## The call -/

/-- `unm_nic_xmit_frame`. -/
def xmitEvents (b : Build) (dev : NetDev) (io : Answers) (skb : EsxSkb) (a : Adapter) :
    List Event × NetdevTx :=
  if skb.len = 0 then ([.kfreeSkb skb.id], .ok)
  else
    match linearize io.toXmitIo (tagged dev skb.toSkb) skb.toSkb with
    -- `drop_packet` goes on to `done`, which unlocks
    | none => ([.kfreeSkb skb.id, .unlock], .ok)
    | some s =>
      if !dev.carrierOk && !dev.loopbackStart then ([.lock, .kfreeSkb skb.id, .unlock], .ok)
      else if !b.validate dev s then ([.lock, .kfreeSkb skb.id, .unlock], .ok)
      else if Ring.bound a.maxTxDescCount a.lastCmdConsumer a.cmdProducer ≤
          a.cmdProducer + b.noOfDesc dev skb s + 2 then ([.lock, .stopQueue, .unlock], .busy)
      else (.lock :: b.queue dev io skb s a ++ [.unlock], .ok)

theorem events_ne {x : Tx.Effect} {e : Event} (h : e ∈ events x) : e ≠ .lock ∧ e ≠ .unlock := by
  cases x with
  | desc | produce | doorbell | kfreeSkb | stopQueue =>
    rw [List.mem_singleton.mp h]
    exact ⟨Event.noConfusion, Event.noConfusion⟩
  | copy off src len =>
    obtain ⟨slot, -, rfl⟩ := List.mem_map.mp h
    exact ⟨Event.noConfusion, Event.noConfusion⟩
  | _ => exact absurd h List.not_mem_nil

/-- **The native call** does what it is known to do, with the lock around it. -/
theorem xmitEvents_native (dev : NetDev) (io : Answers) (skb : EsxSkb) (a : Adapter) :
    (xmitEvents .native dev io skb a).1.filter (fun e => e ≠ .lock ∧ e ≠ .unlock) =
        (unmNicXmitFrame dev io.toXmitIo skb.toSkb a).1.flatMap events ∧
      (xmitEvents .native dev io skb a).2 = (unmNicXmitFrame dev io.toXmitIo skb.toSkb a).2 := by
  have hevents : ∀ es : List Tx.Effect,
      (es.flatMap events).filter (fun e => e ≠ .lock ∧ e ≠ .unlock) = es.flatMap events := by
    intro es
    refine List.filter_eq_self.mpr fun e he => ?_
    obtain ⟨x, -, heq⟩ := List.mem_flatMap.mp he
    exact decide_eq_true (events_ne heq)
  rw [xmitEvents, unmNicXmitFrame]
  split
  · exact ⟨rfl, rfl⟩
  · cases hlin : linearize io.toXmitIo (tagged dev skb.toSkb) skb.toSkb with
    | none => exact ⟨rfl, rfl⟩
    | some s =>
      have hid : s.id = skb.id := linearize_id hlin
      dsimp only
      split
      · rw [hid]
        exact ⟨rfl, rfl⟩
      · rw [if_neg (show ¬(!Build.native.validate dev s) = true from Bool.false_ne_true)]
        have hbound : ringFull a s ↔ Ring.bound a.maxTxDescCount a.lastCmdConsumer a.cmdProducer ≤
            a.cmdProducer + Build.native.noOfDesc dev skb s + 2 := Iff.rfl
        by_cases hfull : ringFull a s
        · rw [if_pos hfull, if_pos (hbound.mp hfull)]
          exact ⟨rfl, rfl⟩
        · rw [if_neg hfull, if_neg (mt hbound.mpr hfull)]
          refine ⟨?_, rfl⟩
          show (Event.lock :: (xmitQueue dev io.toXmitIo s a).flatMap events ++
            [Event.unlock]).filter _ = _
          rw [List.filter_append, List.filter_cons_of_neg (by decide), hevents]
          exact List.append_nil _

/-! ## Good exits -/

/-- Who holds the lock after the events, if each of them finds it as it has to. -/
def lockAfter : Bool → List Event → Option Bool
  | held, [] => some held
  | false, .lock :: es => lockAfter true es
  | true, .lock :: _ => none
  | true, .unlock :: es => lockAfter false es
  | false, .unlock :: _ => none
  | held, _ :: es => lockAfter held es

/-- `cmdProducer` after the events. -/
def producerAfter (producer : Nat) (es : List Event) : Nat :=
  es.foldl (fun p e => match e with | .produce q => q | _ => p) producer

/-- The descriptors that are written, each once. -/
def written (es : List Event) : List Nat :=
  (es.filterMap fun e => match e with | .store slot => some slot | _ => none).dedup

/-- The packet has been queued: it is neither sent back nor freed. -/
def IsQueued (r : List Event × NetdevTx) : Prop := r.2 = .ok ∧ ∀ skb, .kfreeSkb skb ∉ r.1

/-- **The property**: the call leaves the lock as it found it and never unlocks it without
holding it; it moves the producer by the descriptors it has written, which are less than the ring
has, and rings the doorbell for them, if the packet is queued, and otherwise touches neither. -/
structure GoodExit (a : Adapter) (r : List Event × NetdevTx) : Prop where
  lock : lockAfter false r.1 = some false
  queued : IsQueued r → (written r.1).length < a.maxTxDescCount ∧
    producerAfter a.cmdProducer r.1 = a.slotOf (written r.1).length ∧
      ∀ p, .doorbell p ∈ r.1 ↔ p = a.slotOf (written r.1).length
  other : ¬IsQueued r → ∀ p, .produce p ∉ r.1 ∧ .doorbell p ∉ r.1

section
variable {a : Adapter} {es fs : List Event} {k : Nat} {tight : Prop}

/-- Stores into the ring do nothing to the lock. -/
theorem lockAfter_stores {held : Bool} (h : ∀ e ∈ es, ∃ slot, e = .store slot) :
    lockAfter held (es ++ fs) = lockAfter held fs := by
  induction es with
  | nil => rfl
  | cons e es ih =>
    have hrest := ih fun e he => h e (List.mem_cons_of_mem _ he)
    obtain ⟨slot, rfl⟩ := h e List.mem_cons_self
    cases held <;> exact hrest

theorem not_mem_stores {e : Event} (h : ∀ e ∈ es, ∃ slot, e = .store slot)
    (hne : ∀ slot, e ≠ .store slot) : e ∉ es := by
  intro he
  obtain ⟨slot, heq⟩ := h e he
  exact hne slot heq

theorem producerAfter_append (p : Nat) :
    producerAfter p (es ++ fs) = producerAfter (producerAfter p es) fs := List.foldl_append ..

theorem mem_written {slot : Nat} : slot ∈ written es ↔ .store slot ∈ es := by
  rw [written, List.mem_dedup, List.mem_filterMap]
  constructor
  · rintro ⟨e, he, heq⟩
    cases e with
    | store s => exact Option.some.inj heq ▸ he
    | _ => exact absurd heq.symm (Option.some_ne_none _)
  · exact fun h => ⟨_, h, rfl⟩

theorem slotOf_inj {i j : Nat} (hi : i < a.maxTxDescCount) (hj : j < a.maxTxDescCount)
    (h : a.slotOf i = a.slotOf j) : i = j := by
  rcases Nat.lt_trichotomy i j with hlt | heq | hlt
  · exact absurd h (slotOf_ne hlt hj)
  · exact heq
  · exact absurd h.symm (slotOf_ne hlt hi)

/-- The slots that the producer passes on its way to slot `k`. -/
def passed (a : Adapter) (k : Nat) : List Nat := (List.range k).map a.slotOf

theorem mem_passed {slot : Nat} : slot ∈ passed a k ↔ ∃ j < k, slot = a.slotOf j := by
  rw [passed, List.mem_map]
  exact exists_congr fun j => and_congr List.mem_range eq_comm

theorem nodup_passed (hk : k ≤ a.maxTxDescCount) : (passed a k).Nodup := by
  refine List.Nodup.map_on (fun i hi j hj heq => ?_) List.nodup_range
  have hi := List.mem_range.mp hi
  have hj := List.mem_range.mp hj
  exact slotOf_inj (by omega) (by omega) heq

/-- Of two sets of slots one of which has the other in it, the one is as large as the other just if
they are the same. -/
theorem length_eq_iff {l l' : List Nat} (hl : l.Nodup) (hl' : l'.Nodup)
    (hsub : l ⊆ l' ∨ l' ⊆ l) : l.length = l'.length ↔ ∀ slot, slot ∈ l ↔ slot ∈ l' := by
  constructor
  · intro hlen slot
    rcases hsub with hsub | hsub
    · exact ((hl.subperm hsub).perm_of_length_le hlen.ge).mem_iff
    · exact ((hl'.subperm hsub).perm_of_length_le hlen.le).mem_iff.symm
  · exact fun hmem => ((List.perm_ext_iff_of_nodup hl hl').mpr hmem).length_eq

/-- A call that puts a packet on the ring: it moves the producer over `k` slots and rings the
doorbell, and what it has stored into are these slots if `tight` holds, and otherwise more or fewer
slots. -/
structure Queues (a : Adapter) (es : List Event) (tight : Prop) : Prop where
  split : ∃ k pre, k < a.maxTxDescCount ∧
    es = pre ++ [.produce (a.slotOf k), .doorbell (a.slotOf k)] ∧
    (∀ e ∈ pre, ∃ slot, e = .store slot) ∧
    (written pre ⊆ passed a k ∨ passed a k ⊆ written pre) ∧
    ((∀ slot, .store slot ∈ pre ↔ ∃ j < k, slot = a.slotOf j) ↔ tight)

/-- A call that drops a packet after it has stored into the ring. -/
structure Drops (es : List Event) : Prop where
  split : ∃ pre skb, es = pre ++ [.kfreeSkb skb] ∧ ∀ e ∈ pre, ∃ slot, e = .store slot

/-- A call that stores into the slots that the producer passes, and into no other. -/
theorem Queues.of_stores (hk : k < a.maxTxDescCount) (hpre : ∀ e ∈ es, ∃ slot, e = .store slot)
    (hstores : ∀ slot, .store slot ∈ es ↔ ∃ j < k, slot = a.slotOf j) (h : tight) :
    Queues a (es ++ [.produce (a.slotOf k), .doorbell (a.slotOf k)]) tight := by
  refine ⟨k, es, hk, rfl, hpre, .inl fun slot hslot => ?_, iff_of_true hstores h⟩
  exact mem_passed.mpr ((hstores slot).mp (mem_written.mp hslot))

/-- **A queued packet** leaves by a good exit just if the slots written are those passed. -/
theorem Queues.goodExit_iff (h : Queues a es tight) :
    GoodExit a (.lock :: es ++ [.unlock], .ok) ↔ tight := by
  obtain ⟨k, pre, hk, rfl, hpre, hsub, htight⟩ := h.split
  have hwritten : written (.lock :: (pre ++ [.produce (a.slotOf k), .doorbell (a.slotOf k)]) ++
      [.unlock]) = written pre := by
    simp [written]
  have hlength := length_eq_iff (List.nodup_dedup _) (nodup_passed (Nat.le_of_lt hk)) hsub
  have hk' : (passed a k).length = k := by rw [passed, List.length_map, List.length_range]
  have hproducer : producerAfter a.cmdProducer (.lock :: (pre ++
      [.produce (a.slotOf k), .doorbell (a.slotOf k)]) ++ [.unlock]) = a.slotOf k := by
    show producerAfter a.cmdProducer (pre ++ _ ++ [.unlock]) = _
    rw [List.append_assoc, producerAfter_append]
    rfl
  have hnone : ∀ skb, .kfreeSkb skb ∉ pre := fun skb =>
    not_mem_stores hpre fun slot => Event.noConfusion
  have hqueued : IsQueued (.lock :: (pre ++ [.produce (a.slotOf k), .doorbell (a.slotOf k)]) ++
      [.unlock], .ok) := ⟨rfl, fun skb hskb => by simp [hnone skb] at hskb⟩
  rw [← htight]
  constructor
  · intro hgood slot
    obtain ⟨hlt, hprod, -⟩ := hgood.queued hqueued
    rw [hwritten] at hlt hprod
    have hlen : (written pre).length = (passed a k).length := by
      rw [hk']
      exact slotOf_inj hlt hk (hprod.symm.trans hproducer)
    exact mem_written.symm.trans ((hlength.mp hlen slot).trans mem_passed)
  · intro hstores
    have hlen : (written pre).length = k := by
      refine (hlength.mpr fun slot => ?_).trans hk'
      exact mem_written.trans ((hstores slot).trans mem_passed.symm)
    refine ⟨?_, fun _ => ?_, fun hn => absurd hqueued hn⟩
    · show lockAfter true (pre ++ _ ++ [.unlock]) = some false
      rw [List.append_assoc, lockAfter_stores hpre]
      rfl
    · rw [hwritten, hlen]
      refine ⟨hk, hproducer, fun p => ?_⟩
      have hbell : .doorbell p ∉ pre := not_mem_stores hpre fun slot => Event.noConfusion
      simp [hbell]

/-- A call that frees the packet under the lock. -/
theorem Drops.goodExit (h : Drops es) : GoodExit a (.lock :: es ++ [.unlock], .ok) := by
  obtain ⟨pre, skb, rfl, hpre⟩ := h.split
  refine ⟨?_, fun hq => absurd ?_ (hq.2 skb), fun _ p => ?_⟩
  · show lockAfter true (pre ++ _ ++ [.unlock]) = some false
    rw [List.append_assoc, lockAfter_stores hpre]
    rfl
  · simp
  · have hprod : .produce p ∉ pre := not_mem_stores hpre fun slot => Event.noConfusion
    have hbell : .doorbell p ∉ pre := not_mem_stores hpre fun slot => Event.noConfusion
    simp [hprod, hbell]

end

/-! ## The headers -/

section
variable {skb : Skb} {a : Adapter} {q n : Nat}

/-- The bytes that a copy of headers stores. -/
theorem mem_touched {off len slot : Nat} :
    slot ∈ touched off len ↔ ∃ i, off ≤ i ∧ i < off + len ∧ i / descSize = slot := by
  have hsize : descSize = 64 := rfl
  rw [touched]
  split
  · refine iff_of_false List.not_mem_nil ?_
    rintro ⟨i, hle, hlt, -⟩
    omega
  · rw [List.mem_range'_1, hsize]
    constructor
    · rintro ⟨hle, hlt⟩
      rcases Nat.lt_or_ge (64 * slot) off with hin | hin
      · exact ⟨off, Nat.le_refl off, by omega, by omega⟩
      · exact ⟨64 * slot, hin, by omega, by omega⟩
    · rintro ⟨i, hle, hlt, rfl⟩
      omega

/-- The copies of the headers of a packet, as they are made slot by slot. -/
theorem copyHeaders_eq (hprod : a.cmdProducer < a.maxTxDescCount) (q n : Nat) :
    copyHeaders a.maxTxDescCount skb (a.slotOf q) n =
      (headerCopies a skb q n, a.slotOf (q + headerSlots n)) := by
  rw [copyHeaders, headerCopies, headerSlots, next_slotOf hprod, next_slotOf hprod]
  split
  · rfl
  · rw [List.append_nil]

/-- **The condition** on the length of the headers: the copies fill the header slots, and end
there. -/
def HeadersTight (skb : Skb) (n : Nat) : Prop :=
  0 < n ∧ n ≤ 126 ∧ (skb.vlanTag.isSome = true → 16 ≤ n)

/-- A byte that is copied is a store into its slot. -/
theorem store_mem_copies {es : List Tx.Effect} (h : ∀ e ∈ es, e.Copies) {slot : Nat} :
    .store slot ∈ es.flatMap events ↔ ∃ off src len, .copy off src len ∈ es ∧
      ∃ i, off ≤ i ∧ i < off + len ∧ i / descSize = slot := by
  rw [List.mem_flatMap]
  constructor
  · rintro ⟨e, he, hslot⟩
    have hcopy := h e he
    cases e with
    | copy off src len =>
      obtain ⟨s, hs, heq⟩ := List.mem_map.mp hslot
      exact ⟨off, src, len, he, mem_touched.mp (Event.store.inj heq ▸ hs)⟩
    | _ => exact absurd hcopy id
  · rintro ⟨off, src, len, he, hbyte⟩
    exact ⟨_, he, List.mem_map.mpr ⟨slot, mem_touched.mpr hbyte, rfl⟩⟩

theorem stores_of_copies {es : List Tx.Effect} (h : ∀ e ∈ es, e.Copies) :
    ∀ e ∈ es.flatMap events, ∃ slot, e = .store slot := by
  intro e he
  obtain ⟨x, hx, heq⟩ := List.mem_flatMap.mp he
  have hcopy := h x hx
  cases x with
  | copy off src len =>
    obtain ⟨slot, -, rfl⟩ := List.mem_map.mp heq
    exact ⟨slot, rfl⟩
  | _ => exact absurd hcopy id

/-- The first copy reaches its slot, unless there is nothing to copy. -/
theorem first_stored (h : skb.vlanTag.isSome = true ∨ 0 < n) :
    .store (a.slotOf q) ∈ (headerCopies a skb q n).flatMap events := by
  rw [store_mem_copies (headerCopies_copies q n)]
  have hsize : descSize = 64 := rfl
  have hstart : ipAlignmentBytes = 2 := rfl
  have hfirst : firstHdrLen n = min n 62 := rfl
  simp only [headerCopies, copyFirst, hsize, hstart]
  cases hv : skb.vlanTag with
  | none =>
    rw [hv] at h
    have hn := h.resolve_left Bool.false_ne_true
    exact ⟨_, _, _, List.mem_append_left _ (List.mem_singleton_self _),
      64 * a.slotOf q + 2, by omega, by omega, by omega⟩
  | some vid =>
    exact ⟨_, _, _, List.mem_append_left _ List.mem_cons_self,
      64 * a.slotOf q, by omega, by omega, by omega⟩

/-- The second copy reaches the second slot, and the one behind it if it is too long. -/
theorem more_stored (hn : descSize - ipAlignmentBytes < n) {t : Nat} (ht : 62 + 64 * t < n) :
    .store (a.slotOf (q + 1) + t) ∈ (headerCopies a skb q n).flatMap events := by
  have hsize : descSize = 64 := rfl
  have hfirst : firstHdrLen n = 62 := Nat.min_eq_right (Nat.le_of_lt hn)
  rw [store_mem_copies (headerCopies_copies q n), headerCopies, if_pos hn]
  simp only [copyMore, hsize]
  exact ⟨_, _, _, List.mem_append_right _ (List.mem_singleton_self _),
    64 * (a.slotOf (q + 1) + t), by omega, by omega, by omega⟩

/-- Less than sixteen bytes in front of an out-of-band tag are a copy without an end. -/
theorem tag_stored (hv : skb.vlanTag.isSome = true) (hn : n < 16) :
    .store (a.slotOf q + 1) ∈ (headerCopies a skb q n).flatMap events := by
  rw [store_mem_copies (headerCopies_copies q n)]
  have hsize : descSize = 64 := rfl
  have hfirst : firstHdrLen n = n :=
    Nat.min_eq_left (Nat.le_trans (Nat.le_of_lt hn) (by decide))
  have hlen : sizeT ((firstHdrLen n : Int) - 16) = 2 ^ 64 - (16 - n) := by
    unfold sizeT
    omega
  obtain ⟨vid, hvid⟩ := Option.isSome_iff_exists.mp hv
  rw [hsize]
  refine ⟨64 * a.slotOf q + 18, skb.bytesFrom 12, 2 ^ 64 - (16 - n), ?_,
    64 * (a.slotOf q + 1), by omega, by omega, by omega⟩
  rw [← hlen, headerCopies, copyFirst, hvid]
  refine List.mem_append_left _ ?_
  exact List.mem_cons_of_mem _ (List.mem_cons_of_mem _ (List.mem_cons_of_mem _ List.mem_cons_self))

/-- Headers that are not too long and not too short stay in their slots. -/
theorem copies_contained (htag : skb.vlanTag.isSome = true → 16 ≤ n) (hn : n ≤ 126) {slot : Nat}
    (hmem : .store slot ∈ (headerCopies a skb q n).flatMap events) :
    ∃ j < headerSlots n, slot = a.slotOf (q + j) := by
  obtain ⟨off, src, len, hcopy, i, hle, hlt, rfl⟩ :=
    (store_mem_copies (headerCopies_copies q n)).mp hmem
  exact headerCopies_contained htag hn hcopy hle hlt

/-- Nothing is copied of headers without a length. -/
theorem not_stored_of_zero (hv : ¬skb.vlanTag.isSome = true) (hzero : n = 0) {slot : Nat} :
    .store slot ∉ (headerCopies a skb q n).flatMap events := by
  rw [store_mem_copies (headerCopies_copies q n), headerCopies, copyFirst,
    Option.not_isSome_iff_eq_none.mp hv, if_neg (by rw [hzero]; decide), List.append_nil]
  rintro ⟨off, src, len, hmem, i, hle, hlt, -⟩
  obtain ⟨rfl, -, rfl⟩ := Effect.copy.inj (List.mem_singleton.mp hmem)
  have hfirst : firstHdrLen n = min n 62 := rfl
  omega

/-- The slot in memory behind a slot of the ring is none of those before. -/
theorem slotOf_succ_ne (hprod : a.cmdProducer < a.maxTxDescCount) {m j : Nat}
    (hm : m + 1 < a.maxTxDescCount) (hj : j < m + 1) : a.slotOf m + 1 ≠ a.slotOf j := by
  have hnext := next_slotOf hprod m
  have hlt : a.slotOf j < a.maxTxDescCount := Nat.mod_lt _ (by omega)
  rw [Ring.next] at hnext
  split at hnext
  · omega
  · rw [hnext]
    exact (slotOf_ne hj hm).symm

/-- **The headers of a queued packet**: behind the `q` slots of its descriptors, the copies fill
the slots that the producer passes just if the headers are not too long, and not too short. -/
theorem Queues.of_headers {pre : List Event} (hprod : a.cmdProducer < a.maxTxDescCount)
    (hroom : q + headerSlots n < a.maxTxDescCount) (hpre : ∀ e ∈ pre, ∃ slot, e = .store slot)
    (hstores : ∀ slot, .store slot ∈ pre ↔ ∃ j < q, slot = a.slotOf j) :
    Queues a (pre ++ (headerCopies a skb q n).flatMap events ++
      [.produce (a.slotOf (q + headerSlots n)), .doorbell (a.slotOf (q + headerSlots n))])
      (HeadersTight skb n) := by
  have hsize : descSize = 64 := rfl
  have hstart : ipAlignmentBytes = 2 := rfl
  have hslots : headerSlots n = if 62 < n then 2 else 1 := rfl
  have hcopies : ∀ e ∈ headerCopies a skb q n, e.Copies := headerCopies_copies q n
  -- the header slots are stored into, unless there is nothing to store
  have hfull : skb.vlanTag.isSome = true ∨ 0 < n → ∀ j < headerSlots n,
      .store (a.slotOf (q + j)) ∈ (headerCopies a skb q n).flatMap events := by
    intro hn j hj
    obtain rfl | ⟨rfl, hmore⟩ : j = 0 ∨ j = 1 ∧ 62 < n := by
      split at hslots <;> omega
    · exact first_stored hn
    · exact more_stored (t := 0) (by omega) (by omega)
  have hpassed : skb.vlanTag.isSome = true ∨ 0 < n → ∀ j < q + headerSlots n,
      .store (a.slotOf j) ∈ pre ++ (headerCopies a skb q n).flatMap events := by
    intro hn j hj
    rcases Nat.lt_or_ge j q with hlt | hge
    · exact List.mem_append_left _ ((hstores _).mpr ⟨j, hlt, rfl⟩)
    · obtain ⟨i, rfl⟩ := Nat.exists_eq_add_of_le hge
      exact List.mem_append_right _ (hfull hn i (by omega))
  refine ⟨q + headerSlots n, _, hroom, rfl,
    List.forall_mem_append.mpr ⟨hpre, stores_of_copies hcopies⟩, ?_, ?_⟩
  · by_cases hn : skb.vlanTag.isSome = true ∨ 0 < n
    · refine .inr fun slot hslot => mem_written.mpr ?_
      obtain ⟨j, hj, rfl⟩ := mem_passed.mp hslot
      exact hpassed hn j hj
    · -- nothing is copied
      obtain ⟨hv, hzero⟩ := not_or.mp hn
      refine .inl fun slot hslot => mem_passed.mpr ?_
      rcases List.mem_append.mp (mem_written.mp hslot) with hmem | hmem
      · obtain ⟨j, hj, heq⟩ := (hstores slot).mp hmem
        exact ⟨j, by omega, heq⟩
      · exact absurd hmem (not_stored_of_zero hv (by omega))
  · constructor
    · intro hsame
      have hnot : ∀ m, q + headerSlots n = m + 1 →
          .store (a.slotOf m + 1) ∉ (headerCopies a skb q n).flatMap events := by
        intro m hm hmem
        obtain ⟨j, hj, heq⟩ := (hsame _).mp (List.mem_append_right _ hmem)
        exact slotOf_succ_ne hprod (by omega) (by omega) heq
      have htag : skb.vlanTag.isSome = true → 16 ≤ n := by
        intro hv
        by_contra hshort
        exact hnot q (by rw [hslots, if_neg (by omega)]) (tag_stored hv (by omega))
      refine ⟨?_, ?_, htag⟩
      · by_contra hzero
        have hv : ¬skb.vlanTag.isSome = true := fun hv => by have hlen := htag hv; omega
        rcases List.mem_append.mp ((hsame _).mpr ⟨q, by split at hslots <;> omega, rfl⟩) with h | h
        · obtain ⟨j, hj, heq⟩ := (hstores _).mp h
          exact absurd heq.symm (slotOf_ne hj (by omega))
        · exact not_stored_of_zero hv (by omega) h
      · by_contra hlong
        exact hnot (q + 1) (by rw [hslots, if_pos (by omega)])
          (more_stored (t := 1) (by omega) (by omega))
    · rintro ⟨hpos, hn, htag⟩ slot
      constructor
      · intro hmem
        rcases List.mem_append.mp hmem with hmem | hmem
        · obtain ⟨j, hj, heq⟩ := (hstores slot).mp hmem
          exact ⟨j, by omega, heq⟩
        · obtain ⟨j, hj, heq⟩ := copies_contained htag hn hmem
          exact ⟨q + j, by omega, heq⟩
      · rintro ⟨j, hj, rfl⟩
        exact hpassed (.inr hpos) j hj

end

/-! ## The native build -/

section
variable {dev : NetDev} {io : XmitIo} {skb : Skb} {a : Adapter}

/-- Effects before the headers of a packet are copied: the ring is only stored into. -/
def Prepares : Tx.Effect → Prop
  | .desc _ _ | .buf _ _ | .map _ _ | .unmap _ _ => True
  | _ => False

theorem stores_of_prepares {es : List Tx.Effect} (h : ∀ e ∈ es, Prepares e) :
    ∀ e ∈ es.flatMap events, ∃ slot, e = .store slot := by
  intro e he
  obtain ⟨x, hx, heq⟩ := List.mem_flatMap.mp he
  have hprep := h x hx
  cases x with
  | desc slot d => exact ⟨slot, List.mem_singleton.mp heq⟩
  | buf | map | unmap => exact absurd heq List.not_mem_nil
  | _ => exact absurd hprep id

theorem mapFrags_prepares {n saved i : Nat} {frags : List Nat} {v : XmitLocals} :
    ∀ e ∈ (mapFrags io n saved frags i v).1, Prepares e := by
  induction frags generalizing i v with
  | nil => exact fun e he => absurd he List.not_mem_nil
  | cons len rest ih =>
    have hclear : ∀ (p : Prop) [Decidable p] (slot : Nat) (d : CmdDescType0),
        ∀ e ∈ (if p then [Tx.Effect.desc slot d] else []), Prepares e := by
      intro p _ slot d e he
      split at he
      · rw [List.mem_singleton.mp he]
        trivial
      · exact absurd he List.not_mem_nil
    rw [mapFrags]
    cases io.mapPage i with
    | none =>
      refine List.forall_mem_append.mpr ⟨hclear _ _ _, fun e he => ?_⟩
      obtain ⟨k, -, rfl⟩ := List.mem_map.mp he
      trivial
    | some dma =>
      refine List.forall_mem_append.mpr ⟨List.forall_mem_append.mpr ⟨hclear _ _ _, ?_⟩, ih⟩
      intro e he
      simp only [List.mem_cons, List.not_mem_nil, or_false] at he
      rcases he with rfl | rfl | rfl <;> trivial

/-- A packet with a part that is not mapped is dropped. -/
theorem xmitQueue_drops (h : ¬Mapped io skb) :
    Drops ((xmitQueue dev io skb a).flatMap events) := by
  have hend : ∀ pre, (∀ e ∈ pre, Prepares e) →
      Drops ((pre ++ [.kfreeSkb skb.id]).flatMap events) := fun pre hpre =>
    ⟨pre.flatMap events, skb.id, List.flatMap_append .., stores_of_prepares hpre⟩
  rw [xmitQueue]
  cases hdma : io.mapSkb with
  | none =>
    refine hend _ fun e he => ?_
    simp only [List.mem_cons, List.not_mem_nil, or_false] at he
    rcases he with rfl | rfl <;> trivial
  | some dma =>
    obtain ⟨hres, -⟩ := mapFrags_of_unmapped io a.maxTxDescCount a.cmdProducer skb.frags 1
      (xmitLocals dev skb a dma) (Nat.le_refl 1) fun hall =>
        h ⟨by rw [hdma]; rfl, fun i hi => by rw [Nat.add_comm]; exact hall i hi⟩
    dsimp only
    rw [hres]
    refine hend _ (List.forall_mem_append.mpr ⟨List.forall_mem_append.mpr ⟨?_, ?_⟩,
      mapFrags_prepares⟩)
    · intro e he
      simp only [List.mem_cons, List.not_mem_nil, or_false] at he
      rcases he with rfl | rfl <;> trivial
    · intro e he
      simp only [List.mem_cons, List.not_mem_nil, or_false] at he
      rcases he with rfl | rfl | rfl <;> trivial

/-- A descriptor that is stored is a store into its slot. -/
theorem store_mem_records {es : List Tx.Effect} (h : ∀ e ∈ es, e.Records) {slot : Nat} :
    .store slot ∈ es.flatMap events ↔ StoresDesc es slot := by
  rw [List.mem_flatMap]
  constructor
  · rintro ⟨e, he, hslot⟩
    have hrecord := h e he
    cases e with
    | desc s d =>
      obtain rfl : slot = s := Event.store.inj (List.mem_singleton.mp hslot)
      exact ⟨d, he⟩
    | buf | map => exact absurd hslot List.not_mem_nil
    | _ => exact absurd hrecord id
  · rintro ⟨d, hd⟩
    exact ⟨_, hd, List.mem_singleton_self _⟩

theorem prepares_of_records {e : Tx.Effect} (h : e.Records) : Prepares e := by
  cases e with
  | desc | buf | map => trivial
  | _ => exact absurd h id

/-- The end of a call that copies no headers. -/
theorem xmitFinish_of_not_lso (n saved : Nat) {v : XmitLocals} (hlso : ¬lsoPacket dev skb)
    (hmss : v.first.mss = BitVec.ofNat 16 (xmitMss dev skb))
    (hop : v.first.opcode = BitVec.ofNat 6 txEtherPkt) :
    ∃ es, (∀ e ∈ es, e.Records) ∧ xmitFinish n skb (tagged dev skb) saved v =
      es ++ [.produce (Ring.next n v.producer) (v.moved + 1),
        .doorbell (Ring.next n v.producer)] := by
  have hplain : (vlanOob skb (xmitChecked skb (tagged dev skb) v.first)).isLso ≠ true := by
    rw [isLso_vlanOob]
    exact mt (isLso_xmitChecked hmss hop).mp hlso
  refine ⟨.desc saved (xmitChecked skb (tagged dev skb) v.first) ::
    storeTag skb saved (vlanOob skb (xmitChecked skb (tagged dev skb) v.first)), ?_, ?_⟩
  · exact List.forall_mem_cons.mpr ⟨trivial, storeTag_records _ _⟩
  · rw [xmitFinish, nxNicTsoCopyHeaders]
    dsimp only
    rw [if_neg hplain]
    rfl

/-- A packet all of whose parts are mapped is queued. -/
theorem xmitQueue_queues (hprod : a.cmdProducer < a.maxTxDescCount)
    (hroom : skb.noOfDesc + 2 < a.maxTxDescCount) (h : Mapped io skb) :
    Queues a ((xmitQueue dev io skb a).flatMap events)
      (lsoPacket dev skb → HeadersTight skb (lsoHdrLen dev skb)) := by
  have hstores := (xmitQueue_left dev hprod (by omega) h).stores
  have hend : ∀ p moved slot, ¬StoresDesc [.produce p moved, .doorbell p] slot := by
    rintro p moved slot ⟨d, hd⟩
    simp at hd
  by_cases hlso : lsoPacket dev skb
  · rw [forall_prop_of_true hlso]
    obtain ⟨pre, hqueue, hpre, -⟩ := xmitQueue_lso hprod (by omega) h hlso
    have hslots := headerSlots_le (lsoHdrLen dev skb)
    have hrest : ∀ slot,
        ¬StoresDesc (headerCopies a skb skb.noOfDesc (lsoHdrLen dev skb)) slot := by
      rintro slot ⟨d, hd⟩
      exact headerCopies_copies _ _ _ hd
    rw [hqueue, List.flatMap_append, List.flatMap_append]
    refine Queues.of_headers hprod (by omega)
      (stores_of_prepares fun e he => prepares_of_records (hpre e he)) fun slot => ?_
    rw [store_mem_records hpre, ← hstores, hqueue, storesDesc_append, or_iff_left (hend _ _ slot),
      storesDesc_append, or_iff_left (hrest slot)]
  · obtain ⟨pre, x, hqueue, hpre, -, hnext, hmss, hop⟩ := xmitQueue_finish dev hprod (by omega) h
    obtain ⟨es, hes, hfinish⟩ := xmitFinish_of_not_lso a.maxTxDescCount a.cmdProducer
      hlso hmss hop
    rw [hfinish, hnext, ← List.append_assoc] at hqueue
    have hall : ∀ e ∈ pre ++ es, e.Records := List.forall_mem_append.mpr ⟨hpre, hes⟩
    rw [hqueue, List.flatMap_append]
    refine Queues.of_stores (by omega)
      (stores_of_prepares fun e he => prepares_of_records (hall e he)) (fun slot => ?_)
      fun h => absurd h hlso
    rw [store_mem_records hall, ← hstores, hqueue]
    exact (storesDesc_append.trans (or_iff_left (hend _ _ slot))).symm

end

/-! ## The ESX build -/

section
variable {card : Card} {dev : NetDev} {io : Answers} {skb : EsxSkb} {s : Skb} {a : Adapter}
  {fails : Nat → Bool}

theorem storeSlots_spec (hprod : a.cmdProducer < a.maxTxDescCount) (q k : Nat) :
    (storeSlots a.maxTxDescCount (a.slotOf q) k).2 = a.slotOf (q + k) ∧
      (∀ e ∈ (storeSlots a.maxTxDescCount (a.slotOf q) k).1, ∃ slot, e = .store slot) ∧
      ∀ slot, .store slot ∈ (storeSlots a.maxTxDescCount (a.slotOf q) k).1 ↔
        ∃ j, q ≤ j ∧ j < q + k ∧ slot = a.slotOf j := by
  induction k generalizing q with
  | zero =>
    refine ⟨rfl, fun e he => absurd he List.not_mem_nil, fun slot => ?_⟩
    refine iff_of_false List.not_mem_nil ?_
    rintro ⟨j, hle, hlt, -⟩
    omega
  | succ k ih =>
    obtain ⟨hend, hstore, hmem⟩ := ih (q + 1)
    rw [storeSlots, next_slotOf hprod]
    refine ⟨?_, List.forall_mem_cons.mpr ⟨⟨_, rfl⟩, hstore⟩, fun slot => ?_⟩
    · rw [hend, Nat.add_assoc, Nat.add_comm 1 k]
    · rw [List.mem_cons, hmem, Event.store.injEq]
      constructor
      · rintro (rfl | ⟨j, hle, hlt, rfl⟩)
        · exact ⟨q, Nat.le_refl q, by omega, rfl⟩
        · exact ⟨j, by omega, by omega, rfl⟩
      · rintro ⟨j, hle, hlt, rfl⟩
        rcases Nat.lt_or_eq_of_le hle with hlt' | rfl
        · exact .inr ⟨j, hlt', by omega, rfl⟩
        · exact .inl rfl

/-- How often the parts go to the next descriptor. -/
def pieceMoves (pieces : List Piece) : Nat :=
  (pieces.filter fun p => p.page && p.frag % 4 = 0).length

theorem pieceMoves_cons {p : Piece} {rest : List Piece} :
    pieceMoves (p :: rest) = (if p.page && p.frag % 4 = 0 then 1 else 0) + pieceMoves rest := by
  rw [pieceMoves, pieceMoves, List.filter_cons]
  split
  · rw [List.length_cons, Nat.add_comm]
  · rw [Nat.zero_add]

/-- The descriptors that the parts of a packet fill, from the one at slot `q` on. -/
theorem pieceEvents_spec (fails : Nat → Bool) (hprod : a.cmdProducer < a.maxTxDescCount)
    (pieces : List Piece) (q : Nat) :
    (∀ e ∈ (pieceEvents a.maxTxDescCount fails pieces (a.slotOf q)).1, ∃ slot, e = .store slot) ∧
      ∀ p, (pieceEvents a.maxTxDescCount fails pieces (a.slotOf q)).2 = some p →
        p = a.slotOf (q + pieceMoves pieces) ∧
          ∀ slot, slot = a.slotOf q ∨
              .store slot ∈ (pieceEvents a.maxTxDescCount fails pieces (a.slotOf q)).1 ↔
            ∃ j, q ≤ j ∧ j ≤ q + pieceMoves pieces ∧ slot = a.slotOf j := by
  induction pieces generalizing q with
  | nil =>
    refine ⟨fun e he => absurd he List.not_mem_nil, fun p hp => ⟨(Option.some.inj hp).symm, ?_⟩⟩
    intro slot
    have hnone : .store slot ∉ (pieceEvents a.maxTxDescCount fails [] (a.slotOf q)).1 :=
      List.not_mem_nil
    rw [or_iff_left hnone]
    constructor
    · exact fun h => ⟨q, Nat.le_refl q, Nat.le_refl q, h⟩
    · rintro ⟨j, hge, hle, rfl⟩
      rw [Nat.le_antisymm hle hge]
      rfl
  | cons p rest ih =>
    obtain ⟨m, hm, hle⟩ : ∃ m, m = (if p.page && p.frag % 4 = 0 then 1 else 0) ∧ m ≤ 1 :=
      ⟨_, rfl, by split <;> decide⟩
    have hnext : (if p.page && p.frag % 4 = 0 then Ring.next a.maxTxDescCount (a.slotOf q)
        else a.slotOf q) = a.slotOf (q + m) := by
      rw [hm]
      split
      · exact next_slotOf hprod q
      · rfl
    have hclear : ∀ e ∈ (if p.page && p.frag % 4 = 0 then [Event.store (a.slotOf (q + m))] else []),
        e = .store (a.slotOf (q + m)) := by
      intro e he
      split at he
      · exact List.mem_singleton.mp he
      · exact absurd he List.not_mem_nil
    obtain ⟨hstores, hdone⟩ := ih (q + m)
    rw [pieceEvents, pieceMoves_cons, ← hm]
    dsimp only
    rw [hnext]
    split
    · exact ⟨fun e he => ⟨_, hclear e he⟩, fun x hx => absurd hx.symm (Option.some_ne_none x)⟩
    · refine ⟨List.forall_mem_append.mpr ⟨fun e he => ⟨_, hclear e he⟩,
        List.forall_mem_cons.mpr ⟨⟨_, rfl⟩, hstores⟩⟩, fun x hx => ?_⟩
      obtain ⟨rfl, hslots⟩ := hdone x hx
      refine ⟨by rw [Nat.add_assoc], fun slot => ?_⟩
      rw [List.mem_append, List.mem_cons, Event.store.injEq, or_iff_right_of_imp
        (fun h => .inl (Event.store.inj (hclear _ h)) : Event.store slot ∈ _ → _), hslots]
      constructor
      · rintro (rfl | ⟨j, hge, hlt, rfl⟩)
        · exact ⟨q, Nat.le_refl q, by omega, rfl⟩
        · exact ⟨j, by omega, by omega, rfl⟩
      · rintro ⟨j, hge, hlt, rfl⟩
        rcases Nat.lt_or_eq_of_le hge with hgt | rfl
        · exact .inr ⟨j, by omega, by omega, rfl⟩
        · exact .inl rfl

/-- The loop comes to its end if every part is mapped and bounced. -/
theorem pieceEvents_isSome (n : Nat) (fails : Nat → Bool) (pieces : List Piece) (producer : Nat) :
    (pieceEvents n fails pieces producer).2.isSome = true ↔
      ∀ p ∈ pieces, p.mapped = true ∧ fails p.frag = false := by
  induction pieces generalizing producer with
  | nil => exact iff_of_true rfl fun p hp => absurd hp List.not_mem_nil
  | cons p rest ih =>
    rw [pieceEvents, List.forall_mem_cons]
    dsimp only
    cases hmapped : p.mapped with
    | false => exact iff_of_false Bool.false_ne_true fun h => Bool.false_ne_true h.1.1
    | true =>
      cases hfails : fails p.frag with
      | true => exact iff_of_false Bool.false_ne_true fun h => Bool.false_ne_true h.1.2.symm
      | false => exact (ih _).trans (and_iff_right ⟨rfl, rfl⟩).symm

theorem pieceMoves_append (ps qs : List Piece) :
    pieceMoves (ps ++ qs) = pieceMoves ps + pieceMoves qs := by
  rw [pieceMoves, List.filter_append, List.length_append]
  rfl

theorem pieceMoves_headPieces (io : EsxIo) (copy frag : Bool) (len : Nat) :
    pieceMoves (headPieces io copy frag len) = 0 := by
  cases frag <;> cases copy <;> rfl

theorem pieceMoves_pagePieces (io : EsxIo) (v i : Nat) (sizes : List Nat) :
    pieceMoves (pagePieces io v i sizes) = descMoves (pagePieces io v i sizes) := by
  induction sizes generalizing i with
  | nil => rfl
  | cons len rest ih =>
    rw [pagePieces, pieceMoves_cons, ih, descMoves, descMoves, List.filter_cons, Bool.true_and]
    split
    · rw [List.length_cons, Nat.add_comm]
    · rw [Nat.zero_add]

/-- The slots of the packet in the ESX build. -/
def esxJob (card : Card) (dev : NetDev) (io : Answers) (skb : EsxSkb) (s : Skb) : Job :=
  ⟨dev, s, (vlanFrag card dev skb s).toNat, io.uaddr,
    descMoves (pagePieces io.toEsxIo (vlanFrag card dev skb s).toNat 1 s.frags)⟩

theorem pieceMoves_esxPieces : pieceMoves (esxPieces card dev io skb s) =
    (esxJob card dev io skb s).moves := by
  rw [esxPieces, pieceMoves_append, pieceMoves_headPieces, pieceMoves_pagePieces, Nat.zero_add]
  rfl

/-- A packet of the ESX build with a part that cannot be mapped or bounced is dropped. -/
theorem esxQueue_drops (hprod : a.cmdProducer < a.maxTxDescCount)
    (h : ¬∀ p ∈ esxPieces card dev io skb s, p.mapped = true ∧ io.bounceFails p.frag = false) :
    Drops (esxQueue card dev io skb s a) := by
  have hsaved : a.cmdProducer = a.slotOf 0 := (Nat.mod_eq_of_lt hprod).symm
  obtain ⟨hstores, -⟩ := pieceEvents_spec io.bounceFails hprod (esxPieces card dev io skb s) 0
  have hend := mt (pieceEvents_isSome a.maxTxDescCount io.bounceFails _ (a.slotOf 0)).mp h
  rw [esxQueue]
  dsimp only
  rw [hsaved, Option.not_isSome_iff_eq_none.mp hend]
  exact ⟨.store (a.slotOf 0) :: _, s.id, rfl, List.forall_mem_cons.mpr ⟨⟨_, rfl⟩, hstores⟩⟩

/-- Any other is queued in the slots that are its job's, with its headers behind its parts. -/
theorem esxQueue_queues {t : Nat} (hprod : a.cmdProducer < a.maxTxDescCount)
    (hroom : (esxJob card dev io skb s).slots < a.maxTxDescCount)
    (hlin : linearize io.toXmitIo t skb.toSkb = some s)
    (h : ∀ p ∈ esxPieces card dev io skb s, p.mapped = true ∧ io.bounceFails p.frag = false) :
    Queues a (esxQueue card dev io skb s a)
      (lsoPacket dev s → HeadersTight s (lsoHdrLen dev s)) := by
  have hsaved : a.cmdProducer = a.slotOf 0 := (Nat.mod_eq_of_lt hprod).symm
  obtain ⟨hstores, hdone⟩ :=
    pieceEvents_spec io.bounceFails hprod (esxPieces card dev io skb s) 0
  obtain ⟨p, hend⟩ := Option.isSome_iff_exists.mp
    ((pieceEvents_isSome a.maxTxDescCount io.bounceFails _ (a.slotOf 0)).mpr h)
  obtain ⟨rfl, hslots⟩ := hdone p hend
  obtain ⟨q, hq⟩ : ∃ q, q = (esxJob card dev io skb s).moves + 1 := ⟨_, rfl⟩
  rw [Nat.zero_add, pieceMoves_esxPieces] at hslots hend
  -- the descriptors of the parts
  obtain ⟨pre, hpre⟩ : ∃ pre, pre = .store (a.slotOf 0) :: (pieceEvents a.maxTxDescCount
      io.bounceFails (esxPieces card dev io skb s) (a.slotOf 0)).1 ++ [.store (a.slotOf 0)] :=
    ⟨_, rfl⟩
  have hprestores : ∀ e ∈ pre, ∃ slot, e = .store slot := by
    rw [hpre]
    exact List.forall_mem_append.mpr ⟨List.forall_mem_cons.mpr ⟨⟨_, rfl⟩, hstores⟩,
      List.forall_mem_singleton.mpr ⟨_, rfl⟩⟩
  have hpreslots : ∀ slot, .store slot ∈ pre ↔ ∃ j < q, slot = a.slotOf j := by
    intro slot
    rw [hpre, List.mem_append, List.mem_cons, List.mem_singleton, Event.store.injEq, hslots, hq]
    constructor
    · rintro (⟨j, -, hj, rfl⟩ | rfl)
      · exact ⟨j, by omega, rfl⟩
      · exact ⟨0, by omega, rfl⟩
    · rintro ⟨j, hj, rfl⟩
      exact .inl ⟨j, Nat.zero_le j, by omega, rfl⟩
  rw [esxQueue]
  dsimp only
  rw [hsaved, hend]
  dsimp only
  rw [next_slotOf hprod, ← hq]
  by_cases hlso : lsoPacket dev s
  · -- a packet with headers has no filter behind it
    have hfilter : ¬(io.uaddr && s.protocol = ethPRarp) = true := by
      simp [protocol_ne_of_lso hlin hlso]
    have htotal : (esxJob card dev io skb s).slots = q + headerSlots (lsoHdrLen dev s) := by
      rw [Job.slots, esxJob, if_pos hlso, if_neg hfilter, Nat.add_zero, hq]
      rfl
    rw [forall_prop_of_true hlso, if_pos hlso, copyHeaders_eq hprod, if_neg hfilter, storeSlots]
    have hqueues := @Queues.of_headers s a q (lsoHdrLen dev s) pre hprod (by omega)
      hprestores hpreslots
    rw [hpre] at hqueues
    simpa using hqueues
  · obtain ⟨k, hk⟩ : ∃ k, k = if io.uaddr && s.protocol = ethPRarp then 1 else 0 := ⟨_, rfl⟩
    have htotal : (esxJob card dev io skb s).slots = q + k := by
      rw [Job.slots, esxJob, if_neg hlso, hq, hk]
      rfl
    obtain ⟨hfilter, hfilterStores, hfilterSlots⟩ := storeSlots_spec hprod q k
    rw [if_neg hlso, ← hk, hfilter]
    have hall : ∀ slot, .store slot ∈ pre ++ (storeSlots a.maxTxDescCount (a.slotOf q) k).1 ↔
        ∃ j < q + k, slot = a.slotOf j := by
      intro slot
      rw [List.mem_append, hpreslots, hfilterSlots]
      constructor
      · rintro (⟨j, hj, rfl⟩ | ⟨j, -, hj, rfl⟩)
        · exact ⟨j, by omega, rfl⟩
        · exact ⟨j, hj, rfl⟩
      · rintro ⟨j, hj, rfl⟩
        rcases Nat.lt_or_ge j q with hlt | hge
        · exact .inl ⟨j, hlt, rfl⟩
        · exact .inr ⟨j, hge, hj, rfl⟩
    have hqueues := @Queues.of_stores a _ _ (lsoPacket dev s → HeadersTight s (lsoHdrLen dev s))
      (by omega) (List.forall_mem_append.mpr ⟨hprestores, hfilterStores⟩) hall
      fun h => absurd h hlso
    rw [hpre] at hqueues
    simpa using hqueues

end

/-! ## Every exit -/

section
variable {b : Build} {dev : NetDev} {io : Answers} {skb : EsxSkb} {s : Skb} {a : Adapter}

theorem noOfDesc_room (hcons : a.lastCmdConsumer < a.maxTxDescCount) {k : Nat}
    (hfull : ¬Ring.bound a.maxTxDescCount a.lastCmdConsumer a.cmdProducer ≤
      a.cmdProducer + k + 2) : k + 2 < a.maxTxDescCount := by
  rw [Ring.bound] at hfull
  split at hfull <;> omega

/-- Every part of the packet is mapped and, in the ESX build, bounced where it has to be. -/
def Build.MapsAll (b : Build) (dev : NetDev) (io : Answers) (skb : EsxSkb) (s : Skb) : Prop :=
  match b with
  | .native => Mapped io.toXmitIo s
  | .esx card => ∀ p ∈ esxPieces card dev io skb s, p.mapped = true ∧ io.bounceFails p.frag = false

/-- The packet `s`, which `skb` has become, gets on the ring. -/
structure Build.Sends (b : Build) (dev : NetDev) (io : Answers) (skb : EsxSkb) (s : Skb)
    (a : Adapter) : Prop where
  link : dev.carrierOk = true ∨ dev.loopbackStart = true
  valid : b.validate dev s = true
  room : a.cmdProducer + b.noOfDesc dev skb s + 2 <
    Ring.bound a.maxTxDescCount a.lastCmdConsumer a.cmdProducer
  maps : b.MapsAll dev io skb s

/-- **The condition**: the packet is empty, or there was nothing to pull or it was pulled; and if it
is to be segmented and gets on the ring, its headers fit their slots. -/
def Build.Restores (b : Build) (dev : NetDev) (io : Answers) (skb : EsxSkb) (a : Adapter) : Prop :=
  skb.len = 0 ∨ ∃ s, linearize io.toXmitIo (tagged dev skb.toSkb) skb.toSkb = some s ∧
    (b.Sends dev io skb s a → lsoPacket dev s → HeadersTight s (lsoHdrLen dev s))

/-- Where there is room, the packet is queued, or dropped because a part of it is not mapped. -/
theorem queue_goodExit_iff (hprod : a.cmdProducer < a.maxTxDescCount)
    (hroom : b.noOfDesc dev skb s + 2 < a.maxTxDescCount)
    (h : linearize io.toXmitIo (tagged dev skb.toSkb) skb.toSkb = some s) :
    GoodExit a (.lock :: b.queue dev io skb s a ++ [.unlock], .ok) ↔
      (b.MapsAll dev io skb s → lsoPacket dev s → HeadersTight s (lsoHdrLen dev s)) := by
  by_cases hmaps : b.MapsAll dev io skb s
  · rw [forall_prop_of_true hmaps]
    cases b with
    | native => exact (xmitQueue_queues hprod hroom hmaps).goodExit_iff
    | esx card =>
      have hslots := slots_le dev io.uaddr (Bool.toNat_le (vlanFrag card dev skb s)) h
      exact (esxQueue_queues hprod (Nat.lt_of_le_of_lt hslots hroom) h hmaps).goodExit_iff
  · refine iff_of_true ?_ fun h => absurd h hmaps
    cases b with
    | native => exact (xmitQueue_drops hmaps).goodExit
    | esx card => exact (esxQueue_drops hprod hmaps).goodExit

theorem drop_goodExit {id : Nat} : GoodExit a ([.lock, .kfreeSkb id, .unlock], .ok) :=
  Drops.goodExit ⟨[], id, rfl, fun _ he => absurd he List.not_mem_nil⟩

theorem free_goodExit {id : Nat} : GoodExit a ([.kfreeSkb id], .ok) :=
  ⟨rfl, fun hq => absurd (List.mem_singleton_self _) (hq.2 id), fun _ p => by simp⟩

theorem busy_goodExit : GoodExit a ([.lock, .stopQueue, .unlock], .busy) :=
  ⟨rfl, fun hq => absurd hq.1 (by decide), fun _ p => by simp⟩

end

/-- **All exits but two are good**, in both builds: `drop_packet` unlocks, and the packet whose
fragments could not be pulled comes there without the lock; and a packet whose headers do not fit
is queued with more or fewer descriptors written than the producer passes. -/
theorem exits_iff (b : Build) (dev : NetDev) (io : Answers) (skb : EsxSkb) {a : Adapter}
    (hprod : a.cmdProducer < a.maxTxDescCount) (hcons : a.lastCmdConsumer < a.maxTxDescCount) :
    GoodExit a (xmitEvents b dev io skb a) ↔ b.Restores dev io skb a := by
  rw [xmitEvents, Build.Restores]
  split
  · rename_i hlen
    exact iff_of_true free_goodExit (.inl hlen)
  · rename_i hlen
    rw [or_iff_right hlen]
    cases hlin : linearize io.toXmitIo (tagged dev skb.toSkb) skb.toSkb with
    | none =>
      refine iff_of_false (fun hgood => ?_) ?_
      · exact absurd hgood.lock.symm (Option.some_ne_none _)
      · rintro ⟨s, hs, -⟩
        exact absurd hs.symm (Option.some_ne_none s)
    | some s =>
      have hsome : ∀ {P : Skb → Prop}, (∃ t, some s = some t ∧ P t) ↔ P s :=
        ⟨fun ⟨_, ht, hp⟩ => Option.some.inj ht ▸ hp, fun hp => ⟨s, rfl, hp⟩⟩
      rw [hsome]
      dsimp only
      split
      · rename_i hdown
        refine iff_of_true drop_goodExit fun hsends => ?_
        have hup := hsends.link
        simp only [Bool.and_eq_true, Bool.not_eq_true'] at hdown
        rw [hdown.1, hdown.2] at hup
        exact absurd hup (by decide)
      · rename_i hlink
        split
        · rename_i hinvalid
          refine iff_of_true drop_goodExit fun hsends => ?_
          rw [hsends.valid] at hinvalid
          exact absurd hinvalid Bool.false_ne_true
        · rename_i hvalid
          split
          · rename_i hfull
            exact iff_of_true busy_goodExit fun hsends => absurd hsends.room (not_lt.mpr hfull)
          · rename_i hfree
            have hsends : b.Sends dev io skb s a ↔ b.MapsAll dev io skb s := by
              refine ⟨Build.Sends.maps, fun hmaps => ⟨?_, ?_, not_le.mp hfree, hmaps⟩⟩
              · cases hup : dev.carrierOk with
                | true => exact .inl rfl
                | false =>
                  rw [hup] at hlink
                  exact .inr (by simpa using hlink)
              · simpa using hvalid
            rw [hsends]
            exact queue_goodExit_iff hprod (noOfDesc_room hcons hfree) hlin

/-- Fifteen fragments, which are too many. -/
def manyFragments : EsxSkb :=
  { highSkb 1500 with len := 1500, frags := List.replicate 15 100 }

/-- There is no memory to pull fragments, or to map anything. -/
def noMemory : Answers where
  pullTail := false
  mapSkb := none
  mapPage := fun _ => none
  pagePhys := fun _ => 0

/-- A packet of one part is dropped, since it cannot be mapped; and one that is to be segmented is
queued, with its headers in the last slot of the ring and the first. -/
theorem exits_unmapped :
    GoodExit { maxTxDescCount := 16 } (xmitEvents .native {} noMemory
      { id := 1, len := 60, rarp := by decide } { maxTxDescCount := 16 }) ∧
    GoodExit { maxTxDescCount := 16, cmdProducer := 14, lastCmdConsumer := 14 }
      (xmitEvents .native {} { toXmitIo := pageIo, pagePhys := fun _ => 0 }
        { toSkb := taggedSkb, rarp := by decide }
        { maxTxDescCount := 16, cmdProducer := 14, lastCmdConsumer := 14 }) := by
  constructor
  · refine (exits_iff .native {} noMemory { id := 1, len := 60, rarp := by decide }
      (by decide) (by decide)).mpr (.inr ⟨_, rfl, fun hsends => ?_⟩)
    exact absurd hsends.maps.1 Bool.false_ne_true
  · refine (exits_iff .native {} { toXmitIo := pageIo, pagePhys := fun _ => 0 }
      { toSkb := taggedSkb, rarp := by decide } (by decide) (by decide)).mpr
        (.inr ⟨taggedSkb, rfl, fun _ _ => ?_⟩)
    exact ⟨by decide, by decide, fun _ => by decide⟩

/-- The lock is released by a call that has not taken it. -/
theorem unlocked_without_lock : ¬∀ (b : Build) (dev : NetDev) (io : Answers) (skb : EsxSkb)
    (a : Adapter), a.cmdProducer < a.maxTxDescCount → a.lastCmdConsumer < a.maxTxDescCount →
      GoodExit a (xmitEvents b dev io skb a) := by
  intro h
  have hgood := h .native {} noMemory manyFragments { maxTxDescCount := 16 } (by decide) (by decide)
  exact absurd hgood.lock (by decide)

end Esx
end NxNic

import NxNic.Rx.Status

/-! # Decoding the status ring

The ring holds a sequence of messages, each a list of consecutive descriptors,
from the consumer on (`Holds`).  A message is complete once its first and its last
descriptor are the host's.  `unm_process_rcv_ring` takes complete messages
off its front, in order, until it comes to one whose last descriptor the card
still owns or its budget is used up; it gives back exactly their descriptors and
leaves the rest as it is.

`taken` says which messages those are, by the messages and the budget alone.  The loop
is followed message by message: one round takes the first message, calls its handler
and leaves a ring that holds the others (`Decoded`), where a chained LRO message has
its header given back before its handler sees it (`Message.call`), and the induction is
over what is taken.  `status_ring_decoded` is the result, for rings of any power of two
and messages that go over the end of the ring.
-/
namespace NxNic
namespace Rx

/-! ## Messages -/

/-- A message that takes one slot whatever its `descCnt` says. -/
def isSingle (ops : RcvOpcodes) (d : StatusDesc) : Bool :=
  isRcv ops d || d.opcode = unmMsgtypeNicLroContiguous

/-- The number of descriptors of the message that begins with `d`. -/
def msgLen (ops : RcvOpcodes) (d : StatusDesc) : Nat :=
  if isSingle ops d then 1
  else if d.opcode = unmMsgtypeNicLroChained then d.descCnt.toNat
  else max 1 d.descCnt.toNat

/-- The `descCnt` of a message is one the card writes. -/
def DescCntOk (ops : RcvOpcodes) (d : StatusDesc) : Prop :=
  isSingle ops d = false →
    if d.opcode = unmMsgtypeNicLroChained then 2 ≤ d.descCnt.toNat else d.descCnt.toNat ≤ 5

instance (ops : RcvOpcodes) (d : StatusDesc) : Decidable (DescCntOk ops d) := by
  unfold DescCntOk; infer_instance

/-- A message: its first descriptor, and as many more as that one says. -/
structure Message (ops : RcvOpcodes) where
  first : StatusDesc
  rest : List StatusDesc
  length_rest : rest.length + 1 = msgLen ops first
  descCnt_ok : DescCntOk ops first

namespace Message
variable {ops : RcvOpcodes}

/-- The message's descriptors. -/
def descs (m : Message ops) : List StatusDesc := m.first :: m.rest

theorem descs_ne_nil (m : Message ops) : m.descs ≠ [] := List.cons_ne_nil _ _

/-- The descriptor whose owner says whether the message is there. -/
def last (m : Message ops) : StatusDesc := m.descs.getLast m.descs_ne_nil

/-- Both ends of the message are the host's. -/
def Complete (m : Message ops) : Bool := m.first.hostOwned && m.last.hostOwned

/-- The descriptors between the first and the last. -/
def middle (m : Message ops) : List StatusDesc := m.rest.dropLast

/-- What the handler of the message gets to see. -/
def call (m : Message ops) : Dispatch :=
  if isRcv ops m.first then .rcv m.first
  else if m.first.opcode = unmMsgtypeNicLroContiguous then .lroContiguous m.first
  else if m.first.opcode = unmMsgtypeNicLroChained then .lro m.first.phantom m.middle
  else if 1 < m.first.descCnt.toNat then
    .msg m.first.body0 (m.first.body1 :: m.middle.flatMap fun d => [d.body0, d.body1])
  else .msg m.first.body0 [m.first.body0, m.first.body1]

@[simp] theorem length_descs (m : Message ops) : m.descs.length = msgLen ops m.first :=
  m.length_rest

theorem descs_length_pos (m : Message ops) : 0 < m.descs.length := Nat.succ_pos _

end Message

/-- The descriptors of a sequence of messages. -/
def flat {ops : RcvOpcodes} (msgs : List (Message ops)) : List StatusDesc :=
  msgs.flatMap Message.descs

/-- The ring of `n` slots holds the messages from slot `c` on, and nothing of
the host's after them. -/
structure Holds {ops : RcvOpcodes} (n : Nat) (ring : StatusRing) (c : Nat)
    (msgs : List (Message ops)) : Prop where
  fits : (flat msgs).length ≤ n
  slot : ∀ j (h : j < (flat msgs).length), ring ((c + j) % n) = (flat msgs)[j]
  rest : (flat msgs).length < n → (ring ((c + (flat msgs).length) % n)).hostOwned = false

/-! ## Slots given back -/

/-- The ring after the `k` descriptors from slot `c` on are given back. -/
def markPhantom (n : Nat) (ring : StatusRing) (c k : Nat) : StatusRing := fun s =>
  if ∃ j < k, (c + j) % n = s then (ring s).phantom else ring s

variable {n : Nat} (ring : StatusRing) (c : Nat)

theorem add_mod_ne {i j : Nat} (hij : i < j) (hj : j < n) : (c + i) % n ≠ (c + j) % n := by
  intro h
  have := Ring.eq_of_mod_eq (Nat.add_le_add_left (Nat.le_of_lt hij) c) (by omega) h
  omega

@[simp] theorem markPhantom_zero : markPhantom n ring c 0 = ring := by
  funext s
  exact if_neg fun ⟨j, hj, _⟩ => Nat.not_lt_zero j hj

/-- A slot past those given back is as it was. -/
theorem markPhantom_of_le {j k : Nat} (hkj : k ≤ j) (hj : j < n) :
    markPhantom n ring c k ((c + j) % n) = ring ((c + j) % n) :=
  if_neg fun ⟨_, hi, h⟩ => add_mod_ne c (Nat.lt_of_lt_of_le hi hkj) hj h

theorem markPhantom_of_lt {j k : Nat} (hj : j < k) :
    markPhantom n ring c k ((c + j) % n) = (ring ((c + j) % n)).phantom :=
  if_pos ⟨j, hj, rfl⟩

/-- The next slot is given back. -/
theorem setPhantom_markPhantom {j : Nat} (hj : j < n) :
    setPhantom (markPhantom n ring c j) ((c + j) % n) = markPhantom n ring c (j + 1) := by
  funext s
  unfold setPhantom
  by_cases hs : s = (c + j) % n
  · subst hs
    rw [Function.update_self, markPhantom_of_le ring c (Nat.le_refl j) hj,
      markPhantom_of_lt ring c (Nat.lt_succ_self j)]
  · rw [Function.update_of_ne hs]
    have hiff : (∃ i < j + 1, (c + i) % n = s) ↔ ∃ i < j, (c + i) % n = s := by
      constructor
      · rintro ⟨i, hi, h⟩
        rcases Nat.lt_succ_iff_lt_or_eq.mp hi with hi | rfl
        · exact ⟨i, hi, h⟩
        · exact absurd h.symm hs
      · rintro ⟨i, hi, h⟩
        exact ⟨i, Nat.lt_succ_of_lt hi, h⟩
    simp only [markPhantom, hiff]

/-- Two stretches given back one after the other. -/
theorem markPhantom_add (k l : Nat) (hn : k + l ≤ n) :
    markPhantom n (markPhantom n ring c k) ((c + k) % n) l = markPhantom n ring c (k + l) := by
  induction l with
  | zero => rw [markPhantom_zero, Nat.add_zero]
  | succ l ih =>
    have hslot : ((c + k) % n + l) % n = (c + (k + l)) % n := by
      rw [Nat.mod_add_mod, Nat.add_assoc]
    rw [← setPhantom_markPhantom _ _ (by omega), ih (by omega), hslot,
      setPhantom_markPhantom _ _ (by omega), Nat.add_assoc]

/-! ## One round -/

/-- A mask of a power of two is a remainder. -/
theorem ringIndex_eq {k : Nat} (hn : n = 2 ^ k) (hk : k ≤ 32) (x : Nat) :
    ringIndex n x = x % n := by
  rw [ringIndex, hn, Nat.and_two_pow_sub_one_eq_mod, Nat.mod_mod_of_dvd]
  exact Nat.pow_dvd_pow 2 hk

/-- The middle descriptors are read as they are, and given back. -/
theorem takeMiddle_eq (hidx : ∀ x, ringIndex n x = x % n) (k j : Nat) (hj : j + 1 + k ≤ n) :
    takeMiddle n k (markPhantom n ring c (j + 1)) ((c + j) % n) =
      (markPhantom n ring c (j + 1 + k), (c + (j + k)) % n,
        (List.range k).map fun i => ring ((c + (j + 1 + i)) % n)) := by
  induction k generalizing j with
  | zero => rfl
  | succ k ih =>
    have hnext : ringIndex n ((c + j) % n + 1) = (c + (j + 1)) % n := by
      rw [hidx, Nat.mod_add_mod, Nat.add_assoc]
    simp only [takeMiddle, hnext]
    rw [setPhantom_markPhantom _ _ (by omega), ih (j + 1) (by omega),
      markPhantom_of_le _ _ (Nat.le_refl _) (by omega), List.range_succ_eq_map, List.map_cons,
      List.map_map]
    refine Prod.ext (by simp only; congr 1; omega) (Prod.ext (by simp only; congr 2; omega) ?_)
    simp only [Nat.add_zero, List.cons.injEq, true_and]
    refine List.map_congr_left fun i _ => ?_
    simp only [Function.comp_apply]
    congr 2
    omega

variable {ops : RcvOpcodes}

/-- The ring holds the descriptors of `m` from slot `c` on. -/
def HoldsMsg (n : Nat) (ring : StatusRing) (c : Nat) (m : Message ops) : Prop :=
  ∀ j (h : j < m.descs.length), ring ((c + j) % n) = m.descs[j]

/-- The middle of a message with at least two descriptors, slot by slot. -/
theorem Message.middle_eq {ring : StatusRing} {c : Nat} (m : Message ops) (h : HoldsMsg n ring c m)
    (hlen : 2 ≤ m.descs.length) :
    (List.range (m.descs.length - 2)).map (fun i => ring ((c + (0 + 1 + i)) % n)) = m.middle := by
  apply List.ext_getElem
  · simp only [List.length_map, List.length_range, Message.middle, List.length_dropLast,
      Message.descs, List.length_cons]
    omega
  · intro i h1 h2
    simp only [List.length_map, List.length_range] at h1
    rw [List.getElem_map, List.getElem_range, h (0 + 1 + i) (by omega)]
    simp only [Message.middle, List.getElem_dropLast, Message.descs,
      Nat.zero_add, Nat.add_comm 1 i, List.getElem_cons_succ]

/-- The end of a message of `k` descriptors. -/
theorem finish_eq (hidx : ∀ x, ringIndex n x = x % n) {k : Nat} (hk : k < n) (call : Dispatch) :
    Round.finish n (markPhantom n ring c k) ((c + k) % n) call =
      .dispatch (markPhantom n ring c (k + 1)) ((c + (k + 1)) % n) call := by
  rw [Round.finish, setPhantom_markPhantom _ _ hk, hidx, Nat.mod_add_mod, Nat.add_assoc]

/-- A message of one descriptor is given back. -/
theorem finish_one {ring : StatusRing} {c : Nat} (hidx : ∀ x, ringIndex n x = x % n) (hc : c < n)
    (call : Dispatch) : Round.finish n ring c call =
      .dispatch (markPhantom n ring c 1) ((c + 1) % n) call := by
  have hfinish := finish_eq ring c hidx (by omega : 0 < n) call
  rwa [markPhantom_zero, Nat.add_zero, Nat.mod_eq_of_lt hc] at hfinish

namespace HoldsMsg
variable {ring : StatusRing} {c : Nat} {m : Message ops}

theorem first (h : HoldsMsg n ring c m) (hc : c < n) : ring c = m.first := by
  have hslot := h 0 m.descs_length_pos
  rwa [Nat.add_zero, Nat.mod_eq_of_lt hc] at hslot

theorem last (h : HoldsMsg n ring c m) :
    ring ((c + (m.descs.length - 1)) % n) = m.last := by
  rw [h _ (by have := m.descs_length_pos; omega), Message.last, List.getLast_eq_getElem]

/-- **A message of at least two descriptors** is read and given back. -/
theorem many (h : HoldsMsg n ring c m) (hidx : ∀ x, ringIndex n x = x % n) (hc : c < n)
    (hfit : m.descs.length ≤ n) (h2 : 2 ≤ m.descs.length)
    (call : StatusRing → List StatusDesc → Dispatch) :
    Round.many n ring c (m.descs.length - 2) call =
      .dispatch (markPhantom n ring c m.descs.length) ((c + m.descs.length) % n)
        (call (markPhantom n ring c (m.descs.length - 1)) m.middle) := by
  have hslot : (c + 0) % n = c := Nat.mod_eq_of_lt hc
  have hmark : setPhantom ring c = markPhantom n ring c 1 := by
    have hnext := setPhantom_markPhantom ring c (by omega : 0 < n)
    rwa [markPhantom_zero, hslot] at hnext
  have hmid := takeMiddle_eq ring c hidx (m.descs.length - 2) 0 (by omega)
  rw [hslot, m.middle_eq h h2, Nat.zero_add] at hmid
  simp only [Round.many, hmark, hmid, hidx, Nat.mod_add_mod]
  have hidx1 : 1 + (m.descs.length - 2) = m.descs.length - 1 := by omega
  have hidx2 : c + (0 + (m.descs.length - 2)) + 1 = c + (m.descs.length - 1) := by omega
  have hidx3 : m.descs.length - 1 + 1 = m.descs.length := by omega
  rw [hidx1, hidx2, finish_eq _ _ hidx (by omega), hidx3]

/-- A chained LRO message. -/
theorem lroRound (h : HoldsMsg n ring c m) (hidx : ∀ x, ringIndex n x = x % n)
    (hdvd : n ∣ 2 ^ 32) (hc : c < n) (hfit : m.descs.length ≤ n)
    (hlen : m.descs.length = m.first.descCnt.toNat) (h2 : 2 ≤ m.first.descCnt.toNat) :
    lroChainedRound n ring c =
      if m.last.hostOwned then
        .dispatch (markPhantom n ring c m.descs.length) ((c + m.descs.length) % n)
          (.lro m.first.phantom m.middle)
      else .stopLro := by
  have hfirst := h.first hc
  -- the source adds `descCnt - 1` as an unsigned number, which wraps around
  have hwrap : ringIndex n (c + m.first.descCnt.toNat + (2 ^ 32 - 1)) =
      (c + (m.descs.length - 1)) % n := by
    rw [hidx, hlen]
    have hsum : c + m.first.descCnt.toNat + (2 ^ 32 - 1) =
        c + (m.first.descCnt.toNat - 1) + 2 ^ 32 := by omega
    rw [hsum, Nat.add_mod, Nat.mod_eq_zero_of_dvd hdvd, Nat.add_zero, Nat.mod_mod]
  -- the header slot was given back before the handler reads it
  have hback : markPhantom n ring c (m.descs.length - 1) c = m.first.phantom := by
    have hgone := markPhantom_of_lt (n := n) ring c (by omega : 0 < m.descs.length - 1)
    rwa [Nat.add_zero, Nat.mod_eq_of_lt hc, hfirst] at hgone
  unfold lroChainedRound
  simp only [hfirst]
  rw [hwrap, h.last]
  cases m.last.hostOwned with
  | false => rfl
  | true =>
    have hmany := h.many hidx hc hfit (hlen ▸ h2) fun r l => .lro (r c) l
    rw [hback, hlen] at hmany
    rw [hlen]
    exact hmany

/-- Any other message. -/
theorem otherRound (h : HoldsMsg n ring c m) (hidx : ∀ x, ringIndex n x = x % n) (hc : c < n)
    (hfit : m.descs.length ≤ n) (hlen : m.descs.length = max 1 m.first.descCnt.toNat)
    (hown : m.first.hostOwned = true) :
    msgRound n ring c =
      if m.last.hostOwned then
        .dispatch (markPhantom n ring c m.descs.length) ((c + m.descs.length) % n)
          (if 1 < m.first.descCnt.toNat then
            .msg m.first.body0 (m.first.body1 :: m.middle.flatMap fun d => [d.body0, d.body1])
          else .msg m.first.body0 [m.first.body0, m.first.body1])
      else .stop := by
  have hfirst := h.first hc
  unfold msgRound
  simp only [hfirst]
  by_cases hext : 1 < m.first.descCnt.toNat
  · have hcnt : m.descs.length = m.first.descCnt.toNat := by omega
    have hwrap : ringIndex n (c + m.first.descCnt.toNat - 1) =
        (c + (m.descs.length - 1)) % n := by
      rw [hidx, hcnt, Nat.add_sub_assoc (Nat.le_of_lt hext)]
    rw [if_pos hext, if_pos hext, hwrap, h.last]
    cases m.last.hostOwned with
    | false => rfl
    | true =>
      have hmany := h.many hidx hc hfit (hcnt ▸ hext) fun _ l =>
        .msg m.first.body0 (m.first.body1 :: l.flatMap fun d => [d.body0, d.body1])
      rw [hcnt] at hmany
      rw [hcnt]
      exact hmany
  · have hone : m.descs.length = 1 := by omega
    have hlast : m.last = m.first := by
      rw [← h.last, hone, ← hfirst, Nat.sub_self, Nat.add_zero, Nat.mod_eq_of_lt hc]
    rw [if_neg hext, if_neg hext, hlast, hown, if_pos rfl, hone, finish_one hidx hc]

end HoldsMsg

/-- **One round** at a message: it is handed to its handler and given back, if
both of its ends are the host's. -/
theorem rcvRound_eq {ring : StatusRing} {c : Nat} (hidx : ∀ x, ringIndex n x = x % n)
    (hdvd : n ∣ 2 ^ 32) (hc : c < n)
    {m : Message ops} (h : HoldsMsg n ring c m) (hfit : m.descs.length ≤ n) :
    if m.Complete then
      rcvRound ops n ring c = .dispatch (markPhantom n ring c m.descs.length)
        ((c + m.descs.length) % n) m.call
    else rcvRound ops n ring c = .stop ∨ rcvRound ops n ring c = .stopLro := by
  have hfirst := h.first hc
  have hlen := m.length_descs
  unfold rcvRound
  simp only [hfirst]
  by_cases hown : m.first.hostOwned = true
  · simp only [hown, Bool.not_true, Bool.false_eq_true, if_false]
    by_cases hsingle : isSingle ops m.first = true
    -- one descriptor, whatever `descCnt` says: the first is the last
    · have hlen1 : m.descs.length = 1 := by rw [hlen, msgLen, if_pos hsingle]
      have hcomplete : m.Complete = true := by
        have hlast : m.last = m.first := by
          rw [← h.last, hlen1, ← hfirst, Nat.sub_self, Nat.add_zero, Nat.mod_eq_of_lt hc]
        rw [Message.Complete, hlast, hown, Bool.and_self]
      rw [if_pos hcomplete, hlen1]
      unfold Message.call
      by_cases hrcv : isRcv ops m.first = true
      · rw [if_pos hrcv, if_pos hrcv, finish_one hidx hc]
      · have hlro : m.first.opcode = unmMsgtypeNicLroContiguous := by
          simpa [isSingle, hrcv] using hsingle
        rw [if_neg hrcv, if_neg hrcv, if_pos hlro, if_pos hlro, finish_one hidx hc]
    · have hboth : ¬ isRcv ops m.first = true ∧ m.first.opcode ≠ unmMsgtypeNicLroContiguous := by
        simpa [isSingle, not_or] using hsingle
      have hcnt := m.descCnt_ok (by simpa using hsingle)
      rw [if_neg hboth.1, if_neg hboth.2]
      rw [msgLen, if_neg hsingle] at hlen
      unfold Message.Complete Message.call
      rw [if_neg hboth.1, if_neg hboth.2, hown, Bool.true_and]
      by_cases hlro : m.first.opcode = unmMsgtypeNicLroChained
      · rw [if_pos hlro] at hlen hcnt
        rw [if_pos hlro, if_pos hlro, h.lroRound hidx hdvd hc hfit hlen hcnt]
        split
        · rfl
        · exact Or.inr rfl
      · rw [if_neg hlro] at hlen
        rw [if_neg hlro, if_neg hlro, h.otherRound hidx hc hfit hlen hown]
        split
        · rfl
        · exact Or.inl rfl
  · have hno : m.Complete = false := by
      rw [Message.Complete]
      simp [hown]
    rw [hno]
    simp [hown]

/-! ## The whole call -/

theorem flat_cons (m : Message ops) (msgs : List (Message ops)) :
    flat (m :: msgs) = m.descs ++ flat msgs := List.flatMap_cons

/-- The front message of the ring. -/
theorem Holds.front {ring : StatusRing} {c : Nat} {m : Message ops} {msgs : List (Message ops)}
    (h : Holds n ring c (m :: msgs)) : HoldsMsg n ring c m ∧ m.descs.length ≤ n := by
  have hlen : (flat (m :: msgs)).length = m.descs.length + (flat msgs).length := by
    rw [flat_cons, List.length_append]
  refine ⟨fun j hj => ?_, by have := h.fits; omega⟩
  rw [h.slot j (by omega)]
  simp only [flat_cons]
  rw [List.getElem_append_left hj]

/-- When the front message is given back, the others are as before, and what
follows them is not the host's. -/
theorem Holds.tail {ring : StatusRing} {c : Nat} {m : Message ops} {msgs : List (Message ops)}
    (h : Holds n ring c (m :: msgs)) :
    Holds n (markPhantom n ring c m.descs.length) ((c + m.descs.length) % n) msgs := by
  have hlen : (flat (m :: msgs)).length = m.descs.length + (flat msgs).length := by
    rw [flat_cons, List.length_append]
  have hpos := m.descs_length_pos
  have hfits := h.fits
  refine ⟨by omega, fun j hj => ?_, fun hlt => ?_⟩
  · rw [Nat.mod_add_mod, Nat.add_assoc, markPhantom_of_le _ _ (Nat.le_add_right _ _) (by omega),
      h.slot _ (by omega)]
    simp only [flat_cons]
    rw [List.getElem_append_right (Nat.le_add_right _ _)]
    simp only [Nat.add_sub_cancel_left]
  · rw [Nat.mod_add_mod, Nat.add_assoc]
    rcases Nat.lt_or_eq_of_le hfits with hroom | hfull
    · rw [markPhantom_of_le _ _ (Nat.le_add_right _ _) (by omega), ← hlen]
      exact h.rest hroom
    -- the messages fill the ring, so the next slot is the one just given back
    · have hlap : (c + (m.descs.length + (flat msgs).length)) % n = (c + 0) % n := by
        rw [← hlen, hfull, Nat.add_zero, Nat.add_mod_right]
      rw [hlap, markPhantom_of_lt _ _ hpos]
      exact StatusDesc.hostOwned_phantom _

/-- The messages a call takes: the complete ones at the front, as many as the
budget allows. -/
def taken (max : Nat) (msgs : List (Message ops)) : List (Message ops) :=
  (msgs.takeWhile Message.Complete).take max

theorem taken_of_append (max : Nat) (msgs : List (Message ops)) : taken max msgs <+: msgs :=
  (List.take_prefix _ _).trans (List.takeWhile_prefix _)

/-- What a call that took the messages `t` off the front of `msgs` has done. -/
structure Decoded (n : Nat) (ring : StatusRing) (c count : Nat) (msgs t : List (Message ops))
    (r : RcvResult) : Prop where
  calls : r.calls = t.map Message.call
  ring : r.ring = markPhantom n ring c (flat t).length
  consumer : r.consumer = (c + (flat t).length) % n
  rest : Holds n r.ring r.consumer (msgs.drop t.length)
  count : r.count = 0 ↔ count + t.length = 0

theorem Decoded.nil {ring : StatusRing} {c count k : Nat} {msgs : List (Message ops)}
    (h : Holds n ring c msgs) (hc : c < n) (hk : k = 0 ↔ count = 0) :
    Decoded n ring c count msgs [] ⟨ring, c, k, []⟩ :=
  ⟨rfl, markPhantom_zero ring c |>.symm, (Nat.mod_eq_of_lt hc).symm, h, hk⟩

/-- The front message, and then the others. -/
theorem Decoded.cons {ring : StatusRing} {c count : Nat} {m : Message ops}
    {msgs t : List (Message ops)} {r : RcvResult} (ht : t <+: msgs)
    (hfits : (flat (m :: msgs)).length ≤ n)
    (h : Decoded n (markPhantom n ring c m.descs.length) ((c + m.descs.length) % n) (count + 1)
      msgs t r) :
    Decoded n ring c count (m :: msgs) (m :: t) { r with calls := m.call :: r.calls } := by
  have htotal : m.descs.length + (flat t).length ≤ n := by
    obtain ⟨u, rfl⟩ := ht
    simp only [flat, List.flatMap_cons, List.flatMap_append, List.length_append] at hfits ⊢
    omega
  refine ⟨by rw [List.map_cons, ← h.calls], ?_, ?_, h.rest, ?_⟩
  · rw [flat_cons, List.length_append, ← markPhantom_add _ _ _ _ htotal]
    exact h.ring
  · rw [flat_cons, List.length_append, ← Nat.add_assoc, ← Nat.mod_add_mod]
    exact h.consumer
  · have := h.count
    simp only [List.length_cons]
    omega

/-- The loop, by induction on the budget. -/
theorem rcvLoop_spec (hidx : ∀ x, ringIndex n x = x % n) (hdvd : n ∣ 2 ^ 32) (max : Nat)
    {ring : StatusRing} {c : Nat} (hc : c < n) (count : Nat) {msgs : List (Message ops)}
    (h : Holds n ring c msgs) :
    Decoded n ring c count msgs (taken max msgs) (rcvLoop ops n max ring c count) := by
  induction max generalizing ring c count msgs with
  | zero =>
    rw [taken, List.take_zero]
    exact Decoded.nil h hc Iff.rfl
  | succ max ih =>
    unfold rcvLoop
    cases msgs with
    | nil =>
      have hstop : rcvRound ops n ring c = .stop := by
        have hno := h.rest (Nat.lt_of_le_of_lt (Nat.zero_le c) hc)
        have hno : (ring (c % n)).hostOwned = false := hno
        rw [Nat.mod_eq_of_lt hc] at hno
        simp [rcvRound, hno]
      rw [hstop, taken, List.takeWhile_nil, List.take_nil]
      exact Decoded.nil h hc Iff.rfl
    | cons m msgs =>
      obtain ⟨hmsg, hfit⟩ := h.front
      have hround := rcvRound_eq hidx hdvd hc hmsg hfit
      by_cases hcomplete : m.Complete = true
      · rw [if_pos hcomplete] at hround
        have htaken : taken (max + 1) (m :: msgs) = m :: taken max msgs := by
          rw [taken, List.takeWhile_cons_of_pos hcomplete, List.take_succ_cons, taken]
        rw [hround, htaken]
        exact Decoded.cons (taken_of_append max msgs) h.fits
          (ih (Nat.mod_lt _ (by omega)) (count + 1) h.tail)
      · rw [if_neg hcomplete] at hround
        have htaken : taken (max + 1) (m :: msgs) = [] := by
          rw [taken, List.takeWhile_cons_of_neg hcomplete, List.take_nil]
        rw [htaken]
        rcases hround with hround | hround <;> rw [hround]
        · exact Decoded.nil h hc Iff.rfl
        · refine Decoded.nil h hc ?_
          split <;> omega

/-- **Decoding the status ring.**  A call hands the complete messages at the
front of the ring, as many as its budget allows, each to its handler, once and
in ring order; it gives back their descriptors and no others, and moves the
consumer past them.  The ring then holds the other messages as before.  A
handler gets its message's own words, but for the owner of the header descriptor
of a chained LRO message, which has been given back by then (`Message.call`). -/
theorem status_ring_decoded {k : Nat} (hn : n = 2 ^ k) (hk : k ≤ 32) {ring : StatusRing}
    {c : Nat} (hc : c < n) (max : Nat) {msgs : List (Message ops)} (h : Holds n ring c msgs) :
    let r := unmProcessRcvRing ops n ring c max
    r.calls = (taken max msgs).map Message.call ∧
      r.ring = markPhantom n ring c (flat (taken max msgs)).length ∧
      r.consumer = (c + (flat (taken max msgs)).length) % n ∧
      Holds n r.ring r.consumer (msgs.drop (taken max msgs).length) := by
  have hdvd : n ∣ 2 ^ 32 := hn ▸ Nat.pow_dvd_pow 2 hk
  have hloop := rcvLoop_spec (ringIndex_eq hn hk) hdvd max hc 0 h
  unfold unmProcessRcvRing
  simp only
  by_cases hzero : (rcvLoop ops n max ring c 0).count = 0
  · have hnone : taken max msgs = [] := by
      apply List.eq_nil_of_length_eq_zero
      have := hloop.count.mp hzero
      omega
    have hsame : (rcvLoop ops n max ring c 0).consumer = c := by
      rw [hloop.consumer, hnone]
      exact Nat.mod_eq_of_lt hc
    rw [if_pos hzero]
    refine ⟨hloop.calls, hloop.ring, ?_, ?_⟩
    · rw [← hloop.consumer, hsame]
    · have := hloop.rest
      rwa [hsame] at this
  · rw [if_neg hzero]
    exact ⟨hloop.calls, hloop.ring, hloop.consumer, hloop.rest⟩

/-- A descriptor of the host's, with the given opcode and `descCnt`. -/
def hostDesc (opcode : BitVec 6) (descCnt : BitVec 3) : StatusDesc :=
  ⟨opcode ++ statusOwnerHost ++ descCnt ++ 0#53, 0⟩

/-- A chained LRO message of three descriptors in the last slots of a ring of
eight and the first one. -/
def lroMessage : Message {} :=
  ⟨hostDesc unmMsgtypeNicLroChained 3, [hostDesc 0 0, hostDesc 0 0], by decide, by decide⟩

def lroRing : StatusRing := fun s =>
  if s = 6 then lroMessage.first else if s = 7 ∨ s = 0 then hostDesc 0 0 else ⟨0, 0⟩

theorem lroRing_holds : Holds 8 lroRing 6 [lroMessage] :=
  ⟨by decide, by decide, fun _ => by decide⟩

theorem status_ring_decoded_lro :
    (unmProcessRcvRing {} 8 lroRing 6 64).calls = [lroMessage.call] :=
  (status_ring_decoded (k := 3) rfl (by decide) (by decide) 64 lroRing_holds).1

/-- The handler of a chained LRO message does not see the header word the card
wrote. -/
theorem lro_header_given_back :
    ∃ h ∈ (unmProcessRcvRing {} 8 lroRing 6 64).calls.head?,
      h = .lro lroMessage.first.phantom lroMessage.middle ∧
      lroMessage.first.phantom.body0 ≠ lroMessage.first.body0 := by
  decide

end Rx
end NxNic

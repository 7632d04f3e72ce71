import NxNic.Rx.Decode
import NxNic.Rx.Handlers

/-! # Array bounds on the receive path

A call of `unm_process_rcv_ring` over a status ring of any content, with its handlers:
the ring and the consumer go from round to round, and the receive context (`RxCtx`)
from handler to handler.  Every index that a handler takes from a status descriptor is
logged (`RxCtx.log`), whether or not it is inside the array.

`Access.InBounds` is the property of an entry of the log, and `Taken.Own` that of a
message the loop takes: it gives back no more than its own descriptors.  For each
handler the log stays in bounds if and only if the descriptor passes a test (`DescOk`)
that says exactly which checks the handler lacks: the buffer after the last one, the
handles of the LRO messages, a chained message without packets, and a message of more
descriptors than a handler's array has.

There is one lemma for each handler, in both directions.  A call is a sequence of
rounds, each with the state its handler is called in (`EveryRound`), and
`status_ring_in_bounds_iff` puts the handlers together over them.
-/
namespace NxNic
namespace Rx
variable (cfg : RxCfg)

/-! ## Accesses in bounds -/

/-- The index is inside the array. -/
def Access.InBounds : Access → Prop
  | .rxBufArr ring index => index < cfg.ringSize ring
  | .accumulation index => 0 ≤ index ∧ index < nxMaxPktsPerLro
  | .bufsize index => index < nx1kPerLro
  | .descList index => index < 5
  | .msgValues index => index < 7

instance (a : Access) : Decidable (a.InBounds cfg) := by
  cases a <;> unfold Access.InBounds <;> infer_instance

/-- All accesses so far were in bounds. -/
def LogOk (ctx : RxCtx) : Prop := ∀ a ∈ ctx.log, a.InBounds cfg

variable {cfg}

theorem logOk_of_log_eq {ctx ctx' : RxCtx} {l : List Access} (h : ctx'.log = ctx.log ++ l) :
    LogOk cfg ctx' ↔ LogOk cfg ctx ∧ ∀ a ∈ l, a.InBounds cfg := by
  unfold LogOk
  rw [h]
  exact List.forall_mem_append

theorem logOk_touch (ctx : RxCtx) (a : Access) :
    LogOk cfg (ctx.touch a) ↔ LogOk cfg ctx ∧ a.InBounds cfg := by
  rw [logOk_of_log_eq (rfl : (ctx.touch a).log = ctx.log ++ [a]), List.forall_mem_singleton]

/-- `process_rxbuffer` indexes `rx_buf_arr` once. -/
theorem processRxbuffer_log (s : Nat) (ctx : RxCtx) (ring index : Nat) :
    (processRxbuffer cfg s ctx ring index).1.log = ctx.log ++ [.rxBufArr ring index] := by
  unfold processRxbuffer
  simp only
  split <;> rfl

theorem logOk_processRxbuffer (s : Nat) (ctx : RxCtx) (ring index : Nat) :
    LogOk cfg (processRxbuffer cfg s ctx ring index).1 ↔
      LogOk cfg ctx ∧ index < cfg.ringSize ring := by
  rw [logOk_of_log_eq (processRxbuffer_log s ctx ring index), List.forall_mem_singleton]
  rfl

theorem logOk_repost (s : Nat) (ctx : RxCtx) (ring index : Nat) :
    LogOk cfg (repost s ctx ring index) ↔ LogOk cfg ctx ∧ index < cfg.ringSize ring :=
  logOk_touch ctx (.rxBufArr ring index)

/-! ## The handlers -/

/-- The check of `unm_process_rcv` lets one index too many through. -/
theorem logOk_unmProcessRcv (s : Nat) (ctx : RxCtx) (desc : StatusDesc) :
    LogOk cfg (unmProcessRcv cfg s ctx desc) ↔
      LogOk cfg ctx ∧
        ¬ (rcvDescCtx desc < cfg.maxRdsRings ∧ rcvIndex desc = cfg.ringSize (rcvDescCtx desc)) := by
  unfold unmProcessRcv
  simp only
  by_cases hring : cfg.maxRdsRings ≤ rcvDescCtx desc
  · rw [if_pos hring]
    exact (and_iff_left fun h => absurd h.1 (by omega)).symm
  · by_cases hindex : cfg.ringSize (rcvDescCtx desc) < rcvIndex desc
    · rw [if_neg hring, if_pos hindex]
      exact (and_iff_left fun h => absurd h.2 (by omega)).symm
    · -- past the checks the index is at most the size of the ring
      have hiff : rcvIndex desc < cfg.ringSize (rcvDescCtx desc) ↔
          ¬ (rcvDescCtx desc < cfg.maxRdsRings ∧
            rcvIndex desc = cfg.ringSize (rcvDescCtx desc)) := by
        omega
      rw [if_neg hring, if_neg hindex, ← hiff]
      split
      · exact logOk_repost s ctx _ _
      · exact logOk_processRxbuffer s ctx _ _

/-- `unm_process_lro_contiguous` checks the handle only when buffers are low. -/
theorem logOk_unmProcessLroContiguous (s : Nat) (ctx : RxCtx) (desc : StatusDesc) :
    LogOk cfg (unmProcessLroContiguous cfg s ctx desc) ↔
      LogOk cfg ctx ∧ (desc.lro2Type = 1 → lowOnBuffers cfg ctx 1 = false →
        desc.lro2RefHandle.toNat < cfg.ringSize 1) := by
  have htype : desc.lro2Type.toNat ≠ 1 ↔ desc.lro2Type ≠ 1 :=
    not_congr (BitVec.toNat_inj (y := (1 : BitVec 3)))
  have hsize : (Access.bufsize (min (desc.lro2Length.toNat >>> 10) (nx1kPerLro - 1))).InBounds
      cfg := by
    show _ < nx1kPerLro
    unfold nx1kPerLro
    omega
  unfold unmProcessLroContiguous
  simp only
  by_cases h : desc.lro2Type = 1
  · rw [if_neg (by rw [htype]; exact not_not.mpr h)]
    have hctx : desc.lro2Type.toNat = 1 := by rw [h]; rfl
    have htouch : LogOk cfg (ctx.touch (.bufsize (min (desc.lro2Length.toNat >>> 10)
        (nx1kPerLro - 1)))) ↔ LogOk cfg ctx := (logOk_touch ctx _).trans (and_iff_left hsize)
    have hlow : lowOnBuffers cfg (ctx.touch (.bufsize (min (desc.lro2Length.toNat >>> 10)
        (nx1kPerLro - 1)))) 1 = lowOnBuffers cfg ctx 1 := rfl
    rw [hctx, hlow]
    cases lowOnBuffers cfg ctx 1 with
    | false =>
      rw [if_neg (by decide), logOk_processRxbuffer, htouch]
      simp only [h, forall_const]
    | true =>
      rw [if_pos rfl]
      -- low on buffers: here the handle is checked before it is used
      simp only [Bool.true_eq_false, false_implies, implies_true, and_true]
      split
      · exact htouch
      · rw [logOk_repost, htouch]
        exact and_iff_left (by omega)
  · rw [if_pos (htype.mpr h)]
    exact (and_iff_left fun h' => absurd h' h).symm

/-- The fragments of a chained LRO message are checked. -/
theorem logOk_lroLoop (s descCtx : Nat) (handles : List Nat) (nrSkbs : Int) (ctx : RxCtx) :
    LogOk cfg (lroLoop cfg s descCtx handles nrSkbs ctx) ↔ LogOk cfg ctx := by
  induction handles generalizing nrSkbs ctx with
  | nil => exact Iff.rfl
  | cons refHandle rest ih =>
    unfold lroLoop
    by_cases hdone : nrSkbs = 0
    · rw [if_pos hdone]
    · by_cases hbad : cfg.ringSize descCtx ≤ refHandle
      · rw [if_neg hdone, if_pos hbad]
      · rw [if_neg hdone, if_neg hbad]
        have hone : LogOk cfg (processRxbuffer cfg s ctx descCtx refHandle).1 ↔ LogOk cfg ctx :=
          (logOk_processRxbuffer s ctx descCtx refHandle).trans (and_iff_left (by omega))
        simp only
        split
        · exact hone
        · exact (ih _ _).trans hone

/-- `unm_process_lro` checks neither that the count is positive nor the handle
of the first packet. -/
theorem logOk_unmProcessLro (s : Nat) (ctx : RxCtx) (desc : StatusDesc)
    (descList : List StatusDesc) :
    LogOk cfg (unmProcessLro cfg s ctx desc descList) ↔
      LogOk cfg ctx ∧ (desc.lroType = 0 →
        desc.lroCount ≠ 0 ∧ desc.lroRefHandle.toNat < cfg.ringSize 0) := by
  have htype : desc.lroType.toNat ≠ 0 ↔ desc.lroType ≠ 0 :=
    not_congr (BitVec.toNat_inj (y := (0 : BitVec 4)))
  have hcount : desc.lroCount ≠ 0 ↔ 0 < desc.lroCount.toNat := by
    rw [Nat.pos_iff_ne_zero]
    exact (not_congr (BitVec.toNat_inj (y := (0 : BitVec 8)))).symm
  unfold unmProcessLro
  simp only
  by_cases h : desc.lroType = 0
  · have hctx : desc.lroType.toNat = 0 := by rw [h]; rfl
    rw [if_neg (by rw [htype]; exact not_not.mpr h), hctx]
    -- the statistics are indexed with the count less one
    have hstat : LogOk cfg (if desc.lroCount.toNat ≤ nxMaxPktsPerLro then
        ctx.touch (.accumulation (desc.lroCount.toNat - 1)) else ctx) ↔
        LogOk cfg ctx ∧ desc.lroCount ≠ 0 := by
      rw [hcount]
      by_cases hmany : desc.lroCount.toNat ≤ nxMaxPktsPerLro
      · rw [if_pos hmany, logOk_touch]
        refine and_congr_right fun _ => ?_
        show (0 : Int) ≤ _ ∧ _ < (nxMaxPktsPerLro : Int) ↔ _
        omega
      · rw [if_neg hmany]
        exact (and_iff_left (by omega)).symm
    have hhead := (logOk_processRxbuffer s (if desc.lroCount.toNat ≤ nxMaxPktsPerLro then
        ctx.touch (.accumulation (desc.lroCount.toNat - 1)) else ctx) 0
        desc.lroRefHandle.toNat).trans (and_congr_left' hstat)
    simp only [h, forall_const, ← and_assoc]
    split
    · exact hhead
    · exact (logOk_lroLoop _ _ _ _ _).trans hhead
  · rw [if_pos (htype.mpr h)]
    exact (and_iff_left fun h' => absurd h' h).symm

/-! ## One message -/

variable {ops : RcvOpcodes}

variable (cfg ops) in
/-- The descriptor at the front of the ring does not exploit a missing check. -/
def DescOk (ctx : RxCtx) (d : StatusDesc) : Prop :=
  if isRcv ops d then
    ¬ (rcvDescCtx d < cfg.maxRdsRings ∧ rcvIndex d = cfg.ringSize (rcvDescCtx d))
  else if d.opcode = unmMsgtypeNicLroContiguous then
    d.lro2Type = 1 → lowOnBuffers cfg ctx 1 = false → d.lro2RefHandle.toNat < cfg.ringSize 1
  else if d.opcode = unmMsgtypeNicLroChained then
    2 ≤ d.descCnt.toNat ∧
      (d.lroType = 0 → d.lroCount ≠ 0 ∧ d.lroRefHandle.toNat < cfg.ringSize 0)
  else d.descCnt.toNat ≤ 5

instance (ctx : RxCtx) (d : StatusDesc) : Decidable (DescOk cfg ops ctx d) := by
  unfold DescOk; infer_instance

theorem DescOk.descCntOk {ctx : RxCtx} {d : StatusDesc} (h : DescOk cfg ops ctx d) :
    DescCntOk ops d := by
  intro hsingle
  obtain ⟨hrcv, hlro⟩ : ¬ isRcv ops d = true ∧ d.opcode ≠ unmMsgtypeNicLroContiguous := by
    simpa [isSingle, not_or] using hsingle
  rw [DescOk, if_neg hrcv, if_neg hlro] at h
  by_cases hchained : d.opcode = unmMsgtypeNicLroChained
  · rw [if_pos hchained] at h ⊢
    exact h.1
  · rw [if_neg hchained] at h ⊢
    exact h

/-- The message that begins at slot `c`, whatever the slots hold. -/
def Message.ofRing (n : Nat) (ring : StatusRing) (c : Nat) (h : DescCntOk ops (ring c)) :
    Message ops where
  first := ring c
  rest := (List.range (msgLen ops (ring c) - 1)).map fun j => ring ((c + (j + 1)) % n)
  length_rest := by
    rw [List.length_map, List.length_range]
    have : 1 ≤ msgLen ops (ring c) := by
      unfold msgLen
      unfold DescCntOk at h
      by_cases hs : isSingle ops (ring c) = true
      · rw [if_pos hs]
      · rw [if_neg hs]
        have h := h (by simpa using hs)
        split
        · rename_i hchained
          rw [if_pos hchained] at h
          omega
        · exact le_max_left _ _
    omega
  descCnt_ok := h

theorem Message.holds_ofRing {n c : Nat} (hc : c < n) (ring : StatusRing)
    (h : DescCntOk ops (ring c)) : HoldsMsg n ring c (Message.ofRing n ring c h) := by
  intro j hj
  cases j with
  | zero =>
    rw [Nat.add_zero, Nat.mod_eq_of_lt hc]
    rfl
  | succ j => simp [Message.descs, Message.ofRing]

theorem msgLen_le (ops : RcvOpcodes) (d : StatusDesc) : msgLen ops d ≤ 7 := by
  have := d.descCnt.isLt
  unfold msgLen
  split
  · omega
  · split <;> omega

variable {n : Nat}

/-- A message taken by the loop: the ring and the consumer before and after. -/
structure Taken where
  ring : StatusRing
  consumer : Nat
  ring' : StatusRing
  consumer' : Nat
  call : Dispatch

/-- The message was complete, and what was given back is no more than its
descriptors. -/
structure Taken.Own (ops : RcvOpcodes) (n : Nat) (t : Taken) : Prop where
  first : (t.ring t.consumer).hostOwned = true
  last : (t.ring ((t.consumer + (msgLen ops (t.ring t.consumer) - 1)) % n)).hostOwned = true
  given_back : ∃ k ≤ msgLen ops (t.ring t.consumer),
    t.ring' = markPhantom n t.ring t.consumer k ∧ t.consumer' = (t.consumer + k) % n

theorem length_takeMiddle (k : Nat) (ring : StatusRing) (consumer : Nat) :
    (takeMiddle n k ring consumer).2.2.length = k := by
  induction k generalizing ring consumer with
  | zero => rfl
  | succ k ih => simp only [takeMiddle, List.length_cons, ih]

/-- The words of the middle descriptors of an extended message. -/
theorem length_words (l : List StatusDesc) :
    (l.flatMap fun d => [d.body0, d.body1]).length = 2 * l.length := by
  induction l with
  | nil => rfl
  | cons d l ih =>
    rw [List.flatMap_cons, List.length_append, ih, List.length_cons]
    simp only [List.length_cons, List.length_nil]
    omega

/-- The indices of `k` stores are below `bound` just if `k` is at most `bound`. -/
theorem forall_stores {k bound : Nat} {f : Nat → Access}
    (hf : ∀ i, (f i).InBounds cfg ↔ i < bound) :
    (∀ a ∈ (List.range k).map f, a.InBounds cfg) ↔ k ≤ bound := by
  simp only [List.forall_mem_map, List.mem_range, hf]
  constructor
  · intro h
    by_contra hlt
    exact absurd (h bound (by omega)) (Nat.lt_irrefl _)
  · intro h i hi
    omega

/-- An extended message fills as many elements of `msg.body.values` as it has
words. -/
theorem logOk_handle_msg (s : Nat) (ctx : RxCtx) (hdr : BitVec 64) (values : List (BitVec 64)) :
    LogOk cfg (handle cfg s ctx (.msg hdr values)) ↔ LogOk cfg ctx ∧ values.length ≤ 7 := by
  rw [handle, logOk_of_log_eq rfl]
  exact and_congr_right fun _ => forall_stores fun _ => Iff.rfl

theorem logOk_handle_lro (s : Nat) (ctx : RxCtx) (desc : StatusDesc)
    (descList : List StatusDesc) :
    LogOk cfg (handle cfg s ctx (.lro desc descList)) ↔
      (LogOk cfg ctx ∧ descList.length ≤ 5) ∧
        (desc.lroType = 0 → desc.lroCount ≠ 0 ∧ desc.lroRefHandle.toNat < cfg.ringSize 0) := by
  rw [handle, logOk_unmProcessLro, logOk_of_log_eq rfl]
  exact and_congr_left fun _ => and_congr_right fun _ => forall_stores fun _ => Iff.rfl

/-- The handler of a message with a good `descCnt`. -/
theorem logOk_handle_call (s : Nat) (ctx : RxCtx) (m : Message ops) :
    LogOk cfg (handle cfg s ctx m.call) ↔ LogOk cfg ctx ∧ DescOk cfg ops ctx m.first := by
  have hcnt := m.descCnt_ok
  have hlen := m.length_rest
  have hlt := m.first.descCnt.isLt
  have hmiddle : m.middle.length = m.rest.length - 1 := List.length_dropLast
  unfold DescCntOk at hcnt
  unfold msgLen at hlen
  unfold Message.call DescOk
  by_cases hrcv : isRcv ops m.first = true
  · rw [if_pos hrcv, if_pos hrcv, handle]
    simp only [Dispatch.stores, List.append_nil]
    exact logOk_unmProcessRcv s ctx m.first
  rw [if_neg hrcv, if_neg hrcv]
  by_cases hcont : m.first.opcode = unmMsgtypeNicLroContiguous
  · rw [if_pos hcont, if_pos hcont, handle]
    simp only [Dispatch.stores, List.append_nil]
    exact logOk_unmProcessLroContiguous s ctx m.first
  have hsingle : isSingle ops m.first = false := by simp [isSingle, hrcv, hcont]
  have hcnt := hcnt hsingle
  rw [if_neg (by simp [hsingle])] at hlen
  rw [if_neg hcont, if_neg hcont]
  by_cases hchained : m.first.opcode = unmMsgtypeNicLroChained
  · rw [if_pos hchained] at hcnt hlen
    -- giving the header slot back changes its owner, but not the handle
    have hhandle : m.first.phantom.lroRefHandle = m.first.lroRefHandle :=
      m.first.extractLsb'_phantom (by decide)
    rw [if_pos hchained, if_pos hchained, logOk_handle_lro, hhandle,
      and_iff_left (by omega : m.middle.length ≤ 5)]
    exact and_congr_right fun _ => (and_iff_right hcnt).symm
  · rw [if_neg hchained] at hcnt hlen
    rw [if_neg hchained, if_neg hchained]
    by_cases hext : 1 < m.first.descCnt.toNat
    · rw [if_pos hext, logOk_handle_msg]
      refine and_congr_right fun _ => iff_of_true ?_ hcnt
      rw [List.length_cons, length_words]
      omega
    · rw [if_neg hext, logOk_handle_msg]
      exact and_congr_right fun _ => iff_of_true (Nat.le_add_left 2 5) hcnt

/-- A round that takes a message with a good `descCnt` takes all of it, and
nothing else. -/
theorem Taken.own_of_descCntOk (hidx : ∀ x, ringIndex n x = x % n) (hdvd : n ∣ 2 ^ 32)
    (h8 : 8 ≤ n) {t : Taken} (hc : t.consumer < n)
    (hround : rcvRound ops n t.ring t.consumer = .dispatch t.ring' t.consumer' t.call)
    (hok : DescCntOk ops (t.ring t.consumer)) :
    t.Own ops n ∧ ∃ m : Message ops, m.first = t.ring t.consumer ∧ t.call = m.call := by
  obtain ⟨ring, c, ring', c', call⟩ := t
  simp only at hc hround hok
  have hholds := Message.holds_ofRing hc ring hok
  have hlen := (Message.ofRing n ring c hok).length_descs
  have hle := msgLen_le ops (ring c)
  have hone := rcvRound_eq hidx hdvd hc hholds (hlen ▸ le_trans hle (by omega))
  by_cases hcomplete : (Message.ofRing n ring c hok).Complete = true
  · rw [if_pos hcomplete, hround] at hone
    obtain ⟨hring, hconsumer, hcall⟩ := Round.dispatch.inj hone
    rw [Message.Complete, Bool.and_eq_true] at hcomplete
    have hpos := (Message.ofRing n ring c hok).descs_length_pos
    refine ⟨⟨hcomplete.1, ?_, _, Nat.le_refl _, hlen ▸ hring, hlen ▸ hconsumer⟩,
      _, rfl, hcall⟩
    have hlast : ring ((c + ((Message.ofRing n ring c hok).descs.length - 1)) % n) =
        (Message.ofRing n ring c hok).last := by
      rw [hholds _ (by omega), Message.last, List.getLast_eq_getElem]
    show (ring ((c + (msgLen ops (ring c) - 1)) % n)).hostOwned = true
    rw [hlen] at hlast
    exact hlast ▸ hcomplete.2
  · rw [if_neg hcomplete, hround] at hone
    rcases hone with hone | hone <;> cases hone

/-- A round that takes a message whose `descCnt` is too small for a chained LRO
message, or too large for another one. -/
theorem Taken.bad_of_not_descCntOk (hidx : ∀ x, ringIndex n x = x % n) (h8 : 8 ≤ n)
    {t : Taken}
    (hround : rcvRound ops n t.ring t.consumer = .dispatch t.ring' t.consumer' t.call)
    (hbad : ¬ DescCntOk ops (t.ring t.consumer)) :
    ¬ t.Own ops n ∨ ∃ hdr values, t.call = .msg hdr values ∧ 7 < values.length := by
  obtain ⟨ring, c, ring', c', call⟩ := t
  simp only at hround hbad
  unfold DescCntOk at hbad
  obtain ⟨hsingle, hbad⟩ := Classical.not_imp.mp hbad
  obtain ⟨hrcv, hcont⟩ : ¬ isRcv ops (ring c) = true ∧
      (ring c).opcode ≠ unmMsgtypeNicLroContiguous := by
    simpa [isSingle, not_or] using hsingle
  unfold rcvRound at hround
  simp only [if_neg hrcv, if_neg hcont] at hround
  by_cases hown : (ring c).hostOwned = true
  swap
  · simp [hown] at hround
  simp only [hown, Bool.not_true, Bool.false_eq_true, if_false] at hround
  by_cases hchained : (ring c).opcode = unmMsgtypeNicLroChained
  · -- two descriptors are taken, whatever the message says
    rw [if_pos hchained] at hbad hround
    left
    rintro ⟨-, -, k, hk, -, hconsumer⟩
    rw [msgLen, if_neg (by simp [hsingle]), if_pos hchained] at hk
    simp only at hk hconsumer
    unfold lroChainedRound at hround
    simp only at hround
    split at hround
    · cases hround
    · have hzero : (ring c).descCnt.toNat - 2 = 0 := by omega
      rw [hzero] at hround
      obtain ⟨-, hconsumer', -⟩ := Round.dispatch.inj hround
      simp only [takeMiddle, hidx, Nat.mod_add_mod] at hconsumer'
      rw [← hconsumer', Nat.add_assoc] at hconsumer
      exact add_mod_ne c (show k < 2 by omega) (by omega) hconsumer.symm
  · rw [if_neg hchained] at hbad hround
    right
    unfold msgRound at hround
    -- more than five descriptors: their words are more than `msg.body` has room for
    simp only at hround
    rw [if_pos (by omega)] at hround
    split at hround
    · cases hround
    · obtain ⟨-, -, hcall⟩ := Round.dispatch.inj hround
      refine ⟨_, _, hcall.symm, ?_⟩
      rw [List.length_cons, length_words, length_takeMiddle]
      omega

/-- **One message** is handled within bounds, and takes no more than its own
descriptors, just if its first descriptor exploits no missing check. -/
theorem Taken.ok_iff (hidx : ∀ x, ringIndex n x = x % n) (hdvd : n ∣ 2 ^ 32) (h8 : 8 ≤ n)
    (s : Nat) (ctx : RxCtx) {t : Taken} (hc : t.consumer < n)
    (hround : rcvRound ops n t.ring t.consumer = .dispatch t.ring' t.consumer' t.call) :
    LogOk cfg (handle cfg s ctx t.call) ∧ t.Own ops n ↔
      LogOk cfg ctx ∧ DescOk cfg ops ctx (t.ring t.consumer) := by
  by_cases hok : DescCntOk ops (t.ring t.consumer)
  · obtain ⟨hown, m, hfirst, hcall⟩ := Taken.own_of_descCntOk hidx hdvd h8 hc hround hok
    rw [hcall, logOk_handle_call, hfirst]
    exact and_iff_left hown
  -- neither side holds of a `descCnt` that the card never writes
  · refine iff_of_false ?_ fun h => hok h.2.descCntOk
    rintro ⟨hlog, hown⟩
    rcases Taken.bad_of_not_descCntOk hidx h8 hround hok with hbad | ⟨hdr, values, hcall, hlen⟩
    · exact hbad hown
    · rw [hcall, logOk_handle_msg] at hlog
      omega

/-! ## The whole call -/

variable (ops n) in
/-- The messages that the loop takes, at most `max` of them. -/
def takenRounds : Nat → StatusRing → Nat → List Taken
  | 0, _, _ => []
  | max + 1, ring, consumer =>
      match rcvRound ops n ring consumer with
      | .stop => []
      | .stopLro => []
      | .dispatch ring' consumer' call =>
          ⟨ring, consumer, ring', consumer', call⟩ :: takenRounds max ring' consumer'

/-- They are the messages of the loop, and the ring and the consumer after the
last of them are those of the loop. -/
theorem rcvLoop_takenRounds (max : Nat) (ring : StatusRing) (c count : Nat) :
    (rcvLoop ops n max ring c count).calls = (takenRounds ops n max ring c).map Taken.call ∧
      ((rcvLoop ops n max ring c count).ring, (rcvLoop ops n max ring c count).consumer) =
        (((takenRounds ops n max ring c).getLast?.map fun t => (t.ring', t.consumer')).getD
          (ring, c)) := by
  induction max generalizing ring c count with
  | zero => exact ⟨rfl, rfl⟩
  | succ max ih =>
    unfold rcvLoop takenRounds
    cases hround : rcvRound ops n ring c with
    | stop => exact ⟨rfl, rfl⟩
    | stopLro => exact ⟨rfl, rfl⟩
    | dispatch ring' c' call =>
      obtain ⟨hcalls, hlast⟩ := ih ring' c' (count + 1)
      refine ⟨by simp only [List.map_cons, hcalls], ?_⟩
      simp only [hlast, List.getLast?_cons]
      cases (takenRounds ops n max ring' c').getLast? <;> rfl

variable (cfg ops n) in
/-- `unm_process_rcv_ring` on the status ring `s`, with its handlers. -/
def processRcvRing (s : Nat) (ring : StatusRing) (consumer max : Nat) (ctx : RxCtx) : RxCtx :=
  (unmProcessRcvRing ops n ring consumer max).calls.foldl (handle cfg s) ctx

variable (cfg) in
/-- `P` holds of each message and the state that its handler is called in. -/
def EveryRound (s : Nat) (P : RxCtx → Taken → Prop) : RxCtx → List Taken → Prop
  | _, [] => True
  | ctx, t :: ts => P ctx t ∧ EveryRound s P (handle cfg s ctx t.call) ts

instance (s : Nat) (P : RxCtx → Taken → Prop) [∀ ctx t, Decidable (P ctx t)] :
    ∀ ctx ts, Decidable (EveryRound cfg s P ctx ts)
  | _, [] => .isTrue trivial
  | ctx, t :: ts =>
      have := instDecidableEveryRound s P (handle cfg s ctx t.call) ts
      inferInstanceAs (Decidable (P ctx t ∧ EveryRound cfg s P (handle cfg s ctx t.call) ts))

theorem rcvRound_consumer_lt (hidx : ∀ x, ringIndex n x = x % n) (hn : 0 < n)
    {ring ring' : StatusRing} {c c' : Nat} {call : Dispatch}
    (h : rcvRound ops n ring c = .dispatch ring' c' call) : c' < n := by
  have hfinish : ∀ r i f, Round.finish n r i f = .dispatch ring' c' call → c' < n := by
    intro r i f hr
    rw [← (Round.dispatch.inj hr).2.1, hidx]
    exact Nat.mod_lt _ hn
  unfold rcvRound at h
  simp only at h
  split at h
  · cases h
  · split at h
    · exact hfinish _ _ _ h
    · split at h
      · exact hfinish _ _ _ h
      · split at h
        · unfold lroChainedRound at h
          simp only at h
          split at h
          · cases h
          · exact hfinish _ _ _ h
        · unfold msgRound at h
          simp only at h
          split at h
          · split at h
            · cases h
            · exact hfinish _ _ _ h
          · exact hfinish _ _ _ h

/-- The loop, by induction on the budget. -/
theorem takenRounds_ok_iff (hidx : ∀ x, ringIndex n x = x % n) (hdvd : n ∣ 2 ^ 32)
    (h8 : 8 ≤ n) (s max : Nat) {ring : StatusRing} {c : Nat} (hc : c < n) (ctx : RxCtx) :
    (LogOk cfg (((takenRounds ops n max ring c).map Taken.call).foldl (handle cfg s) ctx) ∧
        ∀ t ∈ takenRounds ops n max ring c, t.Own ops n) ↔
      LogOk cfg ctx ∧ EveryRound cfg s (fun ctx t => DescOk cfg ops ctx (t.ring t.consumer)) ctx
        (takenRounds ops n max ring c) := by
  induction max generalizing ring c ctx with
  | zero => simp [takenRounds, EveryRound]
  | succ max ih =>
    unfold takenRounds
    cases hround : rcvRound ops n ring c with
    | stop => simp [EveryRound]
    | stopLro => simp [EveryRound]
    | dispatch ring' c' call =>
      have hc' := rcvRound_consumer_lt hidx (by omega) hround
      have hone : LogOk cfg (handle cfg s ctx call) ∧
          (⟨ring, c, ring', c', call⟩ : Taken).Own ops n ↔
            LogOk cfg ctx ∧ DescOk cfg ops ctx (ring c) :=
        @Taken.ok_iff cfg ops n hidx hdvd h8 s ctx ⟨ring, c, ring', c', call⟩ hc hround
      have hrest := @ih ring' c' hc' (handle cfg s ctx call)
      simp only [List.map_cons, List.foldl_cons, List.forall_mem_cons, EveryRound]
      rw [← and_assoc (a := LogOk cfg ctx), ← hone, and_left_comm, hrest]
      constructor
      · rintro ⟨hown, hlog, hevery⟩
        exact ⟨⟨hlog, hown⟩, hevery⟩
      · rintro ⟨⟨hlog, hown⟩, hevery⟩
        exact ⟨hown, hlog, hevery⟩

/-- **Array bounds.**  For any content of the status ring, a call of
`unm_process_rcv_ring` stays inside the arrays and gives back only descriptors
of complete messages, if and only if no message that it takes has, when its turn
comes, a descriptor that exploits a missing check. -/
theorem status_ring_in_bounds_iff {k : Nat} (hn : n = 2 ^ k) (hk : k ≤ 32) (h8 : 8 ≤ n)
    {ring : StatusRing} {c : Nat} (hc : c < n) (s max : Nat) {ctx : RxCtx} (hlog : ctx.log = []) :
    ((∀ a ∈ (processRcvRing cfg ops n s ring c max ctx).log, a.InBounds cfg) ∧
        ∀ t ∈ takenRounds ops n max ring c, t.Own ops n) ↔
      EveryRound cfg s (fun ctx t => DescOk cfg ops ctx (t.ring t.consumer)) ctx
        (takenRounds ops n max ring c) := by
  have hstart : LogOk cfg ctx := by
    intro a ha
    rw [hlog] at ha
    cases ha
  have hdvd : n ∣ 2 ^ 32 := hn ▸ Nat.pow_dvd_pow 2 hk
  have h := @takenRounds_ok_iff cfg ops n (ringIndex_eq hn hk) hdvd h8 s max ring c hc ctx
  rw [← (rcvLoop_takenRounds max ring c 0).1, and_iff_right hstart] at h
  exact h

/-- A context with 64 buffers in each ring. -/
def cfg64 : RxCfg := ⟨2, fun _ => 64, fun _ => 2048, fun i => some (i, 4096 * i)⟩

def ctx64 : RxCtx :=
  ⟨fun _ =>
    ⟨fun i => ⟨some i, 2048 * i, i⟩, 0, ⟨0, []⟩, false, 0, fun i => ⟨2048 * i, i, 2048⟩, 63⟩,
    fun _ _ => ⟨0, []⟩, 0, []⟩

/-- A packet in the last buffer of the ring, a chained LRO message of three packets, an extended
message, an LRO packet, and then a status word that is not a message. -/
def mixedRing : StatusRing := fun i =>
  if i = 63 then ⟨(hostDesc 4 0).body0 ||| (63#64 <<< 28), 0⟩
  else
    [⟨(hostDesc unmMsgtypeNicLroChained 3).body0 ||| 4#64, 3⟩, ⟨5#64 ||| (6#64 <<< 32), 0⟩,
      hostDesc 0 0, hostDesc 0 3, ⟨7, 8⟩, hostDesc 0 0,
      ⟨(hostDesc unmMsgtypeNicLroContiguous 0).body0 ||| (1#64 <<< 49) ||| 9#64, 0⟩].getD i ⟨0, 0⟩

theorem status_ring_in_bounds_mixed :
    (takenRounds {} 64 64 mixedRing 63).length = 4 ∧
      (∀ a ∈ (processRcvRing cfg64 {} 64 0 mixedRing 63 64 ctx64).log, a.InBounds cfg64) ∧
      ∀ t ∈ takenRounds {} 64 64 mixedRing 63, t.Own {} 64 :=
  ⟨by decide,
    (status_ring_in_bounds_iff (k := 6) rfl (by decide) (by decide) (by decide) 0 64 rfl).mpr
      (by decide)⟩

/-- One descriptor for each missing check: a packet in the buffer after the last
one, LRO messages with a handle that is too large or no packets, and a message
of six descriptors. -/
def badDescs : List StatusDesc :=
  [⟨(hostDesc 4 0).body0 ||| (64#64 <<< 28), 0⟩,
    ⟨(hostDesc unmMsgtypeNicLroContiguous 0).body0 ||| (1#64 <<< 49) ||| 64#64, 0⟩,
    ⟨(hostDesc unmMsgtypeNicLroChained 2).body0 ||| 64#64, 1⟩,
    hostDesc unmMsgtypeNicLroChained 2,
    hostDesc 0 6]

theorem status_ring_out_of_bounds : badDescs.Forall fun d =>
    ¬ ∀ a ∈ (processRcvRing cfg64 {} 64 0 (fun _ => d) 0 1 ctx64).log, a.InBounds cfg64 := by
  decide

end Rx
end NxNic

import NxNic.Ctx.Defaults
import NxNic.Ctx.Request
import NxNic.Lib.Effects

/-! # The response to the request for a receive context

The firmware answers with the registers of the rings, in records behind a header that has
their numbers and offsets.  `nx_fw_cmd_create_rx_ctx` goes by these numbers and offsets, and
compares them neither with the numbers of its own rings nor with the length of the buffer.

A round of either loop reads a record and writes the entry of a ring, and logs both (`RspTouch`);
what it leaves for the context are the registers, `RxRegs`.  `createRxCtx` is the function from
the state of the context on, so that a response that is not read is among its cases.

`MemorySafe` is the property of the log, that each byte read is one of the buffer and each entry
written one of a ring there is.  `Trusted` is the condition on the response, and
`response_safe_iff` says that the one comes to the other, by what the first `n` rounds touch.
-/
namespace NxNic
namespace Ctx
namespace Create

/-- What the response is read for: the registers of the rings, and what it says of the context. -/
structure RxRegs where
  hostRxProducer : Nat → BitVec 32
  hostSdsConsumer : Nat → BitVec 32
  interruptCrb : Nat → BitVec 32
  state : BitVec 32
  contextId : BitVec 32
  port : BitVec 16
  numFnPerPort : BitVec 32

/-- Some bytes of the response are read, or an entry of `rds_rings` or `sds_rings` is written. -/
inductive RspTouch where
  | rsp (off len : Nat)
  | rds (i : Nat)
  | sds (i : Nat)
deriving DecidableEq

/-- `sizeof(nx_cardrsp_rx_ctx_t)`, and of a record of a ring of either sort. -/
def cardrspSize : Nat := 152
def cardrspRingSize : Nat := 8

/-- `SIZEOF_CARDRSP_RX`. -/
def HostRxCtx.responseSize (ctx : HostRxCtx) : Nat :=
  cardrspSize + ctx.numRdsRings.toNat * cardrspRingSize + ctx.numSdsRings.toNat * cardrspRingSize

section
variable (e : Endian) (m : Bytes)

/-- A round of the loop over the receive rings, with their records at `p`. -/
def rdsRound (p i : Nat) (r : RxRegs) : RxRegs :=
  { r with
    hostRxProducer := Function.update r.hostRxProducer i
      (e.cpuToLe (e.load 32 m (p + cardrspRingSize * i))) }

/-- A round of the loop over the status rings, with their records at `p`. -/
def sdsRound (p i : Nat) (r : RxRegs) : RxRegs :=
  { r with
    hostSdsConsumer := Function.update r.hostSdsConsumer i
      (e.cpuToLe (e.load 32 m (p + cardrspRingSize * i)))
    interruptCrb := Function.update r.interruptCrb i
      (e.cpuToLe (e.load 32 m (p + cardrspRingSize * i + 4))) }

/-- The first `n` rounds of the loop over the receive rings. -/
def rdsLoop (p : Nat) : Nat → RxRegs → Effect RspTouch Unit RxRegs
  | 0, r => pure r
  | i + 1, r => do
    let r ← rdsLoop p i r
    Effect.touch (.rsp (p + cardrspRingSize * i) 4)
    Effect.touch (.rds i)
    pure (rdsRound e m p i r)

/-- The first `n` rounds of the loop over the status rings. -/
def sdsLoop (p : Nat) : Nat → RxRegs → Effect RspTouch Unit RxRegs
  | 0, r => pure r
  | i + 1, r => do
    let r ← sdsLoop p i r
    Effect.touch (.rsp (p + cardrspRingSize * i) 4)
    Effect.touch (.sds i)
    Effect.touch (.rsp (p + cardrspRingSize * i + 4) 4)
    Effect.touch (.sds i)
    pure (sdsRound e m p i r)

/-- `rds_ring_offset` and `sds_ring_offset` are taken as they are. -/
def rspRds : Nat := cardrspSize + (e.load 32 m 0).toNat
def rspSds : Nat := cardrspSize + (e.load 32 m 4).toNat

/-- `num_rds_rings` and `num_sds_rings`, of 16 bits, are converted as if they had 32. -/
def rspNumRds : Nat := (e.cpuToLe ((e.load 16 m 16).setWidth 32)).toNat
def rspNumSds : Nat := (e.cpuToLe ((e.load 16 m 18).setWidth 32)).toNat

/-- The end of `nx_fw_cmd_create_rx_ctx`, on what the response says of the context. -/
def rspCtx (r : RxRegs) : RxRegs :=
  { r with
    state := e.cpuToLe (e.load 32 m 8)
    contextId := (e.cpuToLe (e.load 16 m 20)).setWidth 32
    port := e.cpuToLe ((m 23).setWidth 16)
    numFnPerPort := e.cpuToLe (e.load 32 m 12) }

/-- `nx_fw_cmd_create_rx_ctx` on the response. -/
def readResponse (r : RxRegs) : Effect RspTouch Unit RxRegs := do
  Effect.touch (.rsp 0 4)
  Effect.touch (.rsp 16 2)
  let r ← rdsLoop e m (rspRds e m) (rspNumRds e m) r
  Effect.touch (.rsp 4 4)
  Effect.touch (.rsp 18 2)
  let r ← sdsLoop e m (rspSds e m) (rspNumSds e m) r
  Effect.touch (.rsp 8 4)
  Effect.touch (.rsp 20 2)
  Effect.touch (.rsp 23 1)
  Effect.touch (.rsp 12 4)
  pure (rspCtx e m r)

/-- `nx_fw_cmd_create_rx_ctx` from the state of the context on; `taken` says whether the firmware
takes the command. -/
def createRxCtx (taken : Bool) (r : RxRegs) : Effect RspTouch Unit RxRegs :=
  if nxHostCtxStateAllocated ≠ r.state then pure r
  else if taken then readResponse e m r
  else pure r

end

/-! ## The property -/

/-- What is touched has been allocated. -/
def RspTouch.Allocated (ctx : HostRxCtx) : RspTouch → Prop
  | .rsp off len => off + len ≤ ctx.responseSize
  | .rds i => i < ctx.numRdsRings.toNat
  | .sds i => i < ctx.numSdsRings.toNat

/-- **The condition**: the numbers of rings in the response are at most those of the context, and
the records of the rings end within the buffer, up to their last word that is read. -/
structure Trusted (e : Endian) (ctx : HostRxCtx) (m : Bytes) : Prop where
  numRds : rspNumRds e m ≤ ctx.numRdsRings.toNat
  rds : rspNumRds e m ≠ 0 → rspRds e m + cardrspRingSize * rspNumRds e m ≤ ctx.responseSize + 4
  numSds : rspNumSds e m ≤ ctx.numSdsRings.toNat
  sds : rspNumSds e m ≠ 0 → rspSds e m + cardrspRingSize * rspNumSds e m ≤ ctx.responseSize

/-! ## The loops -/

section
variable {e : Endian} {m : Bytes} {p n : Nat} {r : RxRegs} {P : RspTouch → Prop} {Q : RxRegs → Prop}

/-- The registers after `n` rounds. -/
def rdsRegs (e : Endian) (m : Bytes) (p : Nat) (r : RxRegs) : Nat → RxRegs
  | 0 => r
  | i + 1 => rdsRound e m p i (rdsRegs e m p r i)

def sdsRegs (e : Endian) (m : Bytes) (p : Nat) (r : RxRegs) : Nat → RxRegs
  | 0 => r
  | i + 1 => sdsRound e m p i (sdsRegs e m p r i)

theorem wp_rdsLoop : (rdsLoop e m p n r).wp P Q ↔
    (∀ i < n, P (.rsp (p + cardrspRingSize * i) 4) ∧ P (.rds i)) ∧ Q (rdsRegs e m p r n) := by
  induction n generalizing Q with
  | zero =>
    rw [rdsLoop, Effect.wp_pure]
    exact (and_iff_right fun i hi => absurd hi (Nat.not_lt_zero i)).symm
  | succ n ih =>
    rw [rdsLoop, Effect.wp_bind, ih, Nat.forall_lt_succ_right]
    simp only [Effect.wp_bind, Effect.wp_touch, Effect.wp_pure, and_assoc]
    rfl

theorem wp_sdsLoop : (sdsLoop e m p n r).wp P Q ↔
    (∀ i < n, P (.rsp (p + cardrspRingSize * i) 4) ∧ P (.sds i) ∧
      P (.rsp (p + cardrspRingSize * i + 4) 4)) ∧ Q (sdsRegs e m p r n) := by
  induction n generalizing Q with
  | zero =>
    rw [sdsLoop, Effect.wp_pure]
    exact (and_iff_right fun i hi => absurd hi (Nat.not_lt_zero i)).symm
  | succ n ih =>
    rw [sdsLoop, Effect.wp_bind, ih, Nat.forall_lt_succ_right]
    simp only [Effect.wp_bind, Effect.wp_touch, Effect.wp_pure, and_assoc]
    rw [sdsRegs]
    tauto

/-- All that is touched of the response and for it. -/
theorem wp_readResponse : (readResponse e m r).wp P (fun _ => True) ↔
    (P (.rsp 0 4) ∧ P (.rsp 16 2) ∧ P (.rsp 4 4) ∧ P (.rsp 18 2) ∧ P (.rsp 8 4) ∧ P (.rsp 20 2) ∧
        P (.rsp 23 1) ∧ P (.rsp 12 4)) ∧
      (∀ i < rspNumRds e m, P (.rsp (rspRds e m + cardrspRingSize * i) 4) ∧ P (.rds i)) ∧
      ∀ i < rspNumSds e m, P (.rsp (rspSds e m + cardrspRingSize * i) 4) ∧ P (.sds i) ∧
        P (.rsp (rspSds e m + cardrspRingSize * i + 4) 4) := by
  simp only [readResponse, Effect.wp_bind, Effect.wp_touch, Effect.wp_pure, wp_rdsLoop, wp_sdsLoop]
  tauto

end

/-! ## The condition -/

section
variable {e : Endian} {ctx : HostRxCtx} {m : Bytes} {r : RxRegs}

theorem header_allocated (off len : Nat) (h : off + len ≤ cardrspSize) :
    (RspTouch.rsp off len).Allocated ctx := by
  have hsize : ctx.responseSize = cardrspSize + ctx.numRdsRings.toNat * cardrspRingSize +
      ctx.numSdsRings.toNat * cardrspRingSize := rfl
  show off + len ≤ ctx.responseSize
  omega

/-- Records that end within the buffer, if the last one does. -/
theorem records_iff (len : Nat) {n p size : Nat} :
    (∀ i < n, p + cardrspRingSize * i + len ≤ size) ↔
      (n ≠ 0 → p + cardrspRingSize * n + len ≤ size + cardrspRingSize) := by
  rw [cardrspRingSize]
  constructor
  · intro h hn
    have hlast := h (n - 1) (by omega)
    omega
  · intro h i hi
    have hlast := h (by omega)
    omega

theorem readResponse_iff :
    (readResponse e m r).wp (RspTouch.Allocated ctx) (fun _ => True) ↔ Trusted e ctx m := by
  have hheader : (RspTouch.rsp 0 4).Allocated ctx ∧ (RspTouch.rsp 16 2).Allocated ctx ∧
      (RspTouch.rsp 4 4).Allocated ctx ∧ (RspTouch.rsp 18 2).Allocated ctx ∧
      (RspTouch.rsp 8 4).Allocated ctx ∧ (RspTouch.rsp 20 2).Allocated ctx ∧
      (RspTouch.rsp 23 1).Allocated ctx ∧ (RspTouch.rsp 12 4).Allocated ctx :=
    ⟨header_allocated 0 4 (by decide), header_allocated 16 2 (by decide),
      header_allocated 4 4 (by decide), header_allocated 18 2 (by decide),
      header_allocated 8 4 (by decide), header_allocated 20 2 (by decide),
      header_allocated 23 1 (by decide), header_allocated 12 4 (by decide)⟩
  have hrds : (∀ i < rspNumRds e m, (RspTouch.rsp (rspRds e m + cardrspRingSize * i) 4).Allocated
      ctx) ↔ _ := records_iff 4
  have hsds : (∀ i < rspNumSds e m, (RspTouch.rsp (rspSds e m + cardrspRingSize * i + 4)
      4).Allocated ctx) ↔ _ := records_iff 8
  rw [wp_readResponse, and_iff_right hheader]
  constructor
  · rintro ⟨hreadRds, hreadSds⟩
    have hlastRds := hrds.mp fun i hi => (hreadRds i hi).1
    have hlastSds := hsds.mp fun i hi => (hreadSds i hi).2.2
    rw [cardrspRingSize] at hlastRds hlastSds
    refine ⟨le_of_forall_lt fun i hi => (hreadRds i hi).2, fun hn => ?_,
      le_of_forall_lt fun i hi => (hreadSds i hi).2.1, fun hn => ?_⟩
    · rw [cardrspRingSize]
      have := hlastRds hn
      omega
    · rw [cardrspRingSize]
      have := hlastSds hn
      omega
  · intro h
    have hendRds := hrds.mpr fun hn => by
      have := h.rds hn
      rw [cardrspRingSize] at *
      omega
    have hendSds := hsds.mpr fun hn => by
      have := h.sds hn
      rw [cardrspRingSize] at *
      omega
    refine ⟨fun i hi => ⟨hendRds i hi, lt_of_lt_of_le hi h.numRds⟩, fun i hi => ⟨?_,
      lt_of_lt_of_le hi h.numSds, hendSds i hi⟩⟩
    exact Nat.le_trans (Nat.le_add_right ..) (hendSds i hi)

end

/-- **The property**: what is touched has been allocated. -/
def MemorySafe (ctx : HostRxCtx) (x : Effect RspTouch Unit RxRegs) : Prop :=
  ∀ t ∈ x.touched, t.Allocated ctx

/-- **The response to the request for a receive context** is read within the memory that has been
allocated just if it is not read at all or meets the condition.  The response is arbitrary, as the
firmware or whoever writes into the buffer may have left it. -/
theorem response_safe_iff (e : Endian) (ctx : HostRxCtx) (m : Bytes) (taken : Bool) (r : RxRegs) :
    MemorySafe ctx (createRxCtx e m taken r) ↔
      (nxHostCtxStateAllocated = r.state → taken = true → Trusted e ctx m) := by
  rw [createRxCtx]
  split
  · rename_i hstate
    exact iff_of_true nofun fun h => absurd h hstate
  · rename_i hstate
    cases taken with
    | false => exact iff_of_true nofun fun _ => nofun
    | true =>
      have hreturns : (readResponse e m r).wp (fun _ => True) fun _ => True := by
        rw [wp_readResponse]
        simp
      have hsafe := (Effect.wp_iff_touched (P := RspTouch.Allocated ctx) hreturns).symm
      rw [if_pos rfl, MemorySafe, hsafe, readResponse_iff]
      exact ⟨fun h _ _ => h, fun h => h (not_not.mp hstate) rfl⟩

/-- A response with the numbers of rings in `usualCtx`, and one receive ring more. -/
def threeRings : Bytes := fun k => if k = 16 then 3 else if k = 18 then 1 else 0

/-- The driver writes the entry behind its receive rings. -/
theorem response_writes_beyond :
    ¬∀ r, MemorySafe usualCtx (createRxCtx .little threeRings true r) := by
  intro hall
  have hin : 2 < usualCtx.numRdsRings.toNat :=
    hall ⟨fun _ => 0, fun _ => 0, fun _ => 0, 1, 0, 0, 0⟩ (.rds 2) (by decide +kernel)
  exact absurd hin (by decide)

end Create
end Ctx
end NxNic

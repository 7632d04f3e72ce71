import NxNic.Attach.Steps

/-! # Attach is all or nothing

The state is the `Port` of `Attach/Port`: the blocks that the adapter's pointers name, the receive
and the transmit context, the interrupts, the "pexq", what the firmware has, and the `Pool` of all
the blocks that have ever been handed out, with the sizes in which they went and came back.  A step
is a whole call, `unm_nic_attach` or `unm_nic_detach`, and the plan that comes with it says what
fails on the way.

**The property** of a step is `PortAction.Balances`.  An attach that returns 0 has had everything,
and one that returns an error is `Undone`: the rings, contexts and interrupts are as before, and
what the call has taken it has given back, each block once and in its size.  After a detach
nothing at all is held.

**The condition** is `PortAction.Keeps`.  Most of it is what the unwinding paths do not undo: the
"pexq" stays, the interrupts and the contexts in the firmware stay, or a call goes on where an area
lies beyond the mask.  And wherever the command ring is freed `cfg.SameSize` is needed, that a bus
address has four bytes, for the size it is freed with has that of a 32-bit word in the place of
that of a `dma_addr_t`.

A port between two calls is `Kept`, that is idle or running.  From such a port
`attach_good_iff` and `detach_balances_iff` settle a single call, with one lemma for each stage of
`unm_nic_hw_resources` before them; `attach_balances_iff` says it of every run.
-/
namespace NxNic
namespace Attach

/-- The two ports have the same memory, rings, contexts and interrupts. -/
structure Port.Unchanged (d d' : Port) : Prop where
  cmdBufArr : d'.cmdBufArr = d.cmdBufArr
  cmdDescHead : d'.cmdDescHead = d.cmdDescHead
  pauseAddr : d'.pauseAddr = d.pauseAddr
  nxLicDma : d'.nxLicDma = d.nxLicDma
  snmpStatsDma : d'.snmpStatsDma = d.snmpStatsDma
  nicNetStats : d'.nicNetStats = d.nicNetStats
  rxCtx : d'.rxCtx = d.rxCtx
  txCtx : d'.txCtx = d.txCtx
  irqs : d'.irqs = d.irqs
  pexq : d'.pexq = d.pexq
  fwCtxs : d'.fwCtxs = d.fwCtxs

/-- Nothing is left of a call: each block that it has taken it has given back in its size, and
the port is as it was. -/
structure Port.Undone (d d' : Port) : Prop extends d.Unchanged d' where
  held : ∃ m, d.pool.held = some m ∧ d'.pool.held = some m

/-- The MAC address and the port. -/
def AttachPlan.EndHad (cfg : PortConfig) (plan : AttachPlan) : Prop :=
  (cfg.revisionP2 = true → plan.macaddrSet = true) ∧ plan.initPort = true

/-- No failure point of a call has failed, on a port that is up or down. -/
def AttachPlan.Succeeds (cfg : PortConfig) (plan : AttachPlan) (isUp : Bool) : Prop :=
  plan.EndHad cfg ∧ (isUp = false →
    plan.cmdDesc.Had ∧ plan.BlocksHad cfg ∧ plan.rx.RingsHad cfg ∧ plan.rx.dma.Had ∧
      plan.rx.command.toOption.isSome = true ∧ plan.IrqsHad cfg ∧
      if cfg.fwV34 then plan.rx.txMem = true
      else (cfg.pexqCap = true → plan.pexq = none) ∧ plan.tx.mem = true ∧ plan.tx.dma.Had ∧
        plan.tx.command.toOption.isSome = true)

/-- **The property** of a call: an attach in which something fails returns an error and is
undone; after a detach every block ever taken has been given back, once and in its size. -/
def PortAction.Balances (cfg : PortConfig) (d : Port) : PortAction → Prop
  | .attach plan => ∃ err d', d.unmNicAttach cfg plan = some (err, d') ∧
      (err = 0 → plan.Succeeds cfg d.isUp) ∧ (err ≠ 0 → d.Undone d')
  | .detach rxTaken txTaken => (d.unmNicDetach cfg rxTaken txTaken).pool.held = some 0

/-! ## The condition -/

/-- With the firmware 3.4, once the rings are there: the areas for the command and what follows
it are had, but for the interrupts; or an area is beyond the mask, which is not noticed, and the
interrupts fail when no area is left from an earlier attach. -/
def Port.KeepsV34 (cfg : PortConfig) (d : Port) (plan : AttachPlan) : Prop :=
  if plan.rx.dma.Gone then cfg.SameSize ∧ ¬plan.IrqsHad cfg ∧ d.ctxAdd.ptr = none
  else plan.rx.dma.Had ∧ plan.rx.txMem = true ∧ plan.rx.command.toOption.isSome = true ∧
    (plan.IrqsHad cfg → plan.EndHad cfg) ∧ (¬plan.IrqsHad cfg → cfg.SameSize)

/-- A context that is made can be destroyed. -/
def Cleared (dma : DmaPlan) (command : Except Rcode (BitVec 32)) (destroyed : Bool) : Prop :=
  dma.Had → destroyed = true ∧ ∀ s ∈ command.toOption, s ≤ nxHostCtxStateMax

/-- With the firmware 4.0, once there is a receive context: what fails then is undone when there
is no "pexq" and the contexts in the firmware can be destroyed. -/
def AttachPlan.KeepsTx (cfg : PortConfig) (plan : AttachPlan) : Prop :=
  ¬(plan.tx.mem = true ∧ plan.tx.dma.Crashes) ∧
  if plan.tx.mem = false ∨ Refused plan.tx.dma plan.tx.command then
    cfg.SameSize ∧ cfg.pexqCap = false ∧ Cleared plan.rx.dma plan.rx.command plan.rxDestroyed
  else if plan.IrqsHad cfg then plan.EndHad cfg ∧ plan.rx.dma.Had ∧ plan.tx.dma.Had
  else cfg.SameSize ∧ cfg.pexqCap = false ∧
    Cleared plan.rx.dma plan.rx.command plan.rxDestroyed ∧
    Cleared plan.tx.dma plan.tx.command plan.txDestroyed

/-- With the firmware 4.0, once the rings are there. -/
def AttachPlan.KeepsV40 (cfg : PortConfig) (plan : AttachPlan) : Prop :=
  ¬plan.rx.dma.Crashes ∧
  if Refused plan.rx.dma plan.rx.command then cfg.SameSize
  else if cfg.pexqCap = true ∧ plan.pexq ≠ none then cfg.SameSize ∧ ¬plan.rx.dma.Had
  else plan.KeepsTx cfg

/-- **The condition on an attach**. -/
def Port.KeepsAttach (cfg : PortConfig) (d : Port) (plan : AttachPlan) : Prop :=
  (cfg.driverMismatch = true ∨ d.isUp = true ∨ plan.firmware = false ∨ plan.receivePeg = false ∨
    ¬plan.CmdBufHad d.maxTxDescCount ∨ ¬plan.cmdDesc.Had) ∨
  if plan.BlocksHad cfg ∧ plan.rx.RingsHad cfg then
    if cfg.fwV34 then d.KeepsV34 cfg plan else plan.KeepsV40 cfg
  else cfg.SameSize

/-- **The condition** on a call; a detach of a port that is up frees the command ring. -/
def PortAction.Keeps (cfg : PortConfig) (d : Port) : PortAction → Prop
  | .attach plan => d.KeepsAttach cfg plan
  | .detach _ _ => d.isUp = true → cfg.SameSize

/-! ## The exact condition -/

variable {cfg : PortConfig} {n : Nat} {m : Multiset Block}

/-- A port with nothing allocated; an area that `ctx_add` still names has been given back. -/
structure Port.Idle (u : Port) : Prop extends u.Bare where
  pool : u.pool.Holds u.pool.length 0
  cmdBufArr : u.cmdBufArr = false
  ctxAdd : ∀ b ∈ u.ctxAdd.ptr, b.id < u.pool.length
  rxCtx : u.rxCtx = none
  txCtx : u.txCtx = none
  pexq : u.pexq = false
  isUp : u.isUp = false

namespace Port
variable {u d : Port}

/-- **What `unm_nic_free_ring_context` leaves undone**. -/
theorem undone_freeRing (hu : u.Idle) (hs : d.Sized cfg) (hrx : ∀ c ∈ d.rxCtx, c.Sized cfg)
    (h : d.pool.Holds n (d.blocks + (d.rxBlocks + m))) (hcmd : d.cmdDescHead.isSome = true) :
    u.Undone (d.unmNicFreeRingContext cfg) ↔ cfg.SameSize ∧ m = 0 ∧ d.txCtx = none ∧
      d.irqs = u.irqs ∧ d.pexq = false ∧ d.fwCtxs = u.fwCtxs := by
  have heq := freeRing_eq cfg d
  constructor
  · intro hundone
    obtain ⟨k, hk, hk'⟩ := hundone.held
    obtain rfl := Option.some.inj (hu.pool.held.symm.trans hk)
    have hsame : cfg.SameSize := by
      by_contra hother
      exact absurd ((freeRing_wrong hs h hother hcmd).symm.trans hk') nofun
    have hfreed := freeRing_holds hs hrx h (.inl hsame)
    have htx := hundone.txCtx
    have hirqs := hundone.irqs
    have hpexq := hundone.pexq
    have hfw := hundone.fwCtxs
    rw [heq] at htx hirqs hpexq hfw
    exact ⟨hsame, Option.some.inj (hfreed.held.symm.trans hk'), htx.trans hu.txCtx, hirqs,
      hpexq.trans hu.pexq, hfw⟩
  · rintro ⟨hsame, rfl, htx, hirqs, hpexq, hfw⟩
    have hfreed := freeRing_holds hs hrx h (.inl hsame)
    refine ⟨?_, 0, hu.pool.held, hfreed.held⟩
    rw [heq]
    exact ⟨hu.cmdBufArr.symm, hu.cmdDescHead.symm, hu.pauseAddr.symm, hu.nxLicDma.symm,
      hu.snmpStatsDma.symm, hu.nicNetStats.symm, hu.rxCtx.symm, htx.trans hu.txCtx.symm, hirqs,
      hpexq.trans hu.pexq.symm, hfw⟩

end Port

/-- The property of an attach, by what it returns. -/
def Good (cfg : PortConfig) (u : Port) (plan : AttachPlan) (r : Option (Int × Port)) : Prop :=
  ∃ err d', r = some (err, d') ∧ (err = 0 → plan.Succeeds cfg u.isUp) ∧ (err ≠ 0 → u.Undone d')

section Good
variable {u d : Port} {plan : AttachPlan}

theorem not_good_none : ¬Good cfg u plan none := by
  rintro ⟨err, d', h, -⟩
  cases h

theorem good_error {rc : Int} (hrc : rc ≠ 0) : Good cfg u plan (some (rc, d)) ↔ u.Undone d := by
  constructor
  · rintro ⟨err, d', h, -, hundone⟩
    obtain ⟨rfl, rfl⟩ := Prod.mk.inj (Option.some.inj h)
    exact hundone hrc
  · exact fun hundone => ⟨rc, d, rfl, fun h => absurd h hrc, fun _ => hundone⟩

theorem good_zero : Good cfg u plan (some (0, d)) ↔ plan.Succeeds cfg u.isUp := by
  constructor
  · rintro ⟨err, d', h, hsucceeds, -⟩
    obtain ⟨rfl, rfl⟩ := Prod.mk.inj (Option.some.inj h)
    exact hsucceeds rfl
  · exact fun hsucceeds => ⟨0, d, rfl, fun _ => hsucceeds, fun h => absurd rfl h⟩

end Good

/-- The blocks and the receive context `c` are there; `m` is held besides. -/
structure Staged (cfg : PortConfig) (n : Nat) (u e : Port) (c : RxCtx) (m : Multiset Block) :
    Prop extends e.Sized cfg where
  rxCtx : e.rxCtx = some c
  ctx : c.Sized cfg
  sds : c.sdsRings.length = cfg.maxPossibleRssRings
  holds : e.pool.Holds n (e.blocks + (c.blocks + m))
  cmd : e.cmdDescHead.isSome = true
  irqs : e.irqs = u.irqs

/-- The contexts that the firmware has. -/
def FwCtx.count (c : FwCtx) : Nat := if c.inFw then 1 else 0

section Staged
variable {u e : Port} {c : RxCtx} {plan : AttachPlan}

/-- Freeing the blocks and the context again. -/
theorem Staged.undone_free (h : Staged cfg n u e c m) (hu : u.Idle) :
    u.Undone (e.unmNicFreeRingContext cfg) ↔ cfg.SameSize ∧ m = 0 ∧ e.txCtx = none ∧
      e.pexq = false ∧ e.fwCtxs = u.fwCtxs := by
  have hrx : ∀ c' ∈ e.rxCtx, c'.Sized cfg := by
    intro c' hc'
    obtain rfl := Option.some.inj (h.rxCtx.symm.trans hc')
    exact h.ctx
  have hholds : e.pool.Holds n (e.blocks + (e.rxBlocks + m)) := by
    rw [Port.rxBlocks, h.rxCtx]
    exact h.holds
  rw [Port.undone_freeRing hu h.toSized hrx hholds h.cmd]
  exact and_congr_right fun _ => and_congr_right fun _ => and_congr_right fun _ =>
    and_iff_right h.irqs

theorem Staged.irqs_had (h : Staged cfg n u e c m) (hirqs : plan.IrqsHad cfg) :
    e.attachIrqs cfg plan = some (({ e with
      irqs := e.irqs + cfg.maxPossibleRssRings
      isUp := true } : Port).attachEnd cfg plan) := by
  have hres : e.nxRegisterIrq plan c =
      (none, { e with irqs := e.irqs + cfg.maxPossibleRssRings }) := by
    rw [Port.nxRegisterIrq, h.sds]
    rcases Port.requestIrqs_cases plan.irq cfg.maxPossibleRssRings 0 e.irqs with ⟨-, hres⟩ |
      ⟨hnot, -⟩
    · rw [Nat.add_zero] at hres
      rw [hres]
    · refine absurd (fun j hj => ?_) hnot
      rw [Nat.zero_add]
      exact hirqs j hj
  simp only [Port.attachIrqs, h.rxCtx, hres]

theorem Staged.irqs_fail (h : Staged cfg n u e c m) (hirqs : ¬plan.IrqsHad cfg) :
    ∃ code : Rcode, e.attachIrqs cfg plan = some (code.val, (e.unmNicFreeRingContextInFw cfg
      plan.rxDestroyed plan.txDestroyed).unmNicFreeRingContext cfg) := by
  have hres : ∃ code, e.nxRegisterIrq plan c = (some code, e) := by
    rw [Port.nxRegisterIrq, h.sds]
    rcases Port.requestIrqs_cases plan.irq cfg.maxPossibleRssRings 0 e.irqs with ⟨hall, -⟩ |
      ⟨-, code, hres⟩
    · refine absurd (fun j hj => ?_) hirqs
      have hnone := hall j hj
      rw [Nat.zero_add] at hnone
      exact hnone
    · rw [Nat.add_zero] at hres
      rw [hres]
      exact ⟨code, rfl⟩
  obtain ⟨code, hres⟩ := hres
  refine ⟨code, ?_⟩
  simp only [Port.attachIrqs, h.rxCtx, hres]

/-- When the interrupts are registered, what is left may fail only if it does not. -/
theorem Staged.good_up (h : Staged cfg n u e c m) (hu : u.Idle) (hirqs : plan.IrqsHad cfg) :
    Good cfg u plan (e.attachIrqs cfg plan) ↔ plan.Succeeds cfg u.isUp := by
  have hleft {d : Port} (hrx : d.rxCtx = some c) : ¬u.Undone d := fun hundone =>
    absurd (hrx.symm.trans (hundone.rxCtx.trans hu.rxCtx)) nofun
  have heio : eio ≠ 0 := by decide
  rw [h.irqs_had hirqs, Port.attachEnd]
  split
  · rename_i hmac
    refine iff_of_false (fun hgood => hleft (by exact h.rxCtx)
      ((good_error heio).mp hgood)) ?_
    exact fun hsucceeds => Bool.false_ne_true (hmac.2.symm.trans (hsucceeds.1.1 hmac.1))
  · split
    · rename_i hport
      refine iff_of_false (fun hgood => hleft (by exact h.rxCtx)
      ((good_error heio).mp hgood)) ?_
      exact fun hsucceeds => Bool.false_ne_true (hport.symm.trans hsucceeds.1.2)
    · exact good_zero

theorem Staged.good_down (h : Staged cfg n u e c m) (hirqs : ¬plan.IrqsHad cfg) :
    Good cfg u plan (e.attachIrqs cfg plan) ↔ u.Undone ((e.unmNicFreeRingContextInFw cfg
      plan.rxDestroyed plan.txDestroyed).unmNicFreeRingContext cfg) := by
  obtain ⟨code, hres⟩ := h.irqs_fail hirqs
  rw [hres, good_error code.property]

/-- The context in another state. -/
theorem Staged.congr {e' : Port} {c' : RxCtx} (h : Staged cfg n u e c m) (hs : e'.Sized cfg)
    (hblocks : e'.blocks = e.blocks) (hcmd : e'.cmdDescHead = e.cmdDescHead)
    (hirqs : e'.irqs = e.irqs) (hpool : e'.pool = e.pool) (hrx : e'.rxCtx = some c')
    (hrds : c'.rdsRings = c.rdsRings) (hsds : c'.sdsRings = c.sdsRings) :
    Staged cfg n u e' c' m := by
  refine ⟨hs, hrx, ⟨?_, ?_⟩, ?_, ?_, ?_, hirqs.trans h.irqs⟩
  · exact hsds ▸ h.ctx.sds
  · exact hrds ▸ h.ctx.rds
  · exact hsds ▸ h.sds
  · rw [hpool, hblocks, RxCtx.blocks, hrds, hsds]
    exact h.holds
  · exact hcmd ▸ h.cmd

/-- A destroy command takes all of a context out that can be destroyed. -/
theorem destroyed_le_count (c : FwCtx) (taken : Bool) : Port.destroyed c taken ≤ c.count := by
  rw [Port.destroyed, FwCtx.count]
  split
  · rename_i hdestroyed
    rw [if_pos hdestroyed.2.2]
  · exact Nat.zero_le _

theorem destroyed_eq_count (c : FwCtx) (taken : Bool) : Port.destroyed c taken = c.count ↔
    (c.inFw = true → taken = true ∧ c.state ≤ nxHostCtxStateMax) := by
  rw [Port.destroyed, FwCtx.count]
  by_cases hfw : c.inFw = true
  · rw [if_pos hfw]
    split
    · rename_i hdestroyed
      exact iff_of_true rfl fun _ => ⟨hdestroyed.2.1, hdestroyed.1⟩
    · rename_i hdestroyed
      exact iff_of_false Nat.zero_ne_one fun h =>
        hdestroyed ⟨(h hfw).2, (h hfw).1, hfw⟩
  · rw [if_neg hfw, if_neg fun h => hfw h.2.2]
    exact iff_of_true rfl fun h => absurd h hfw

/-- **Undoing with the firmware 4.0** when the transmit context is not there. -/
theorem Staged.undone_destroyRx (h : Staged cfg n u e c m) (hu : u.Idle) (taken : Bool)
    (hfw : e.fwCtxs = u.fwCtxs + c.count) :
    u.Undone ((e.unmNicNewRxContextDestroy taken).unmNicFreeRingContext cfg) ↔
      cfg.SameSize ∧ m = 0 ∧ e.txCtx = none ∧ e.pexq = false ∧
        (c.inFw = true → taken = true ∧ c.state ≤ nxHostCtxStateMax) := by
  obtain ⟨c', hres, hrds, hsds⟩ := Port.destroyRx_eq taken h.rxCtx
  have hle := destroyed_le_count c.toFwCtx taken
  have hstaged : Staged cfg n u (e.unmNicNewRxContextDestroy taken) c' m := by
    rw [hres]
    exact h.congr ⟨h.cmdDescHead, h.nxLicDma, h.snmpStatsDma, h.pauseAddr, h.nicNetStats⟩ rfl rfl
      rfl rfl rfl hrds hsds
  rw [hstaged.undone_free hu, hres, ← destroyed_eq_count c.toFwCtx]
  refine and_congr_right fun _ => and_congr_right fun _ => and_congr_right fun _ =>
    and_congr_right fun _ => ?_
  show e.fwCtxs - _ = _ ↔ _
  omega

/-- The same with a transmit context. -/
theorem Staged.undone_destroyBoth {t : FwCtx} (h : Staged cfg n u e c m) (hu : u.Idle)
    (hv40 : cfg.fwV34 = false) (rxTaken txTaken : Bool) (htx : e.txCtx = some t)
    (hfw : e.fwCtxs = u.fwCtxs + c.count + t.count) :
    u.Undone ((e.unmNicFreeRingContextInFw cfg rxTaken txTaken).unmNicFreeRingContext cfg) ↔
      cfg.SameSize ∧ m = 0 ∧ e.pexq = false ∧
        (c.inFw = true → rxTaken = true ∧ c.state ≤ nxHostCtxStateMax) ∧
        (t.inFw = true → txTaken = true ∧ t.state ≤ nxHostCtxStateMax) := by
  obtain ⟨c', hres, hrds, hsds⟩ := Port.destroyRx_eq rxTaken h.rxCtx
  have hle := destroyed_le_count c.toFwCtx rxTaken
  have hle' := destroyed_le_count t txTaken
  have hres' : e.unmNicFreeRingContextInFw cfg rxTaken txTaken = { e with
      rxCtx := some c'
      txCtx := none
      fwCtxs := e.fwCtxs - Port.destroyed c.toFwCtx rxTaken - Port.destroyed t txTaken } := by
    rw [Port.unmNicFreeRingContextInFw, hv40, if_neg Bool.false_ne_true, hres,
      Port.destroyTx_eq (c := t) txTaken (by exact htx)]
  have hstaged : Staged cfg n u (e.unmNicFreeRingContextInFw cfg rxTaken txTaken) c' m := by
    rw [hres']
    exact h.congr ⟨h.cmdDescHead, h.nxLicDma, h.snmpStatsDma, h.pauseAddr, h.nicNetStats⟩ rfl rfl
      rfl rfl rfl hrds hsds
  rw [hstaged.undone_free hu, hres', ← destroyed_eq_count c.toFwCtx, ← destroyed_eq_count t]
  refine and_congr_right fun _ => and_congr_right fun _ => ?_
  show none = none ∧ e.pexq = false ∧ e.fwCtxs - _ - _ = _ ↔ _
  constructor
  · rintro ⟨-, hpexq, hcount⟩
    exact ⟨hpexq, by omega, by omega⟩
  · rintro ⟨hpexq, hrx, htx⟩
    exact ⟨rfl, hpexq, by omega⟩

/-- **Undoing with the firmware 3.4**, when the area that `ctx_add` names can be given back. -/
theorem Staged.undone_v34 (h : Staged cfg n u e c m) (hu : u.Idle) (hv34 : cfg.fwV34 = true)
    (rxTaken txTaken : Bool) (hpexq : e.pexq = false) (hfw : e.fwCtxs = u.fwCtxs + c.count)
    (hfreed : (pciFreeConsistent e.pool e.ctxAdd.size e.ctxAdd.ptr).Holds n
      (e.blocks + (c.blocks + 0))) :
    u.Undone ((e.unmNicFreeRingContextInFw cfg rxTaken txTaken).unmNicFreeRingContext cfg) ↔
      cfg.SameSize := by
  have hres : ∃ c' : RxCtx, e.unmNicFreeRingContextInFw cfg rxTaken txTaken = { e with
      pool := pciFreeConsistent e.pool e.ctxAdd.size e.ctxAdd.ptr
      rxCtx := some c'
      txCtx := none
      fwCtxs := e.fwCtxs - c.count } ∧ c'.rdsRings = c.rdsRings ∧ c'.sdsRings = c.sdsRings := by
    rw [Port.unmNicFreeRingContextInFw, hv34, if_pos rfl, Port.unmNicV34FreeRingContextInFw,
      FwCtx.count, h.rxCtx]
    dsimp only
    split
    · exact ⟨_, rfl, rfl, rfl⟩
    · exact ⟨c, by rw [Nat.sub_zero], rfl, rfl⟩
  obtain ⟨c', hres, hrds, hsds⟩ := hres
  have hstaged : Staged cfg n u (e.unmNicFreeRingContextInFw cfg rxTaken txTaken) c' 0 := by
    rw [hres]
    refine ⟨⟨h.cmdDescHead, h.nxLicDma, h.snmpStatsDma, h.pauseAddr, h.nicNetStats⟩, rfl,
      ⟨?_, ?_⟩, ?_, ?_, h.cmd, h.irqs⟩
    · exact hsds ▸ h.ctx.sds
    · exact hrds ▸ h.ctx.rds
    · exact hsds ▸ h.sds
    · rw [RxCtx.blocks, hrds, hsds]
      exact hfreed
  rw [hstaged.undone_free hu, hres]
  exact and_iff_left ⟨rfl, rfl, hpexq, Nat.sub_eq_of_eq_add hfw⟩

/-! ## After the receive context -/

theorem good_after_error {rc : Int} {d : Port} (hrc : rc ≠ 0) :
    Good cfg u plan (Port.attachAfter cfg plan (some (rc, d))) ↔ u.Undone d := by
  rw [Port.attachAfter, if_pos hrc, good_error hrc]

theorem after_zero (d : Port) :
    Port.attachAfter cfg plan (some (0, d)) = d.attachIrqs cfg plan := by
  rw [Port.attachAfter, if_neg fun h => h rfl]

/-- The firmware has the context just if it could be asked for it, and then in the state that it
answered. -/
structure RxMade (plan : RxPlan) (c : RxCtx) : Prop where
  had : c.inFw = true ↔ plan.dma.Had
  state : plan.dma.Had → plan.command.toOption = some c.state

theorem cleared_iff {dma : DmaPlan} {command : Except Rcode (BitVec 32)} {taken : Bool}
    {state : BitVec 32} (hstate : dma.Had → command.toOption = some state) :
    Cleared dma command taken ↔ (dma.Had → taken = true ∧ state ≤ nxHostCtxStateMax) := by
  refine imp_congr_right fun hhad => and_congr_right fun _ => ?_
  rw [hstate hhad]
  exact ⟨fun h => h state rfl, fun h s hs => Option.some.inj hs ▸ h⟩

/-- Everything before the transmit context has been had, for `Succeeds`. -/
structure Before (cfg : PortConfig) (u : Port) (plan : AttachPlan) : Prop where
  idle : u.Idle
  cmdDesc : plan.cmdDesc.Had
  blocks : plan.BlocksHad cfg
  rings : plan.rx.RingsHad cfg

theorem Staged.of_pool {p : Pool} (h : Staged cfg n u e c m)
    (hp : p.Holds n (e.blocks + (c.blocks + m))) : Staged cfg n u { e with pool := p } c m :=
  ⟨⟨h.cmdDescHead, h.nxLicDma, h.snmpStatsDma, h.pauseAddr, h.nicNetStats⟩, h.rxCtx, h.ctx, h.sds,
    hp, h.cmd, h.irqs⟩

/-- The rest of an attach with the firmware 4.0, when there is a transmit context. -/
theorem Staged.irqs_good {t : FwCtx} (h : Staged cfg n u e c 0) (hb : Before cfg u plan)
    (hv40 : cfg.fwV34 = false) (hc : RxMade plan.rx c) (htx : e.txCtx = some t)
    (hmem : plan.tx.mem = true) (hhadTx : t.inFw = true ↔ plan.tx.dma.Had)
    (hstate : plan.tx.dma.Had → plan.tx.command.toOption = some t.state)
    (hpexq : e.pexq = cfg.pexqCap) (hhad : cfg.pexqCap = true → plan.pexq = none)
    (hfw : e.fwCtxs = u.fwCtxs + c.count + t.count) :
    Good cfg u plan (e.attachIrqs cfg plan) ↔
      if plan.IrqsHad cfg then plan.EndHad cfg ∧ plan.rx.dma.Had ∧ plan.tx.dma.Had
      else cfg.SameSize ∧ cfg.pexqCap = false ∧
        Cleared plan.rx.dma plan.rx.command plan.rxDestroyed ∧
        Cleared plan.tx.dma plan.tx.command plan.txDestroyed := by
  split
  · rename_i hirqs
    rw [h.good_up hb.idle hirqs, AttachPlan.Succeeds, hb.idle.isUp, hv40,
      if_neg Bool.false_ne_true]
    refine and_congr_right fun _ => ?_
    constructor
    · intro hall
      have hrest := hall rfl
      exact ⟨hrest.2.2.2.1, hrest.2.2.2.2.2.2.2.2.1⟩
    · rintro ⟨hrx, htx⟩ -
      refine ⟨hb.cmdDesc, hb.blocks, hb.rings, hrx, ?_, hirqs, hhad, hmem, htx, ?_⟩
      · rw [hc.state hrx]
        rfl
      · rw [hstate htx]
        rfl
  · rename_i hirqs
    rw [h.good_down hirqs, h.undone_destroyBoth hb.idle hv40 _ _ htx hfw, cleared_iff hc.state,
      cleared_iff hstate, ← hc.had, ← hhadTx, hpexq]
    exact and_congr_right fun _ => and_iff_right rfl

/-- **The transmit context of the firmware 4.0**. -/
theorem Staged.tx_good (h : Staged cfg n u e c 0) (hb : Before cfg u plan)
    (hv40 : cfg.fwV34 = false) (hc : RxMade plan.rx c) (htx : e.txCtx = none)
    (hpexq : e.pexq = cfg.pexqCap) (hhad : cfg.pexqCap = true → plan.pexq = none)
    (hfw : e.fwCtxs = u.fwCtxs + c.count) :
    Good cfg u plan (Port.attachAfter cfg plan (Port.afterTxContext cfg plan
      (e.unmNicNewTxContextPrepare plan.tx))) ↔ plan.KeepsTx cfg := by
  have hres := Port.prepareTx_result plan.tx htx h.holds
  rw [AttachPlan.KeepsTx]
  generalize e.unmNicNewTxContextPrepare plan.tx = res at hres ⊢
  cases hres with
  | crashes hmem hcrashes =>
    exact iff_of_false not_good_none fun hkeeps => hkeeps.1 ⟨hmem, hcrashes⟩
  | @failed rc p hrc hplan hholds =>
    have hnot : ¬(plan.tx.mem = true ∧ plan.tx.dma.Crashes) := by
      rintro ⟨hmem, hcrashes⟩
      rcases hplan with hfalse | hrefused
      · exact Bool.false_ne_true (hfalse.symm.trans hmem)
      · exact hcrashes.2 hrefused.1.2
    rw [Port.afterTxContext, if_neg hrc, good_after_error hrc, and_iff_right hnot, if_pos hplan,
      cleared_iff hc.state,
      (h.of_pool hholds).undone_destroyRx hb.idle plan.rxDestroyed hfw, ← hc.had, ← hpexq]
    refine and_congr_right fun _ => (and_iff_right rfl).trans ?_
    exact and_iff_right htx
  | ignored hmem hgone hholds =>
    have hfails : ¬(plan.tx.mem = false ∨ Refused plan.tx.dma plan.tx.command) :=
      not_or.mpr ⟨fun hfalse => Bool.false_ne_true (hfalse.symm.trans hmem),
        fun hrefused => hrefused.1.1 hgone⟩
    have hhadTx : ¬plan.tx.dma.Had := fun hhad => hhad.1 hgone
    have hstaged := h.of_pool hholds
    rw [Port.afterTxContext, if_pos rfl, after_zero, and_iff_right fun hcrash => hcrash.2.1 hgone,
      if_neg hfails]
    exact Staged.irqs_good (t := ⟨nxHostCtxStateAllocated, false⟩)
      ⟨⟨hstaged.cmdDescHead, hstaged.nxLicDma, hstaged.snmpStatsDma, hstaged.pauseAddr,
        hstaged.nicNetStats⟩, hstaged.rxCtx, hstaged.ctx, hstaged.sds, hholds, hstaged.cmd,
        hstaged.irqs⟩
      hb hv40 hc rfl hmem (iff_of_false Bool.false_ne_true hhadTx)
      (fun hhad => absurd hhad hhadTx) hpexq hhad hfw
  | made hmem hhadTx hcommand hholds =>
    have hfails : ¬(plan.tx.mem = false ∨ Refused plan.tx.dma plan.tx.command) :=
      not_or.mpr ⟨fun hfalse => Bool.false_ne_true (hfalse.symm.trans hmem),
        fun hrefused => absurd (hcommand.symm.trans hrefused.2) nofun⟩
    have hstaged := h.of_pool hholds
    rw [Port.afterTxContext, if_pos rfl, after_zero,
      and_iff_right fun hcrash => hcrash.2.2 hhadTx.2, if_neg hfails]
    exact Staged.irqs_good (t := ⟨_, true⟩)
      ⟨⟨hstaged.cmdDescHead, hstaged.nxLicDma, hstaged.snmpStatsDma, hstaged.pauseAddr,
        hstaged.nicNetStats⟩, hstaged.rxCtx, hstaged.ctx, hstaged.sds, hholds, hstaged.cmd,
        hstaged.irqs⟩
      hb hv40 hc rfl hmem (iff_of_true rfl hhadTx) (fun _ => hcommand) hpexq hhad
      (congrArg (· + 1) hfw)

/-- **After the receive context** of the firmware 4.0. -/
theorem Staged.finish_good (h : Staged cfg n u e c 0) (hb : Before cfg u plan)
    (hv40 : cfg.fwV34 = false) (hc : RxMade plan.rx c) (htx : e.txCtx = none)
    (hpexq : e.pexq = false) (hfw : e.fwCtxs = u.fwCtxs + c.count) :
    Good cfg u plan (Port.attachAfter cfg plan (e.finishContexts cfg plan)) ↔
      if cfg.pexqCap = true ∧ plan.pexq ≠ none then cfg.SameSize ∧ ¬plan.rx.dma.Had
      else plan.KeepsTx cfg := by
  have hcount : e.fwCtxs = u.fwCtxs ↔ ¬plan.rx.dma.Had := by
    rw [hfw, ← hc.had, FwCtx.count]
    split
    · rename_i hin
      exact iff_of_false (Nat.succ_ne_self _) fun hnot => hnot hin
    · rename_i hin
      exact iff_of_true rfl hin
  have hsized {pexq : Bool} : Staged cfg n u { e with pexq } c 0 :=
    h.congr ⟨h.cmdDescHead, h.nxLicDma, h.snmpStatsDma, h.pauseAddr, h.nicNetStats⟩ rfl rfl rfl
      rfl h.rxCtx rfl rfl
  rw [Port.finishContexts]
  by_cases hcap : cfg.pexqCap = true
  · rw [if_pos hcap, if_pos hcap]
    cases hplan : plan.pexq with
    | some code =>
      rw [if_pos ⟨hcap, Option.some_ne_none code⟩, good_after_error code.property,
        hsized.undone_free hb.idle]
      refine and_congr_right fun _ => (and_iff_right rfl).trans ?_
      exact (and_iff_right htx).trans ((and_iff_right rfl).trans hcount)
    | none =>
      rw [if_neg fun hfails => hfails.2 rfl]
      exact hsized.tx_good hb hv40 hc htx hcap.symm (fun _ => hplan) hfw
  · have hcap' : cfg.pexqCap = false := Bool.eq_false_of_not_eq_true hcap
    rw [if_neg hcap, if_neg hcap, if_neg fun hfails => hcap hfails.1]
    exact h.tx_good hb hv40 hc htx (hpexq.trans hcap'.symm) (fun h => absurd h hcap) hfw

end Staged

/-! ## From the blocks on -/

/-- The blocks of the port are there, and no context. -/
structure Filled (cfg : PortConfig) (n : Nat) (u e : Port) : Prop extends e.Sized cfg where
  holds : e.pool.Holds n e.blocks
  cmd : e.cmdDescHead.isSome = true
  ctxAdd : e.ctxAdd = u.ctxAdd
  rxCtx : e.rxCtx = none
  txCtx : e.txCtx = none
  irqs : e.irqs = u.irqs
  pexq : e.pexq = false
  fwCtxs : e.fwCtxs = u.fwCtxs
  isUp : e.isUp = false

section Filled
variable {u e : Port} {plan : AttachPlan}

/-- Freeing the blocks when no receive context has come of the call. -/
theorem Filled.undone_free {p : Pool} {ctxAdd : DmaArea} {txCtx : Option FwCtx}
    (h : Filled cfg n u e) (hu : u.Idle) (hp : p.Holds n (m + e.blocks)) :
    u.Undone (({ e with pool := p, ctxAdd, txCtx } : Port).unmNicFreeRingContext cfg) ↔
      cfg.SameSize ∧ m = 0 ∧ txCtx = none := by
  have hholds : p.Holds n
      (e.blocks + (({ e with pool := p, ctxAdd, txCtx } : Port).rxBlocks + m)) := by
    rw [Port.rxBlocks, h.rxCtx]
    show p.Holds n (e.blocks + (0 + m))
    rwa [Multiset.zero_add, Multiset.add_comm]
  have hsized : ({ e with pool := p, ctxAdd, txCtx } : Port).Sized cfg :=
    ⟨h.cmdDescHead, h.nxLicDma, h.snmpStatsDma, h.pauseAddr, h.nicNetStats⟩
  have hrx : ∀ c ∈ e.rxCtx, c.Sized cfg := fun c hc =>
    absurd (hc.symm.trans h.rxCtx) (Option.some_ne_none c)
  rw [Port.undone_freeRing hu hsized hrx hholds h.cmd]
  exact and_congr_right fun _ => and_congr_right fun _ =>
    and_iff_left ⟨h.irqs, h.pexq, h.fwCtxs⟩

/-- A receive context has come of the call. -/
theorem Filled.staged {p : Pool} {c : RxCtx} {ctxAdd : DmaArea} {txCtx : Option FwCtx}
    {fwCtxs : Nat} (h : Filled cfg n u e) (hs : c.Sized cfg)
    (hsds : c.sdsRings.length = cfg.maxPossibleRssRings)
    (hp : p.Holds n (c.blocks + (m + e.blocks))) :
    Staged cfg n u { e with pool := p, rxCtx := some c, ctxAdd, txCtx, fwCtxs } c m := by
  refine ⟨⟨h.cmdDescHead, h.nxLicDma, h.snmpStatsDma, h.pauseAddr, h.nicNetStats⟩, rfl, hs, hsds,
    ?_, h.cmd, h.irqs⟩
  show p.Holds n (e.blocks + (c.blocks + m))
  rwa [Multiset.add_comm, Multiset.add_assoc]

/-- The same with the firmware 3.4, which has the transmit context from the same area. -/
theorem Filled.stagedV34 {p : Pool} {c : RxCtx} {rq : Block} (tx : FwCtx)
    (h : Filled cfg n u e) (hs : c.Sized cfg)
    (hsds : c.sdsRings.length = cfg.maxPossibleRssRings)
    (hp : p.Holds n (c.blocks + (rq ::ₘ e.blocks))) :
    Staged cfg n u { e with
      pool := p
      rxCtx := some c
      ctxAdd := ⟨some rq, cfg.sizeofHostrqRx⟩
      txCtx := some tx
      fwCtxs := e.fwCtxs + 1 } c {rq} :=
  h.staged hs hsds (by rwa [Multiset.singleton_add])

/-- **The receive context of the firmware 3.4** and what follows it. -/
theorem Filled.v34_good {r : Option (Int × Port)} (h : Filled cfg u.pool.length u e)
    (hb : Before cfg u plan) (hv34 : cfg.fwV34 = true)
    (hres : RxResult cfg u.pool.length e.blocks e plan.rx r) :
    Good cfg u plan (Port.attachAfter cfg plan (Port.afterRxContext cfg plan r)) ↔
      u.KeepsV34 cfg plan := by
  have hsucceeds : plan.Succeeds cfg u.isUp ↔ plan.EndHad cfg ∧ (plan.rx.dma.Had ∧
      plan.rx.command.toOption.isSome = true ∧ plan.IrqsHad cfg ∧ plan.rx.txMem = true) := by
    rw [AttachPlan.Succeeds, hb.idle.isUp, hv34, if_pos rfl, imp_iff_right rfl,
      and_iff_right hb.cmdDesc, and_iff_right hb.blocks, and_iff_right hb.rings]
  rw [Port.KeepsV34]
  cases hres with
  | unmade hplan => exact absurd hb.rings hplan
  | refused hv40 => exact absurd (hv40.symm.trans hv34) Bool.false_ne_true
  | made hv40 => exact absurd (hv40.symm.trans hv34) Bool.false_ne_true
  | crashes hplan hnull =>
    refine iff_of_false not_good_none ?_
    split
    · rename_i hgone
      rcases hnull with hcrashes | ⟨-, hhad, -⟩
      · exact absurd hgone hcrashes.1
      · exact absurd hgone hhad.1
    · rintro ⟨hhad, htx, -⟩
      rcases hnull with hcrashes | ⟨-, -, hnone⟩
      · exact hcrashes.2 hhad.2
      · exact Bool.false_ne_true (hnone.symm.trans htx)
  | @refusedV34 p rq tx _ hplan hrefused hholds =>
    rw [← Multiset.singleton_add] at hholds
    rw [if_neg hrefused.1.1, Port.afterRxContext, if_pos (by decide), good_after_error (by decide),
      h.undone_free hb.idle hholds]
    refine iff_of_false (fun hundone => Option.some_ne_none _ hundone.2.2) ?_
    rintro ⟨-, -, hcommand, -⟩
    rw [hrefused.2] at hcommand
    exact Bool.false_ne_true hcommand
  | @ignored p c hplan hgone hfw hs hsds hholds =>
    have hstaged : Staged cfg u.pool.length u { e with pool := p, rxCtx := some c } c 0 :=
      h.staged hs hsds ((Multiset.zero_add e.blocks).symm ▸ hholds)
    rw [if_pos hgone, Port.afterRxContext, if_neg (by decide), hv34, if_pos rfl, after_zero]
    by_cases hirqs : plan.IrqsHad cfg
    · rw [hstaged.good_up hb.idle hirqs, hsucceeds]
      exact iff_of_false (fun hall => hall.2.1.1 hgone) fun hall => hall.2.1 hirqs
    · rw [hstaged.good_down hirqs, and_iff_right hirqs]
      cases hptr : u.ctxAdd.ptr with
      | none =>
        rw [hstaged.undone_v34 hb.idle hv34 _ _ h.pexq, and_iff_left rfl]
        · show e.fwCtxs = u.fwCtxs + c.count
          rw [FwCtx.count, hfw, if_neg Bool.false_ne_true]
          exact h.fwCtxs
        · show (pciFreeConsistent p e.ctxAdd.size e.ctxAdd.ptr).Holds _ _
          rw [h.ctxAdd, hptr]
          exact hstaged.holds
      | some b =>
        -- the area of an earlier attach is freed a second time
        refine iff_of_false (fun hundone => ?_) fun hall => Option.some_ne_none b hall.2
        obtain ⟨k, -, hk⟩ := hundone.held
        refine absurd ((Port.freeRing_none ?_).symm.trans hk) nofun
        obtain ⟨c', k, hres, -⟩ := Port.freeInFw_eq cfg plan.rxDestroyed
          plan.txDestroyed hstaged.rxCtx
        rw [hres, hv34, if_pos rfl]
        show (pciFreeConsistent p e.ctxAdd.size e.ctxAdd.ptr).held = none
        rw [h.ctxAdd, hptr]
        exact hholds.give_again (hb.idle.ctxAdd b hptr)
  | @madeV34 p c rq tx _ hplan hhad htx hcommand hfw hs hsds hrq hholds =>
    have hstaged := h.stagedV34 tx hs hsds hholds
    rw [if_neg fun hgone => hhad.1 hgone, Port.afterRxContext, if_neg (by decide), hv34,
      if_pos rfl, after_zero, and_iff_right hhad, and_iff_right htx, and_iff_right hcommand]
    by_cases hirqs : plan.IrqsHad cfg
    · rw [hstaged.good_up hb.idle hirqs, hsucceeds, imp_iff_right hirqs]
      refine and_congr_right fun _ => iff_of_true ⟨hhad, hcommand, hirqs, htx⟩ ?_
      exact fun hnot => absurd hirqs hnot
    · rw [hstaged.good_down hirqs, hstaged.undone_v34 hb.idle hv34 _ _ h.pexq]
      · exact ⟨fun hsame => ⟨fun hall => absurd hall hirqs, fun _ => hsame⟩,
          fun hall => hall.2 hirqs⟩
      · show e.fwCtxs + 1 = u.fwCtxs + c.count
        rw [FwCtx.count, hfw, if_pos rfl, h.fwCtxs]
      · have hheld := hstaged.holds
        have hrotate : e.blocks + (c.blocks + {rq}) = rq ::ₘ (e.blocks + (c.blocks + 0)) := by
          rw [← Multiset.singleton_add]
          abel
        rw [← hrq]
        exact (hrotate ▸ hheld : p.Holds _ _).give

/-- **The receive context of the firmware 4.0** and what follows it. -/
theorem Filled.v40_good {r : Option (Int × Port)} (h : Filled cfg n u e)
    (hb : Before cfg u plan) (hv40 : cfg.fwV34 = false)
    (hres : RxResult cfg n e.blocks e plan.rx r) :
    Good cfg u plan (Port.attachAfter cfg plan (Port.afterRxContext cfg plan r)) ↔
      plan.KeepsV40 cfg := by
  have hnotV34 : ¬cfg.fwV34 = true := fun hv34 => Bool.false_ne_true (hv40.symm.trans hv34)
  rw [AttachPlan.KeepsV40]
  cases hres with
  | unmade hplan => exact absurd hb.rings hplan
  | refusedV34 hv34 => exact absurd hv34 hnotV34
  | madeV34 hv34 => exact absurd hv34 hnotV34
  | crashes hplan hnull =>
    refine iff_of_false not_good_none fun hkeeps => ?_
    rcases hnull with hcrashes | ⟨hv34, -⟩
    · exact hkeeps.1 hcrashes
    · exact hnotV34 hv34
  | @refused p _ hplan hrefused hholds =>
    rw [← Multiset.zero_add e.blocks] at hholds
    rw [and_iff_right fun hcrashes => hcrashes.2 hrefused.1.2, if_pos hrefused,
      Port.afterRxContext, if_pos (by decide), good_after_error (by decide),
      h.undone_free hb.idle hholds]
    exact and_iff_left ⟨rfl, h.txCtx⟩
  | @ignored p c hplan hgone hfw hs hsds hholds =>
    have hnotHad : ¬plan.rx.dma.Had := fun hhad => hhad.1 hgone
    have hstaged : Staged cfg n u { e with pool := p, rxCtx := some c } c 0 :=
      h.staged hs hsds ((Multiset.zero_add e.blocks).symm ▸ hholds)
    have hmade : RxMade plan.rx c := by
      refine ⟨?_, fun hhad => absurd hhad hnotHad⟩
      rw [hfw]
      exact iff_of_false Bool.false_ne_true hnotHad
    rw [and_iff_right fun hcrashes => hcrashes.1 hgone, if_neg fun hrefused => hnotHad hrefused.1,
      Port.afterRxContext, if_neg (by decide), if_neg hnotV34]
    refine hstaged.finish_good hb hv40 hmade h.txCtx h.pexq ?_
    show e.fwCtxs = u.fwCtxs + c.count
    rw [FwCtx.count, hfw, if_neg Bool.false_ne_true]
    exact h.fwCtxs
  | @made p c _ hplan hhad hcommand hfw hs hsds hholds =>
    have hnotRefused : ¬Refused plan.rx.dma plan.rx.command := fun hrefused =>
      Option.some_ne_none _ (hcommand.symm.trans hrefused.2)
    have hstaged : Staged cfg n u
        { e with pool := p, rxCtx := some c, fwCtxs := e.fwCtxs + 1 } c 0 :=
      h.staged hs hsds ((Multiset.zero_add e.blocks).symm ▸ hholds)
    have hmade : RxMade plan.rx c := ⟨iff_of_true hfw hhad, fun _ => hcommand⟩
    rw [and_iff_right fun hcrashes => hcrashes.2 hhad.2, if_neg hnotRefused,
      Port.afterRxContext, if_neg (by decide), if_neg hnotV34]
    refine hstaged.finish_good hb hv40 hmade h.txCtx h.pexq ?_
    show e.fwCtxs + 1 = u.fwCtxs + c.count
    rw [FwCtx.count, hfw, if_pos rfl, h.fwCtxs]

/-- **From the blocks on**, whatever the receive context comes to. -/
theorem Filled.good (h : Filled cfg u.pool.length u e) (hu : u.Idle) (hcmd : plan.cmdDesc.Had)
    (hblocks : plan.BlocksHad cfg) :
    Good cfg u plan (Port.attachAfter cfg plan
      (Port.afterRxContext cfg plan (e.nxNicCreateRxCtx cfg plan.rx))) ↔
      if plan.BlocksHad cfg ∧ plan.rx.RingsHad cfg then
        if cfg.fwV34 then u.KeepsV34 cfg plan else plan.KeepsV40 cfg
      else cfg.SameSize := by
  have hres := Port.createRx_result cfg plan.rx h.rxCtx h.txCtx h.holds
  by_cases hrings : plan.rx.RingsHad cfg
  · have hb : Before cfg u plan := ⟨hu, hcmd, hblocks, hrings⟩
    rw [if_pos ⟨hblocks, hrings⟩]
    split
    · rename_i hv34
      exact h.v34_good hb hv34 hres
    · rename_i hv34
      exact h.v40_good hb (Bool.eq_false_of_not_eq_true hv34) hres
  · rw [if_neg fun hboth => hrings hboth.2]
    generalize e.nxNicCreateRxCtx cfg plan.rx = r at hres ⊢
    cases hres with
    | unmade _ hholds =>
      rw [← Multiset.zero_add e.blocks] at hholds
      rw [Port.afterRxContext, if_pos (by decide), good_after_error (by decide),
        h.undone_free hu hholds]
      exact and_iff_left ⟨rfl, h.txCtx⟩
    | crashes hplan => exact absurd hplan hrings
    | ignored hplan => exact absurd hplan hrings
    | refused _ hplan => exact absurd hplan hrings
    | refusedV34 _ hplan => exact absurd hplan hrings
    | made _ hplan => exact absurd hplan hrings
    | madeV34 _ hplan => exact absurd hplan hrings

end Filled

/-! ## Attach -/

namespace Port
variable {u e : Port} {plan : AttachPlan}

/-- The blocks have been had before any context. -/
theorem Begun.filled {k : Nat} (h : Begun cfg n { u with maxTxDescCount := k, cmdBufArr := true } e)
    (hu : u.Idle) (hcmd : e.cmdDescHead.isSome = true) : Filled cfg n u e :=
  ⟨h.toSized, h.holds, hcmd, h.ctxAdd, h.rxCtx.trans hu.rxCtx, h.txCtx.trans hu.txCtx, h.irqs,
    h.pexq.trans hu.pexq, h.fwCtxs, h.isUp.trans hu.isUp⟩

/-- Without a command ring the blocks are freed in their sizes. -/
theorem Begun.undone {k : Nat} (h : Begun cfg n { u with maxTxDescCount := k, cmdBufArr := true } e)
    (hu : u.Idle) (hnone : e.cmdDescHead = none) : u.Undone (e.unmNicFreeRingContext cfg) := by
  have hrx : e.rxCtx = none := h.rxCtx.trans hu.rxCtx
  have hholds : e.pool.Holds n (e.blocks + (e.rxBlocks + 0)) := by
    rw [rxBlocks, hrx]
    exact (Multiset.add_zero e.blocks).symm ▸ h.holds
  have hfreed := freeRing_holds h.toSized
    (fun c hc => absurd (hc.symm.trans hrx) (Option.some_ne_none c)) hholds (.inr hnone)
  refine ⟨?_, 0, hu.pool.held, hfreed.held⟩
  rw [freeRing_eq]
  exact ⟨hu.cmdBufArr.symm, hu.cmdDescHead.symm, hu.pauseAddr.symm, hu.nxLicDma.symm,
    hu.snmpStatsDma.symm, hu.nicNetStats.symm, hu.rxCtx.symm, h.txCtx, h.irqs, h.pexq, h.fwCtxs⟩

/-- **One attach**: the condition is just what the property needs. -/
theorem attach_good_iff (hu : u.Idle) (plan : AttachPlan) :
    (PortAction.attach plan).Balances cfg u ↔ (PortAction.attach plan).Keeps cfg u := by
  have heio : eio ≠ 0 := by decide
  have henomem : enomem ≠ 0 := by decide
  have hself {k : Nat} : u.Undone { u with maxTxDescCount := k, cmdBufArr := false } :=
    ⟨⟨hu.cmdBufArr.symm, rfl, rfl, rfl, rfl, rfl, rfl, rfl, rfl, rfl, rfl⟩, 0, hu.pool.held,
      hu.pool.held⟩
  have hsame : u.Undone u := ⟨⟨rfl, rfl, rfl, rfl, rfl, rfl, rfl, rfl, rfl, rfl, rfl⟩, 0,
    hu.pool.held, hu.pool.held⟩
  show Good cfg u plan (u.unmNicAttach cfg plan) ↔ u.KeepsAttach cfg plan
  rw [unmNicAttach, KeepsAttach]
  by_cases hdriver : cfg.driverMismatch = true
  · rw [if_pos hdriver, good_error heio]
    exact iff_of_true hsame (.inl (.inl hdriver))
  have hdown : ¬u.isUp = true := fun hup => Bool.false_ne_true (hu.isUp.symm.trans hup)
  rw [if_neg hdriver, if_neg hdown]
  by_cases hfirmware : plan.firmware = false
  · rw [if_pos hfirmware, good_error heio]
    exact iff_of_true hsame (.inl (.inr (.inr (.inl hfirmware))))
  rw [if_neg hfirmware, unmNicHwResources]
  by_cases hpeg : plan.receivePeg = false
  · rw [if_pos hpeg, good_after_error heio]
    exact iff_of_true hsame (.inl (.inr (.inr (.inr (.inl hpeg)))))
  rw [if_neg hpeg]
  rcases u.allocCmdBufArr_cases plan with ⟨hbuf, k, hres⟩ | ⟨hbuf, k, hres⟩
  · have hearly : (cfg.driverMismatch = true ∨ u.isUp = true ∨ plan.firmware = false ∨
        plan.receivePeg = false ∨ ¬plan.CmdBufHad u.maxTxDescCount ∨ ¬plan.cmdDesc.Had) ↔
        ¬plan.cmdDesc.Had := by
      rw [or_iff_right hdriver, or_iff_right hdown, or_iff_right hfirmware, or_iff_right hpeg,
        or_iff_right fun hnot => hnot hbuf]
    obtain ⟨ok, e, hblocks, hbegun, hok, hcmd⟩ := allocBlocks_spec cfg
      (d := { u with maxTxDescCount := k, cmdBufArr := true }) plan hu.pool
      ⟨hu.cmdDescHead, hu.nxLicDma, hu.snmpStatsDma, hu.pauseAddr, hu.nicNetStats⟩
    rw [hearly, hres]
    dsimp only
    rw [hblocks]
    cases ok with
    | true =>
      obtain ⟨hdesc, hall⟩ := hok.mp rfl
      rw [or_iff_right fun hnot => hnot hdesc]
      exact (hbegun.filled hu (hcmd.mpr hdesc)).good hu hdesc hall
    | false =>
      dsimp only
      rw [good_after_error henomem]
      by_cases hdesc : plan.cmdDesc.Had
      · have hnot : ¬(plan.BlocksHad cfg ∧ plan.rx.RingsHad cfg) := fun hboth =>
          Bool.false_ne_true (hok.mpr ⟨hdesc, hboth.1⟩)
        have hholds : e.pool.Holds u.pool.length (0 + e.blocks) :=
          (Multiset.zero_add e.blocks).symm ▸ hbegun.holds
        have hfilled := hbegun.filled hu (hcmd.mpr hdesc)
        rw [or_iff_right fun hnot => hnot hdesc, if_neg hnot]
        exact (hfilled.undone_free hu hholds).trans (and_iff_left ⟨rfl, hfilled.txCtx⟩)
      · refine iff_of_true (hbegun.undone hu ?_) (.inl hdesc)
        exact Option.not_isSome_iff_eq_none.mp fun hsome => hdesc (hcmd.mp hsome)
  · rw [hres]
    dsimp only
    rw [good_after_error henomem]
    exact iff_of_true hself (.inl (.inr (.inr (.inr (.inr (.inl hbuf))))))

end Port

/-! ## From one call to the next -/

/-- An area that `ctx_add` names is a block that has been handed out. -/
def Port.Tracks (d : Port) : Prop := ∀ b ∈ d.ctxAdd.ptr, b.id < d.pool.length

/-- The blocks that `unm_nic_free_ring_context_in_fw` frees. -/
def Port.areas (cfg : PortConfig) (d : Port) : Multiset Block :=
  if cfg.fwV34 then blockOf d.ctxAdd.ptr else 0

/-- A port that is up, with the blocks and the contexts of its attach. -/
structure Port.Running (cfg : PortConfig) (d : Port) : Prop extends d.Sized cfg where
  isUp : d.isUp = true
  tracks : d.Tracks
  cmd : d.cmdDescHead.isSome = true
  area : cfg.fwV34 = true → ∀ b ∈ d.ctxAdd.ptr, b.size = d.ctxAdd.size
  rx : ∃ n c, d.rxCtx = some c ∧ c.Sized cfg ∧ d.pool.Holds n (d.blocks + (c.blocks + d.areas cfg))

/-- What holds of a port between two calls. -/
def Port.Kept (cfg : PortConfig) (d : Port) : Prop := d.Idle ∨ d.Running cfg

namespace Port
variable {u d : Port}

theorem kept_initial (maxTxDescCount : Nat) : (Port.initial maxTxDescCount).Kept cfg := by
  have hnone : ∀ b ∈ (Port.initial maxTxDescCount).ctxAdd.ptr, b.id < 0 := fun b hb =>
    absurd hb nofun
  exact .inl ⟨⟨rfl, rfl, rfl, rfl, rfl⟩, Pool.holds_nil, rfl, hnone, rfl, rfl, rfl, rfl⟩

/-- What a call that is undone leaves. -/
theorem Undone.idle (h : u.Undone d) (hu : u.Idle) (htracks : d.Tracks) (hup : d.isUp = false) :
    d.Idle := by
  obtain ⟨m, hm, hm'⟩ := h.held
  obtain rfl := Option.some.inj (hu.pool.held.symm.trans hm)
  exact ⟨⟨h.cmdDescHead.trans hu.cmdDescHead, h.nxLicDma.trans hu.nxLicDma,
    h.snmpStatsDma.trans hu.snmpStatsDma, h.pauseAddr.trans hu.pauseAddr,
    h.nicNetStats.trans hu.nicNetStats⟩, .restart hm', h.cmdBufArr.trans hu.cmdBufArr, htracks,
    h.rxCtx.trans hu.rxCtx, h.txCtx.trans hu.txCtx, h.pexq.trans hu.pexq, hup⟩

theorem Tracks.freeRing (h : d.Tracks) : (d.unmNicFreeRingContext cfg).Tracks := by
  intro b hb
  rw [freeRing_eq] at hb
  exact Nat.lt_of_lt_of_le (h b hb) (length_freeRing d)

theorem Tracks.freeInFw (cfg : PortConfig) {c : RxCtx} (h : d.Tracks) (hrx : d.rxCtx = some c)
    (rxTaken txTaken : Bool) : (d.unmNicFreeRingContextInFw cfg rxTaken txTaken).Tracks := by
  obtain ⟨c', k, hres, -⟩ := freeInFw_eq cfg rxTaken txTaken hrx
  rw [hres]
  intro b hb
  have hold := h b hb
  show b.id < List.length (if cfg.fwV34 then _ else _)
  split
  · exact Nat.lt_of_lt_of_le hold (length_free _ _ _)
  · exact hold

/-! ## Detach -/

/-- What detach does with a port that is up, before it frees the blocks. -/
theorem Running.detach_eq (h : u.Running cfg) (rxTaken txTaken : Bool) : ∃ (n : Nat) (e : Port),
    u.unmNicDetach cfg rxTaken txTaken =
      { e.unmNicFreeRingContext cfg with pexq := false, isUp := false } ∧
    e.Sized cfg ∧ (∀ c ∈ e.rxCtx, c.Sized cfg) ∧
    e.pool.Holds n (e.blocks + (e.rxBlocks + 0)) ∧ e.cmdDescHead.isSome = true ∧
    e.txCtx = none ∧ e.Tracks := by
  obtain ⟨n, c, hrx, hc, hholds⟩ := h.rx
  obtain ⟨c', k, hres, hrds, hsds⟩ := freeInFw_eq cfg rxTaken txTaken hrx
  have htracks := h.tracks.freeInFw cfg hrx rxTaken txTaken
  have hc' : c'.Sized cfg := ⟨hsds ▸ hc.sds, hrds ▸ hc.rds⟩
  have hfreed : (if cfg.fwV34 then pciFreeConsistent u.pool u.ctxAdd.size u.ctxAdd.ptr
      else u.pool).Holds n (u.blocks + (c'.blocks + 0)) := by
    rw [RxCtx.blocks, hrds, hsds, ← RxCtx.blocks]
    rw [areas] at hholds
    split
    · rename_i hv34
      rw [if_pos hv34] at hholds
      have hrotate : u.blocks + (c.blocks + blockOf u.ctxAdd.ptr) =
          blockOf u.ctxAdd.ptr + (u.blocks + (c.blocks + 0)) := by
        abel
      exact holds_free (hrotate ▸ hholds) (h.area hv34)
    · rename_i hv40
      rwa [if_neg hv40] at hholds
  rw [hres] at htracks
  rw [unmNicDetach, if_pos h.isUp, hres]
  refine ⟨n, _, rfl, ⟨h.cmdDescHead, h.nxLicDma, h.snmpStatsDma, h.pauseAddr, h.nicNetStats⟩,
    fun c'' hc'' => ?_, hfreed, h.cmd, rfl, htracks⟩
  obtain rfl := Option.some.inj hc''
  exact hc'

/-- A port is idle after a detach that has freed all. -/
theorem idle_of_freeRing (htx : d.txCtx = none) (htracks : d.Tracks)
    (h : (d.unmNicFreeRingContext cfg).pool.held = some 0) :
    ({ d.unmNicFreeRingContext cfg with pexq := false, isUp := false } : Port).Idle := by
  have htracks : (d.unmNicFreeRingContext cfg).Tracks := htracks.freeRing
  have heq := freeRing_eq cfg d
  rw [heq] at htracks
  rw [heq]
  exact ⟨⟨rfl, rfl, rfl, rfl, rfl⟩, .restart h, rfl, htracks, rfl, htx, rfl, rfl⟩

/-- **Detach** of a port that is up frees all just if the command ring is freed in its size. -/
theorem Running.detach_iff (h : u.Running cfg) (rxTaken txTaken : Bool) :
    (u.unmNicDetach cfg rxTaken txTaken).pool.held = some 0 ↔ cfg.SameSize := by
  obtain ⟨n, e, hres, hs, hrx, hholds, hcmd, -⟩ := h.detach_eq rxTaken txTaken
  rw [hres]
  constructor
  · intro hheld
    by_contra hother
    exact absurd ((freeRing_wrong hs hholds hother hcmd).symm.trans hheld) nofun
  · exact fun hsame => (freeRing_holds hs hrx hholds (.inl hsame)).held

theorem Idle.detach_held (h : u.Idle) (rxTaken txTaken : Bool) :
    (u.unmNicDetach cfg rxTaken txTaken).pool.held = some 0 := by
  have hb := h.toBare.begun cfg h.pool
  have hholds : u.pool.Holds u.pool.length (u.blocks + (u.rxBlocks + 0)) := by
    rw [rxBlocks, h.rxCtx]
    exact (Multiset.add_zero u.blocks).symm ▸ hb.holds
  rw [unmNicDetach, if_neg fun hup => Bool.false_ne_true (h.isUp.symm.trans hup)]
  exact (freeRing_holds hb.toSized
    (fun c hc => absurd (hc.symm.trans h.rxCtx) (Option.some_ne_none c)) hholds
    (.inr h.cmdDescHead)).held

/-- **One detach**. -/
theorem detach_balances_iff (h : u.Kept cfg) (rxTaken txTaken : Bool) :
    (PortAction.detach rxTaken txTaken).Balances cfg u ↔
      (PortAction.detach rxTaken txTaken).Keeps cfg u := by
  rcases h with hidle | hrunning
  · exact iff_of_true (hidle.detach_held rxTaken txTaken) fun hup =>
      absurd (hidle.isUp.symm.trans hup) Bool.false_ne_true
  · exact (hrunning.detach_iff rxTaken txTaken).trans (imp_iff_right hrunning.isUp).symm

theorem Kept.detach (h : u.Kept cfg) {rxTaken txTaken : Bool}
    (hheld : (u.unmNicDetach cfg rxTaken txTaken).pool.held = some 0) :
    (u.unmNicDetach cfg rxTaken txTaken).Kept cfg := by
  rcases h with hidle | hrunning
  · rw [unmNicDetach, if_neg fun hup => Bool.false_ne_true (hidle.isUp.symm.trans hup)]
      at hheld ⊢
    exact .inl (idle_of_freeRing hidle.txCtx hidle.ctxAdd hheld)
  · obtain ⟨n, e, hres, -, -, -, -, htx, htracks⟩ := hrunning.detach_eq rxTaken txTaken
    rw [hres] at hheld ⊢
    exact .inl (idle_of_freeRing htx htracks hheld)

end Port

/-! ## A port that is attached -/

/-- When an attach is as the property says, the port is left idle or running. -/
def Keeping (cfg : PortConfig) (u : Port) (plan : AttachPlan) (r : Option (Int × Port)) : Prop :=
  ∀ err d', r = some (err, d') → Good cfg u plan r → d'.Kept cfg

section Keeping
variable {u e : Port} {c : RxCtx} {plan : AttachPlan}

theorem keeping_error {rc : Int} (hu : u.Idle) (hrc : rc ≠ 0) (htracks : e.Tracks)
    (hup : e.isUp = false) : Keeping cfg u plan (some (rc, e)) := by
  intro err d' hres hgood
  obtain ⟨rfl, rfl⟩ := Prod.mk.inj (Option.some.inj hres)
  exact .inl (((good_error hrc).mp hgood).idle hu htracks hup)

theorem isUp_freeRing (d : Port) : (d.unmNicFreeRingContext cfg).isUp = d.isUp := by
  rw [Port.freeRing_eq]

/-- The contexts are there. -/
theorem Staged.keeping_irqs (h : Staged cfg n u e c m) (hu : u.Idle) (htracks : e.Tracks)
    (hup : e.isUp = false) (hareas : plan.Succeeds cfg u.isUp → m = e.areas cfg ∧
      (cfg.fwV34 = true → ∀ b ∈ e.ctxAdd.ptr, b.size = e.ctxAdd.size)) :
    Keeping cfg u plan (e.attachIrqs cfg plan) := by
  by_cases hirqs : plan.IrqsHad cfg
  · intro err d' hres hgood
    have hsucceeds := (h.good_up hu hirqs).mp hgood
    obtain ⟨hm, harea⟩ := hareas hsucceeds
    obtain ⟨hend, -⟩ := hsucceeds
    rw [h.irqs_had hirqs, Port.attachEnd, if_neg fun hmac => Bool.false_ne_true
      (hmac.2.symm.trans (hend.1 hmac.1)), if_neg fun hport => Bool.false_ne_true
        (hport.symm.trans hend.2)] at hres
    obtain ⟨-, rfl⟩ := Prod.mk.inj (Option.some.inj hres)
    exact .inr ⟨⟨h.cmdDescHead, h.nxLicDma, h.snmpStatsDma, h.pauseAddr, h.nicNetStats⟩, rfl,
      htracks, h.cmd, harea, n, c, h.rxCtx, h.ctx, hm ▸ h.holds⟩
  · obtain ⟨code, hres⟩ := h.irqs_fail hirqs
    rw [hres]
    refine keeping_error hu code.property (htracks.freeInFw cfg h.rxCtx _ _).freeRing ?_
    obtain ⟨c', k, hfree, -⟩ := Port.freeInFw_eq cfg plan.rxDestroyed plan.txDestroyed
      h.rxCtx
    rw [isUp_freeRing, hfree]
    exact hup

/-- The receive context of the firmware 4.0 is there. -/
theorem Staged.keeping_finish (h : Staged cfg u.pool.length u e c 0) (hu : u.Idle)
    (hv40 : cfg.fwV34 = false) (htx : e.txCtx = none) (hctxAdd : e.ctxAdd = u.ctxAdd)
    (hup : e.isUp = false) :
    Keeping cfg u plan (Port.attachAfter cfg plan (e.finishContexts cfg plan)) := by
  have htracks {p : Pool} {m : Multiset Block} (hp : p.Holds u.pool.length m) :
      ∀ b ∈ e.ctxAdd.ptr, b.id < p.length := by
    rw [hctxAdd]
    exact fun b hb => Nat.lt_of_lt_of_le (hu.ctxAdd b hb) hp.entries
  have hareas {d : Port} : 0 = d.areas cfg := by
    rw [Port.areas, hv40, if_neg Bool.false_ne_true]
  have hnone {P : Prop} : cfg.fwV34 = true → P := fun hv34 =>
    absurd (hv40.symm.trans hv34) Bool.false_ne_true
  rw [Port.finishContexts]
  generalize (if cfg.pexqCap then plan.pexq else none) = res
  cases res with
  | some code =>
    dsimp only
    rw [Port.attachAfter, if_pos code.property]
    refine keeping_error hu code.property (Port.Tracks.freeRing (htracks h.holds)) ?_
    rw [isUp_freeRing]
    exact hup
  | none =>
    have hstaged {pexq : Bool} : Staged cfg u.pool.length u { e with pexq } c 0 :=
      h.congr ⟨h.cmdDescHead, h.nxLicDma, h.snmpStatsDma, h.pauseAddr, h.nicNetStats⟩ rfl rfl rfl
        rfl h.rxCtx rfl rfl
    have hres : ∃ pexq, (if cfg.pexqCap then { e with pexq := true } else e) = { e with pexq } := by
      split
      · exact ⟨true, rfl⟩
      · exact ⟨e.pexq, rfl⟩
    obtain ⟨pexq, hres⟩ := hres
    dsimp only
    rw [hres]
    have htxres := Port.prepareTx_result (d := { e with pexq }) plan.tx htx h.holds
    generalize ({ e with pexq } : Port).unmNicNewTxContextPrepare plan.tx = r at htxres ⊢
    cases htxres with
    | crashes => exact fun err d' hres => absurd hres nofun
    | @failed rc p hrc hplan hholds =>
      rw [Port.afterTxContext, if_neg hrc, Port.attachAfter, if_pos hrc]
      obtain ⟨c', hdestroy, -⟩ := Port.destroyRx_eq (c := c)
        (d := { e with pexq := pexq, pool := p }) plan.rxDestroyed h.rxCtx
      have hdestroyed : ∀ b ∈ e.ctxAdd.ptr, b.id < p.length := htracks hholds
      refine keeping_error hu hrc ?_ ?_
      · rw [hdestroy]
        exact Port.Tracks.freeRing (by exact hdestroyed)
      · rw [isUp_freeRing, hdestroy]
        exact hup
    | ignored hmem hgone hholds =>
      rw [Port.afterTxContext, if_pos rfl, after_zero]
      exact Staged.keeping_irqs (m := 0) ⟨⟨h.cmdDescHead, h.nxLicDma, h.snmpStatsDma, h.pauseAddr,
        h.nicNetStats⟩, h.rxCtx, h.ctx, h.sds, hholds, h.cmd, h.irqs⟩ hu (htracks hholds) hup
        fun _ => ⟨hareas, hnone⟩
    | made hmem hhad hcommand hholds =>
      rw [Port.afterTxContext, if_pos rfl, after_zero]
      exact Staged.keeping_irqs (m := 0) ⟨⟨h.cmdDescHead, h.nxLicDma, h.snmpStatsDma, h.pauseAddr,
        h.nicNetStats⟩, h.rxCtx, h.ctx, h.sds, hholds, h.cmd, h.irqs⟩ hu (htracks hholds) hup
        fun _ => ⟨hareas, hnone⟩

/-- From the blocks on. -/
theorem Filled.keeping (h : Filled cfg u.pool.length u e) (hu : u.Idle) :
    Keeping cfg u plan (Port.attachAfter cfg plan
      (Port.afterRxContext cfg plan (e.nxNicCreateRxCtx cfg plan.rx))) := by
  have htracks {p : Pool} {m : Multiset Block} (hp : p.Holds u.pool.length m) :
      ∀ b ∈ e.ctxAdd.ptr, b.id < p.length := by
    rw [h.ctxAdd]
    exact fun b hb => Nat.lt_of_lt_of_le (hu.ctxAdd b hb) hp.entries
  have hone : (-1 : Int) ≠ 0 := by decide
  have hres := Port.createRx_result cfg plan.rx h.rxCtx h.txCtx h.holds
  generalize e.nxNicCreateRxCtx cfg plan.rx = r at hres ⊢
  cases hres with
  | crashes => exact fun err d' hres => absurd hres nofun
  | unmade _ hholds =>
    rw [Port.afterRxContext, if_pos (by decide), Port.attachAfter, if_pos hone]
    exact keeping_error hu hone (Port.Tracks.freeRing (htracks hholds))
      ((isUp_freeRing _).trans h.isUp)
  | refused _ _ _ hholds =>
    rw [Port.afterRxContext, if_pos (by decide), Port.attachAfter, if_pos hone]
    exact keeping_error hu hone (Port.Tracks.freeRing (htracks hholds))
      ((isUp_freeRing _).trans h.isUp)
  | @refusedV34 p rq tx _ _ _ hholds =>
    rw [Port.afterRxContext, if_pos (by decide), Port.attachAfter, if_pos hone]
    refine keeping_error hu hone (Port.Tracks.freeRing fun b hb => ?_)
      ((isUp_freeRing _).trans h.isUp)
    obtain rfl := Option.some.inj hb
    exact (hholds.since rq (Multiset.mem_cons_self rq _)).2
  | @ignored p c _ hgone hfw hs hsds hholds =>
    have hstaged : Staged cfg u.pool.length u { e with pool := p, rxCtx := some c } c 0 :=
      h.staged hs hsds ((Multiset.zero_add e.blocks).symm ▸ hholds)
    rw [Port.afterRxContext, if_neg (by decide)]
    split
    · rename_i hv34
      rw [after_zero]
      refine hstaged.keeping_irqs hu (htracks hholds) h.isUp fun hsucceeds => ?_
      exact absurd hgone (hsucceeds.2 hu.isUp).2.2.2.1.1
    · rename_i hv34
      exact hstaged.keeping_finish hu (Bool.eq_false_of_not_eq_true hv34) h.txCtx h.ctxAdd h.isUp
  | @made p c hv40 _ hhad hcommand hfw hs hsds hholds =>
    have hstaged : Staged cfg u.pool.length u
        { e with pool := p, rxCtx := some c, fwCtxs := e.fwCtxs + 1 } c 0 :=
      h.staged hs hsds ((Multiset.zero_add e.blocks).symm ▸ hholds)
    rw [Port.afterRxContext, if_neg (by decide), hv40, if_neg Bool.false_ne_true]
    exact hstaged.keeping_finish hu hv40 h.txCtx h.ctxAdd h.isUp
  | @madeV34 p c rq tx hv34 _ hhad htx hcommand hfw hs hsds hrq hholds =>
    have hrqOld : rq.id < p.length :=
      (hholds.since rq (Multiset.mem_add.mpr (.inr (Multiset.mem_cons_self rq _)))).2
    have hstaged := h.stagedV34 tx hs hsds hholds
    have hptr {P : Block → Prop} (hP : P rq) : ∀ b ∈ some rq, P b := fun b hb =>
      Option.some.inj hb ▸ hP
    rw [Port.afterRxContext, if_neg (by decide), hv34, if_pos rfl, after_zero]
    refine hstaged.keeping_irqs hu (hptr hrqOld) h.isUp fun _ => ⟨?_, fun _ => hptr hrq⟩
    rw [Port.areas, if_pos hv34]
    rfl

end Keeping

namespace Port
variable {u : Port}

/-- **An attach keeps the port idle or running**. -/
theorem Idle.keeping (hu : u.Idle) (plan : AttachPlan) :
    Keeping cfg u plan (u.unmNicAttach cfg plan) := by
  have heio : eio ≠ 0 := by decide
  have henomem : enomem ≠ 0 := by decide
  have hself {k : Nat} {buf : Bool} : Keeping cfg u plan
      (some (enomem, { u with maxTxDescCount := k, cmdBufArr := buf })) :=
    keeping_error hu henomem hu.ctxAdd hu.isUp
  rw [unmNicAttach]
  by_cases hdriver : cfg.driverMismatch = true
  · rw [if_pos hdriver]
    exact keeping_error hu heio hu.ctxAdd hu.isUp
  rw [if_neg hdriver, if_neg fun hup => Bool.false_ne_true (hu.isUp.symm.trans hup)]
  by_cases hfirmware : plan.firmware = false
  · rw [if_pos hfirmware]
    exact keeping_error hu heio hu.ctxAdd hu.isUp
  rw [if_neg hfirmware, unmNicHwResources]
  by_cases hpeg : plan.receivePeg = false
  · rw [if_pos hpeg, attachAfter, if_pos heio]
    exact keeping_error hu heio hu.ctxAdd hu.isUp
  rw [if_neg hpeg]
  rcases u.allocCmdBufArr_cases plan with ⟨-, k, hres⟩ | ⟨-, k, hres⟩
  · obtain ⟨ok, e, hblocks, hbegun, hok, hcmd⟩ := allocBlocks_spec cfg
      (d := { u with maxTxDescCount := k, cmdBufArr := true }) plan hu.pool
      ⟨hu.cmdDescHead, hu.nxLicDma, hu.snmpStatsDma, hu.pauseAddr, hu.nicNetStats⟩
    rw [hres]
    dsimp only
    rw [hblocks]
    cases ok with
    | true => exact (hbegun.filled hu (hcmd.mpr (hok.mp rfl).1)).keeping hu
    | false =>
      have htracks : e.Tracks := by
        rw [Tracks, hbegun.ctxAdd]
        exact fun b hb => Nat.lt_of_lt_of_le (hu.ctxAdd b hb) hbegun.holds.entries
      dsimp only
      rw [attachAfter, if_pos henomem]
      exact keeping_error hu henomem htracks.freeRing
        ((isUp_freeRing e).trans (hbegun.isUp.trans hu.isUp))
  · rw [hres]
    dsimp only
    rw [attachAfter, if_pos henomem]
    exact hself

/-- An attach of a port that is up leaves it as it is. -/
theorem Running.attach_eq (h : u.Running cfg) (plan : AttachPlan) :
    ∃ err : Int, u.unmNicAttach cfg plan = some (err, u) ∧ (err = 0 → plan.EndHad cfg) := by
  have heio {P : Prop} : eio = 0 → P := fun hzero => absurd hzero (by decide)
  rw [unmNicAttach]
  split
  · exact ⟨eio, rfl, heio⟩
  · rw [if_pos h.isUp, attachEnd]
    split
    · exact ⟨eio, rfl, heio⟩
    · rename_i hmac
      split
      · exact ⟨eio, rfl, heio⟩
      · rename_i hport
        refine ⟨0, rfl, fun _ => ⟨fun hrev => ?_, Bool.eq_true_of_not_eq_false hport⟩⟩
        exact Bool.eq_true_of_not_eq_false fun hnot => hmac ⟨hrev, hnot⟩

theorem Running.undone_self (h : u.Running cfg) : u.Undone u := by
  obtain ⟨n, c, -, -, hholds⟩ := h.rx
  exact ⟨⟨rfl, rfl, rfl, rfl, rfl, rfl, rfl, rfl, rfl, rfl, rfl⟩, _, hholds.held, hholds.held⟩

/-- **One call**: its condition is just what the property needs. -/
theorem balances_iff_keeps (h : u.Kept cfg) (a : PortAction) :
    a.Balances cfg u ↔ a.Keeps cfg u := by
  cases a with
  | detach rxTaken txTaken => exact detach_balances_iff h rxTaken txTaken
  | attach plan =>
    rcases h with hidle | hrunning
    · exact attach_good_iff hidle plan
    · obtain ⟨err, hres, hend⟩ := hrunning.attach_eq plan
      refine iff_of_true ⟨err, u, hres, fun hzero => ?_, fun _ => hrunning.undone_self⟩
        (.inl (.inr (.inl hrunning.isUp)))
      exact ⟨hend hzero, fun hdown => absurd (hrunning.isUp.symm.trans hdown) nofun⟩

/-- A call that meets the condition keeps the port idle or running. -/
theorem Kept.step {d : Port} (h : u.Kept cfg) {a : PortAction} (hkeeps : a.Keeps cfg u)
    (hnext : (portMachine cfg).next u a = some d) : d.Kept cfg := by
  have hbalances := (balances_iff_keeps h a).mpr hkeeps
  cases a with
  | detach rxTaken txTaken =>
    obtain rfl := Option.some.inj hnext
    exact h.detach hbalances
  | attach plan =>
    obtain ⟨⟨err, d'⟩, hres, rfl⟩ := Option.map_eq_some_iff.mp hnext
    rcases h with hidle | hrunning
    · exact hidle.keeping plan err d' hres hbalances
    · obtain ⟨err', hsame, -⟩ := hrunning.attach_eq plan
      obtain ⟨-, rfl⟩ := Prod.mk.inj (Option.some.inj (hsame.symm.trans hres))
      exact .inr hrunning

end Port

/-- **Attach is all or nothing, and its memory is given back**.  In a run of attaches and detaches
from the probe on, with any failures in them, each call has the property just if each of them
meets the condition: a run in which the condition first fails at some call has that very call
leave something behind, or free it in another size. -/
theorem attach_balances_iff (cfg : PortConfig) (maxTxDescCount : Nat) (l : List PortAction) :
    (∀ d a, (portMachine cfg).Takes (.initial maxTxDescCount) l d a → a.Balances cfg d) ↔
      ∀ d a, (portMachine cfg).Takes (.initial maxTxDescCount) l d a → a.Keeps cfg d :=
  Machine.takes_iff_takes (K := Port.Kept cfg) (fun _ a h => Port.balances_iff_keeps h a)
    (fun _ _ _ h hkeeps hnext => h.step hkeeps hnext) (Port.kept_initial maxTxDescCount) l

/-- A port with the firmware 4.0 on a machine whose bus addresses have eight bytes. -/
def wideConfig : PortConfig :=
  ⟨false, false, false, false, false, true, 8, 256, 512, 1024, 1024, 512, 64, 1⟩

/-- Everything is had, and the firmware takes every command. -/
def allHad : AttachPlan where
  firmware := true
  receivePeg := true
  cmdBufArr := true
  cmdBufArrAgain := true
  cmdDesc := ⟨⟨true, false⟩, true⟩
  pause := ⟨⟨true, false⟩, true⟩
  lic := true
  snmpStats := true
  netStats := true
  rx := ⟨true, fun _ => true, fun _ => true, fun _ => ⟨⟨true, false⟩, true⟩,
    fun _ => ⟨⟨true, false⟩, true⟩, ⟨⟨true, false⟩, ⟨true, false⟩⟩, true, .ok nxHostCtxStateActive⟩
  pexq := none
  tx := ⟨true, ⟨⟨true, false⟩, ⟨true, false⟩⟩, .ok nxHostCtxStateActive⟩
  irq := fun _ => none
  rxDestroyed := true
  txDestroyed := true
  macaddrSet := true
  initPort := true

/-- On a machine with bus addresses of eight bytes the first detach after a full attach frees the
command ring with four bytes less than it was allocated with. -/
theorem detach_frees_less : ¬∀ d a, (portMachine wideConfig).Takes (.initial 1024)
    [.attach allHad, .detach true true] d a → a.Balances wideConfig d := by
  intro hall
  have hrun : ((portMachine wideConfig).run (.initial 1024) [.attach allHad]).map
      (fun d => (d.unmNicDetach wideConfig true true).pool.held.isNone) = some true := by
    decide +kernel
  obtain ⟨d, hd, hwrong⟩ := Option.map_eq_some_iff.mp hrun
  have hbalances := hall d (.detach true true) ⟨[.attach allHad], [], rfl, hd⟩
  exact absurd (hbalances.symm.trans (Option.isNone_iff_eq_none.mp hwrong)) nofun

end Attach
end NxNic

import Mathlib.Tactic.Abel
import NxNic.Attach.Port

/-! # The steps of attach

What each step of `unm_nic_attach` comes to, when it has what it needs and when it has not: the
blocks that are held after it and the size that each was asked for (`Port.Sized`).  The receive
context and the transmit context come to one of a few results (`RxResult`, `TxResult`).

They are the lemmas by which `Attach/Balance` goes through a call: each step either fails and leaves
what it was given to unwind, or succeeds with its block added to what is held.
-/
namespace NxNic
namespace Attach

/-! ## The failure points -/

def AttachPlan.CmdBufHad (plan : AttachPlan) (maxTxDescCount : Nat) : Prop :=
  plan.cmdBufArr = true ∨ 1024 < maxTxDescCount ∧ plan.cmdBufArrAgain = true

/-- The blocks after the command ring. -/
def AttachPlan.BlocksHad (cfg : PortConfig) (plan : AttachPlan) : Prop :=
  (cfg.epgWorkaround = true → plan.pause.Had) ∧ plan.lic = true ∧
    (cfg.unmNicSnmp = true → plan.snmpStats = true) ∧ plan.netStats = true

/-- A receive context and its rings. -/
def RxPlan.RingsHad (cfg : PortConfig) (plan : RxPlan) : Prop :=
  plan.mem = true ∧ (∀ i < cfg.maxRdsRings, plan.osData i = true) ∧
    (∀ i < cfg.maxRdsRings, plan.rxBufArr i = true) ∧
    (∀ i < cfg.maxRdsRings, (plan.rdsMem i).Had) ∧
    ∀ i < cfg.maxPossibleRssRings, (plan.sdsMem i).Had

def AttachPlan.IrqsHad (cfg : PortConfig) (plan : AttachPlan) : Prop :=
  ∀ i < cfg.maxPossibleRssRings, plan.irq i = none

instance decidableBlocksHad (cfg : PortConfig) (plan : AttachPlan) :
    Decidable (plan.BlocksHad cfg) := inferInstanceAs (Decidable ((_ → _) ∧ _ ∧ (_ → _) ∧ _))

instance decidableRingsHad (cfg : PortConfig) (plan : RxPlan) : Decidable (plan.RingsHad cfg) :=
  inferInstanceAs (Decidable (_ ∧ (∀ i < cfg.maxRdsRings, plan.osData i = true) ∧
    (∀ i < cfg.maxRdsRings, plan.rxBufArr i = true) ∧
    (∀ i < cfg.maxRdsRings, (plan.rdsMem i).Had) ∧
    ∀ i < cfg.maxPossibleRssRings, (plan.sdsMem i).Had))

instance decidableIrqsHad (cfg : PortConfig) (plan : AttachPlan) : Decidable (plan.IrqsHad cfg) :=
  inferInstanceAs (Decidable (∀ i < cfg.maxPossibleRssRings, plan.irq i = none))

/-- The command ring is freed in the size it was allocated in. -/
def PortConfig.SameSize (cfg : PortConfig) : Prop := cfg.sizeofDmaAddr = 4

/-- The firmware 4.0 is asked for a context and refuses. -/
def Refused (dma : DmaPlan) (command : Except Rcode (BitVec 32)) : Prop :=
  dma.Had ∧ command.toOption = none

instance decidableRefused (dma : DmaPlan) (command : Except Rcode (BitVec 32)) :
    Decidable (Refused dma command) := inferInstanceAs (Decidable (_ ∧ _ = none))

/-! ## The blocks of the port -/

variable {cfg : PortConfig} {n : Nat} {m : Multiset Block}

namespace Port

/-- The blocks of the port, in the order in which they are freed. -/
def blocks (d : Port) : Multiset Block :=
  blockOf d.cmdDescHead + (blockOf d.nxLicDma + (blockOf d.snmpStatsDma +
    (blockOf d.pauseAddr + (blockOf d.nicNetStats + 0))))

/-- The blocks of the port are as large as they were asked for. -/
structure Sized (cfg : PortConfig) (d : Port) : Prop where
  cmdDescHead : ∀ b ∈ d.cmdDescHead, b.size = cmdRingAllocSize cfg d.maxTxDescCount
  nxLicDma : ∀ b ∈ d.nxLicDma, b.size = cfg.sizeofFingerPrint
  snmpStatsDma : ∀ b ∈ d.snmpStatsDma, b.size = cfg.sizeofSnmpStats
  pauseAddr : ∀ b ∈ d.pauseAddr, b.size = 512
  nicNetStats : ∀ b ∈ d.nicNetStats, b.size = cfg.sizeofCtxStats

theorem allocCmdBufArr_cases (d : Port) (plan : AttachPlan) :
    (plan.CmdBufHad d.maxTxDescCount ∧ ∃ k,
      d.allocCmdBufArr plan = (true, { d with maxTxDescCount := k, cmdBufArr := true })) ∨
    (¬plan.CmdBufHad d.maxTxDescCount ∧ ∃ k,
      d.allocCmdBufArr plan = (false, { d with maxTxDescCount := k, cmdBufArr := false })) := by
  rw [allocCmdBufArr, AttachPlan.CmdBufHad]
  by_cases hfirst : plan.cmdBufArr = true
  · rw [if_pos hfirst]
    exact .inl ⟨.inl hfirst, d.maxTxDescCount, rfl⟩
  · rw [if_neg hfirst]
    by_cases hlarge : 1024 < d.maxTxDescCount
    · rw [if_pos hlarge]
      cases hagain : plan.cmdBufArrAgain with
      | true => exact .inl ⟨.inr ⟨hlarge, rfl⟩, 1024, rfl⟩
      | false => exact .inr ⟨not_or.mpr ⟨hfirst, fun h => Bool.false_ne_true h.2⟩, 1024, rfl⟩
    · rw [if_neg hlarge]
      exact .inr ⟨not_or.mpr ⟨hfirst, fun h => hlarge h.1⟩, d.maxTxDescCount, rfl⟩

theorem allocCmdDesc_spec (cfg : PortConfig) {d : Port} (plan : AttachPlan) (h : d.pool.Holds n m)
    (hnone : d.cmdDescHead = none) : ∃ ok p a,
      d.allocCmdDesc cfg plan = (ok, { d with pool := p, cmdDescHead := a }) ∧
      p.Holds n (blockOf a + m) ∧
      (∀ b ∈ a, b.size = cmdRingAllocSize cfg d.maxTxDescCount) ∧
      (ok = true ↔ plan.cmdDesc.Had) ∧ (a.isSome = true ↔ plan.cmdDesc.Had) := by
  obtain ⟨hholds, hsize, hhad⟩ :=
    holds_nxAlloc h (cmdRingAllocSize cfg d.maxTxDescCount) plan.cmdDesc
  rw [allocCmdDesc]
  rcases hres : nxAlloc d.pool (cmdRingAllocSize cfg d.maxTxDescCount) plan.cmdDesc with ⟨_ | b, p⟩
  · rw [hres] at hholds hsize hhad
    refine ⟨false, p, d.cmdDescHead, rfl, ?_⟩
    rw [hnone]
    exact ⟨hholds, hsize, hhad, hhad⟩
  · rw [hres] at hholds hsize hhad
    exact ⟨true, p, some b, rfl, hholds, hsize, hhad, hhad⟩

theorem allocPause_spec (cfg : PortConfig) {d : Port} (plan : AttachPlan) (h : d.pool.Holds n m)
    (hnone : d.pauseAddr = none) : ∃ ok p a,
      d.allocPause cfg plan = (ok, { d with pool := p, pauseAddr := a }) ∧
      p.Holds n (blockOf a + m) ∧ (∀ b ∈ a, b.size = 512) ∧
      (ok = true ↔ (cfg.epgWorkaround = true → plan.pause.Had)) := by
  obtain ⟨hholds, hsize, hhad⟩ := holds_nxAlloc h 512 plan.pause
  rw [allocPause]
  split
  · rename_i hepg
    rcases hres : nxAlloc d.pool 512 plan.pause with ⟨_ | b, p⟩
    · rw [hres] at hholds hsize hhad
      refine ⟨false, p, d.pauseAddr, rfl, ?_⟩
      rw [hnone]
      exact ⟨hholds, hsize, hhad.trans (imp_iff_right hepg).symm⟩
    · rw [hres] at hholds hsize hhad
      exact ⟨true, p, some b, rfl, hholds, hsize, hhad.trans (imp_iff_right hepg).symm⟩
  · rename_i hepg
    refine ⟨true, d.pool, d.pauseAddr, rfl, ?_⟩
    rw [hnone]
    exact ⟨(Multiset.zero_add m).symm ▸ h, fun b hb => absurd hb nofun,
      iff_of_true rfl fun h => absurd h hepg⟩

theorem allocLic_spec (cfg : PortConfig) {d : Port} (plan : AttachPlan)
    (h : d.pool.Holds n m) : ∃ ok p a,
      d.allocLic cfg plan = (ok, { d with pool := p, nxLicDma := a }) ∧
      p.Holds n (blockOf a + m) ∧ (∀ b ∈ a, b.size = cfg.sizeofFingerPrint) ∧
      (ok = true ↔ plan.lic = true) := by
  obtain ⟨hholds, hsize, hhad⟩ :=
    holds_alloc h cfg.sizeofFingerPrint plan.lic
  exact ⟨_, _, _, rfl, hholds, hsize, hhad⟩

theorem allocSnmpStats_spec (cfg : PortConfig) {d : Port} (plan : AttachPlan) (h : d.pool.Holds n m)
    (hnone : d.snmpStatsDma = none) : ∃ ok p a,
      d.allocSnmpStats cfg plan = (ok, { d with pool := p, snmpStatsDma := a }) ∧
      p.Holds n (blockOf a + m) ∧ (∀ b ∈ a, b.size = cfg.sizeofSnmpStats) ∧
      (ok = true ↔ (cfg.unmNicSnmp = true → plan.snmpStats = true)) := by
  obtain ⟨hholds, hsize, hhad⟩ :=
    holds_alloc h cfg.sizeofSnmpStats plan.snmpStats
  rw [allocSnmpStats]
  split
  · rename_i hsnmp
    exact ⟨_, _, _, rfl, hholds, hsize, hhad.trans (imp_iff_right hsnmp).symm⟩
  · rename_i hsnmp
    refine ⟨true, d.pool, d.snmpStatsDma, rfl, ?_⟩
    rw [hnone]
    exact ⟨(Multiset.zero_add m).symm ▸ h, fun b hb => absurd hb nofun,
      iff_of_true rfl fun h => absurd h hsnmp⟩

theorem allocNetStats_spec (cfg : PortConfig) {d : Port} (plan : AttachPlan)
    (h : d.pool.Holds n m) : ∃ ok p a,
      d.allocNetStats cfg plan = (ok, { d with pool := p, nicNetStats := a }) ∧
      p.Holds n (blockOf a + m) ∧ (∀ b ∈ a, b.size = cfg.sizeofCtxStats) ∧
      (ok = true ↔ plan.netStats = true) := by
  obtain ⟨hholds, hsize, hhad⟩ :=
    holds_alloc h cfg.sizeofCtxStats plan.netStats
  exact ⟨_, _, _, rfl, hholds, hsize, hhad⟩

/-- No block of the port is there. -/
structure Bare (d : Port) : Prop where
  cmdDescHead : d.cmdDescHead = none
  nxLicDma : d.nxLicDma = none
  snmpStatsDma : d.snmpStatsDma = none
  pauseAddr : d.pauseAddr = none
  nicNetStats : d.nicNetStats = none

/-- Blocks of the port have been allocated, and nothing else has changed. -/
structure Begun (cfg : PortConfig) (n : Nat) (d d' : Port) : Prop extends d'.Sized cfg where
  holds : d'.pool.Holds n d'.blocks
  maxTxDescCount : d'.maxTxDescCount = d.maxTxDescCount
  cmdBufArr : d'.cmdBufArr = d.cmdBufArr
  ctxAdd : d'.ctxAdd = d.ctxAdd
  rxCtx : d'.rxCtx = d.rxCtx
  txCtx : d'.txCtx = d.txCtx
  irqs : d'.irqs = d.irqs
  pexq : d'.pexq = d.pexq
  fwCtxs : d'.fwCtxs = d.fwCtxs
  isUp : d'.isUp = d.isUp

theorem Bare.begun (cfg : PortConfig) {d : Port} (hbare : d.Bare)
    (h : d.pool.Holds n 0) : Begun cfg n d d := by
  have hnone {a : Option Block} {size : Nat} (ha : a = none) : ∀ b ∈ a, b.size = size :=
    fun b hb => absurd (ha.symm.trans hb) nofun
  refine ⟨⟨hnone hbare.cmdDescHead, hnone hbare.nxLicDma, hnone hbare.snmpStatsDma,
    hnone hbare.pauseAddr, hnone hbare.nicNetStats⟩, ?_, rfl, rfl, rfl, rfl, rfl, rfl, rfl, rfl,
    rfl⟩
  rw [blocks, hbare.cmdDescHead, hbare.nxLicDma, hbare.snmpStatsDma, hbare.pauseAddr,
    hbare.nicNetStats]
  exact h

section Begun
variable {d d' : Port} {p : Pool} {a : Option Block}

theorem Begun.cmdDesc (h : Begun cfg n d d') (hnone : d'.cmdDescHead = none)
    (hholds : p.Holds n (blockOf a + d'.blocks))
    (hsize : ∀ b ∈ a, b.size = cmdRingAllocSize cfg d'.maxTxDescCount) :
    Begun cfg n d { d' with pool := p, cmdDescHead := a } := by
  have hblocks : blockOf a + d'.blocks = ({ d' with cmdDescHead := a } : Port).blocks := by
    rw [blocks, blocks, hnone, blockOf_none]
    abel
  exact { h with cmdDescHead := hsize, holds := hblocks ▸ hholds }

theorem Begun.lic (h : Begun cfg n d d') (hnone : d'.nxLicDma = none)
    (hholds : p.Holds n (blockOf a + d'.blocks)) (hsize : ∀ b ∈ a, b.size = cfg.sizeofFingerPrint) :
    Begun cfg n d { d' with pool := p, nxLicDma := a } := by
  have hblocks : blockOf a + d'.blocks = ({ d' with nxLicDma := a } : Port).blocks := by
    rw [blocks, blocks, hnone, blockOf_none]
    abel
  exact { h with nxLicDma := hsize, holds := hblocks ▸ hholds }

theorem Begun.snmpStats (h : Begun cfg n d d') (hnone : d'.snmpStatsDma = none)
    (hholds : p.Holds n (blockOf a + d'.blocks)) (hsize : ∀ b ∈ a, b.size = cfg.sizeofSnmpStats) :
    Begun cfg n d { d' with pool := p, snmpStatsDma := a } := by
  have hblocks : blockOf a + d'.blocks = ({ d' with snmpStatsDma := a } : Port).blocks := by
    rw [blocks, blocks, hnone, blockOf_none]
    abel
  exact { h with snmpStatsDma := hsize, holds := hblocks ▸ hholds }

theorem Begun.pause (h : Begun cfg n d d') (hnone : d'.pauseAddr = none)
    (hholds : p.Holds n (blockOf a + d'.blocks)) (hsize : ∀ b ∈ a, b.size = 512) :
    Begun cfg n d { d' with pool := p, pauseAddr := a } := by
  have hblocks : blockOf a + d'.blocks = ({ d' with pauseAddr := a } : Port).blocks := by
    rw [blocks, blocks, hnone, blockOf_none]
    abel
  exact { h with pauseAddr := hsize, holds := hblocks ▸ hholds }

theorem Begun.netStats (h : Begun cfg n d d') (hnone : d'.nicNetStats = none)
    (hholds : p.Holds n (blockOf a + d'.blocks)) (hsize : ∀ b ∈ a, b.size = cfg.sizeofCtxStats) :
    Begun cfg n d { d' with pool := p, nicNetStats := a } := by
  have hblocks : blockOf a + d'.blocks = ({ d' with nicNetStats := a } : Port).blocks := by
    rw [blocks, blocks, hnone, blockOf_none]
    abel
  exact { h with nicNetStats := hsize, holds := hblocks ▸ hholds }

end Begun

/-- **The blocks of the port**: all of them are had, or the first ones. -/
theorem allocBlocks_spec (cfg : PortConfig) {d : Port} (plan : AttachPlan)
    (h : d.pool.Holds n 0) (hbare : d.Bare) :
    ∃ ok d', d.allocBlocks cfg plan = (ok, d') ∧ Begun cfg n d d' ∧
      (ok = true ↔ plan.cmdDesc.Had ∧ plan.BlocksHad cfg) ∧
      (d'.cmdDescHead.isSome = true ↔ plan.cmdDesc.Had) := by
  have hb₀ : Begun cfg n d d := hbare.begun cfg h
  obtain ⟨ok₁, p₁, a₁, h₁, hholds₁, hsize₁, hok₁, hcmd⟩ :=
    allocCmdDesc_spec cfg plan hb₀.holds hbare.cmdDescHead
  have hb₁ := hb₀.cmdDesc hbare.cmdDescHead hholds₁ hsize₁
  rw [allocBlocks, runSteps, h₁]
  cases ok₁ with
  | false =>
    exact ⟨false, _, rfl, hb₁, iff_of_false Bool.false_ne_true fun h => absurd (hok₁.mpr h.1)
      Bool.false_ne_true, hcmd⟩
  | true =>
    obtain ⟨ok₂, p₂, a₂, h₂, hholds₂, hsize₂, hok₂⟩ :=
      allocPause_spec cfg plan hb₁.holds hbare.pauseAddr
    have hb₂ := hb₁.pause hbare.pauseAddr hholds₂ hsize₂
    dsimp only
    rw [runSteps, h₂]
    cases ok₂ with
    | false =>
      exact ⟨false, _, rfl, hb₂, iff_of_false Bool.false_ne_true fun h => absurd
        (hok₂.mpr h.2.1) Bool.false_ne_true, hcmd⟩
    | true =>
      obtain ⟨ok₃, p₃, a₃, h₃, hholds₃, hsize₃, hok₃⟩ :=
        allocLic_spec cfg plan hb₂.holds
      have hb₃ := hb₂.lic hbare.nxLicDma hholds₃ hsize₃
      dsimp only
      rw [runSteps, h₃]
      cases ok₃ with
      | false =>
        exact ⟨false, _, rfl, hb₃, iff_of_false Bool.false_ne_true fun h => absurd
          (hok₃.mpr h.2.2.1) Bool.false_ne_true, hcmd⟩
      | true =>
        obtain ⟨ok₄, p₄, a₄, h₄, hholds₄, hsize₄, hok₄⟩ :=
          allocSnmpStats_spec cfg plan hb₃.holds hbare.snmpStatsDma
        have hb₄ := hb₃.snmpStats hbare.snmpStatsDma hholds₄ hsize₄
        dsimp only
        rw [runSteps, h₄]
        cases ok₄ with
        | false =>
          exact ⟨false, _, rfl, hb₄, iff_of_false Bool.false_ne_true fun h => absurd
            (hok₄.mpr h.2.2.2.1) Bool.false_ne_true, hcmd⟩
        | true =>
          obtain ⟨ok₅, p₅, a₅, h₅, hholds₅, hsize₅, hok₅⟩ :=
            allocNetStats_spec cfg plan hb₄.holds
          have hb₅ := hb₄.netStats hbare.nicNetStats hholds₅ hsize₅
          dsimp only
          rw [runSteps, h₅]
          cases ok₅ with
          | false =>
            exact ⟨false, _, rfl, hb₅, iff_of_false Bool.false_ne_true fun h => absurd
              (hok₅.mpr h.2.2.2.2) Bool.false_ne_true, hcmd⟩
          | true =>
            exact ⟨true, _, rfl, hb₅, iff_of_true rfl ⟨hok₁.mp rfl, hok₂.mp rfl, hok₃.mp rfl,
              hok₄.mp rfl, hok₅.mp rfl⟩, hcmd⟩

/-! ## Freeing -/

theorem blocks_add (d : Port) (m : Multiset Block) : d.blocks + m =
    blockOf d.cmdDescHead + (blockOf d.nxLicDma + (blockOf d.snmpStatsDma +
      (blockOf d.pauseAddr + (blockOf d.nicNetStats + m)))) := by
  rw [blocks]
  abel

end Port

/-- The blocks of a receive context, in the order in which they are freed. -/
def RxCtx.blocks (c : RxCtx) : Multiset Block := ringBlocks c.sdsRings + ringBlocks c.rdsRings

/-- The rings of a receive context are as large as they were asked for. -/
structure RxCtx.Sized (cfg : PortConfig) (c : RxCtx) : Prop where
  sds : RingsSized (statusDescRingsize cfg) c.sdsRings
  rds : RingsSized rcvDescRingsize c.rdsRings

namespace Port
variable {d : Port}

theorem freeRxCtx_holds {c : RxCtx} (h : d.pool.Holds n (c.blocks + m)) (hs : c.Sized cfg) :
    (d.freeRxCtx cfg c).pool.Holds n m := by
  rw [RxCtx.blocks, Multiset.add_assoc] at h
  exact (holds_freeRings (holds_freeRings h hs.sds).1 hs.rds).1

theorem freeRxCtx_none {c : RxCtx} (h : d.pool.held = none) :
    (d.freeRxCtx cfg c).pool.held = none := held_freeRings_none (held_freeRings_none h)

/-- The blocks of the receive context, if there is one. -/
def rxBlocks (d : Port) : Multiset Block := (d.rxCtx.map RxCtx.blocks).getD 0

/-- `unm_nic_free_ring_context` leaves nothing but what it does not free. -/
theorem freeRing_eq (cfg : PortConfig) (d : Port) : d.unmNicFreeRingContext cfg =
    { d with
      pool := (d.unmNicFreeRingContext cfg).pool
      cmdBufArr := false
      cmdDescHead := none
      nxLicDma := none
      snmpStatsDma := none
      pauseAddr := none
      nicNetStats := none
      rxCtx := none } := by
  rw [unmNicFreeRingContext]
  cases hrx : d.rxCtx with
  | none => rfl
  | some c => rfl

/-- **Freeing the blocks** gives all of them back where the command ring is freed in the size
it was allocated in. -/
theorem freeRing_holds (hs : d.Sized cfg) (hrx : ∀ c ∈ d.rxCtx, c.Sized cfg)
    (h : d.pool.Holds n (d.blocks + (d.rxBlocks + m)))
    (hsame : cfg.SameSize ∨ d.cmdDescHead = none) :
    (d.unmNicFreeRingContext cfg).pool.Holds n m := by
  rw [blocks_add] at h
  have hcmd : ∀ b ∈ d.cmdDescHead, b.size = cmdRingFreeSize d.maxTxDescCount := by
    intro b hb
    rcases hsame with hsame | hnone
    · rw [hs.cmdDescHead b hb, cmdRingAllocSize, cmdRingFreeSize, hsame]
    · exact absurd (hnone.symm.trans hb) nofun
  have hfreed := holds_free (holds_free (holds_free (holds_free (holds_free h hcmd) hs.nxLicDma)
    hs.snmpStatsDma) hs.pauseAddr) hs.nicNetStats
  rw [rxBlocks] at hfreed
  rw [unmNicFreeRingContext]
  cases hctx : d.rxCtx with
  | none =>
    rw [hctx] at hfreed
    exact Multiset.zero_add m ▸ hfreed
  | some c =>
    rw [hctx] at hfreed
    exact freeRxCtx_holds hfreed (hrx c hctx)

/-- A ledger that does not settle is not mended. -/
theorem freeRing_none (h : d.pool.held = none) :
    (d.unmNicFreeRingContext cfg).pool.held = none := by
  have hfreed := held_free_none (held_free_none (held_free_none (held_free_none (held_free_none h
    (cmdRingFreeSize d.maxTxDescCount) d.cmdDescHead) cfg.sizeofFingerPrint d.nxLicDma)
    cfg.sizeofSnmpStats d.snmpStatsDma) 512 d.pauseAddr) cfg.sizeofCtxStats d.nicNetStats
  rw [unmNicFreeRingContext]
  cases d.rxCtx with
  | none => exact hfreed
  | some c => exact freeRxCtx_none hfreed

/-- Otherwise the ledger does not settle. -/
theorem freeRing_wrong (hs : d.Sized cfg) (h : d.pool.Holds n (d.blocks + m))
    (hother : ¬cfg.SameSize) (hcmd : d.cmdDescHead.isSome = true) :
    (d.unmNicFreeRingContext cfg).pool.held = none := by
  obtain ⟨b, hb⟩ := Option.isSome_iff_exists.mp hcmd
  rw [blocks_add, hb] at h
  have hsize : cmdRingFreeSize d.maxTxDescCount ≠ b.size := by
    rw [hs.cmdDescHead b hb, cmdRingAllocSize, cmdRingFreeSize]
    exact fun heq => hother (Nat.add_left_cancel heq).symm
  have hwrong : (pciFreeConsistent d.pool (cmdRingFreeSize d.maxTxDescCount)
      d.cmdDescHead).held = none := by
    rw [hb]
    exact h.give_wrong hsize
  have hfreed := held_free_none (held_free_none (held_free_none (held_free_none hwrong
    cfg.sizeofFingerPrint d.nxLicDma) cfg.sizeofSnmpStats d.snmpStatsDma) 512 d.pauseAddr)
    cfg.sizeofCtxStats d.nicNetStats
  rw [unmNicFreeRingContext]
  cases d.rxCtx with
  | none => exact hfreed
  | some c => exact freeRxCtx_none hfreed

theorem length_freeRing (d : Port) :
    d.pool.length ≤ (d.unmNicFreeRingContext cfg).pool.length := by
  have hfreed := Nat.le_trans (Nat.le_trans (Nat.le_trans (Nat.le_trans
    (length_free d.pool (cmdRingFreeSize d.maxTxDescCount) d.cmdDescHead)
    (length_free _ cfg.sizeofFingerPrint d.nxLicDma))
    (length_free _ cfg.sizeofSnmpStats d.snmpStatsDma)) (length_free _ 512 d.pauseAddr))
    (length_free _ cfg.sizeofCtxStats d.nicNetStats)
  rw [unmNicFreeRingContext]
  cases d.rxCtx with
  | none => exact hfreed
  | some c => exact Nat.le_trans hfreed (Nat.le_trans (length_freeRings _ _) (length_freeRings _ _))

end Port

/-! ## The receive context -/

/-- The software side of the rings: had for all of them, or for none. -/
theorem allocHostRx_spec (cfg : PortConfig) (plan : RxPlan) {rs : List RdsRing}
    (hbare : RingsBare rs) : ∃ ok rs',
    nxNicAllocHostRxResources cfg plan rs = (ok, rs') ∧ RingsBare rs' ∧ rs'.length = rs.length ∧
      (ok = true → ∀ r ∈ rs', HostRing.osData r = true) ∧
      (ok = true ↔ (∀ i < rs.length, plan.osData i = true) ∧
        ∀ i < rs.length, plan.rxBufArr i = true) := by
  have hfree {rs : List RdsRing} (h : RingsBare rs) : RingsBare (nxNicFreeHostRxResources rs) := by
    intro r hr
    obtain ⟨s, hs, rfl⟩ := List.mem_map.mp hr
    exact h s hs
  have hfrom0 {had : Nat → Bool} {k : Nat} :
      (∀ i < k, had (0 + i) = true) ↔ ∀ i < k, had i = true :=
    forall₂_congr fun i _ => by rw [Nat.zero_add]
  have hok := tryRings_ok (f := allocOsData plan) (fun _ _ _ => rfl) 0 rs ()
  have hbare₁ : RingsBare (tryRings (allocOsData plan) 0 rs ()).2.1 :=
    tryRings_keeps (fun _ _ _ h => h) hbare
  have hos := tryRings_brings (f := allocOsData plan) (Q := fun r => r.osData = true)
    (fun _ _ _ h => h) 0 rs ()
  have hlength := length_tryRings (f := allocOsData plan) 0 rs ()
  rw [nxNicAllocHostRxResources]
  rcases hres : tryRings (allocOsData plan) 0 rs () with ⟨_ | _, rs₁, _⟩
  · rw [hres] at hok hbare₁ hlength
    refine ⟨false, _, rfl, hfree hbare₁, ?_, nofun, ?_⟩
    · exact (List.length_map _).trans hlength
    · exact iff_of_false Bool.false_ne_true fun h =>
        Bool.false_ne_true (hok.mpr (hfrom0.mpr h.1))
  · rw [hres] at hok hbare₁ hos hlength
    have hok₂ := tryRings_ok (f := allocRxBufArr cfg plan) (fun _ _ _ => rfl) 0 rs₁ ()
    have hbare₂ : RingsBare (tryRings (allocRxBufArr cfg plan) 0 rs₁ ()).2.1 :=
      tryRings_keeps (fun _ _ _ h => h) hbare₁
    have hos₂ : ∀ r ∈ (tryRings (allocRxBufArr cfg plan) 0 rs₁ ()).2.1, r.osData = true :=
      tryRings_keeps (fun _ _ _ h => h) (hos rfl)
    have hlength₂ := length_tryRings (f := allocRxBufArr cfg plan) 0 rs₁ ()
    rw [show rs₁.length = rs.length from hlength] at hok₂ hlength₂
    dsimp only
    rcases hres₂ : tryRings (allocRxBufArr cfg plan) 0 rs₁ () with ⟨_ | _, rs₂, _⟩
    · rw [hres₂] at hok₂ hbare₂ hlength₂
      refine ⟨false, _, rfl, hfree hbare₂, ?_, nofun, ?_⟩
      · exact (List.length_map _).trans hlength₂
      · exact iff_of_false Bool.false_ne_true fun h =>
          Bool.false_ne_true (hok₂.mpr (hfrom0.mpr h.2))
    · rw [hres₂] at hok₂ hbare₂ hos₂ hlength₂
      exact ⟨true, rs₂, rfl, hbare₂, hlength₂, fun _ => hos₂,
        iff_of_true rfl ⟨hfrom0.mp (hok.mp rfl), hfrom0.mp (hok₂.mp rfl)⟩⟩

/-- What `nx_nic_create_rx_ctx` comes to for a port without contexts; `m` is held besides. -/
inductive RxResult (cfg : PortConfig) (n : Nat) (m : Multiset Block) (d : Port) (plan : RxPlan) :
    Option (Int × Port) → Prop where
  | unmade {p : Pool} (hplan : ¬plan.RingsHad cfg) (h : p.Holds n m) :
    RxResult cfg n m d plan (some (-1, { d with pool := p }))
  | crashes (hplan : plan.RingsHad cfg)
    (hnull : plan.dma.Crashes ∨ cfg.fwV34 = true ∧ plan.dma.Had ∧ plan.txMem = false) :
    RxResult cfg n m d plan none
  | ignored {p : Pool} {c : RxCtx} (hplan : plan.RingsHad cfg) (hgone : plan.dma.Gone)
    (hfw : c.inFw = false) (hs : c.Sized cfg)
    (hsds : c.sdsRings.length = cfg.maxPossibleRssRings) (h : p.Holds n (c.blocks + m)) :
    RxResult cfg n m d plan (some (0, { d with pool := p, rxCtx := some c }))
  | refused {p : Pool} (hv40 : cfg.fwV34 = false) (hplan : plan.RingsHad cfg)
    (hrefused : Refused plan.dma plan.command) (h : p.Holds n m) :
    RxResult cfg n m d plan (some (-1, { d with pool := p }))
  | refusedV34 {p : Pool} {rq : Block} {tx : FwCtx} (hv34 : cfg.fwV34 = true)
    (hplan : plan.RingsHad cfg) (hrefused : Refused plan.dma plan.command)
    (h : p.Holds n (rq ::ₘ m)) :
    RxResult cfg n m d plan (some (-1, { d with
      pool := p
      txCtx := some tx
      ctxAdd := ⟨some rq, cfg.sizeofHostrqRx⟩ }))
  | made {p : Pool} {c : RxCtx} (hv40 : cfg.fwV34 = false) (hplan : plan.RingsHad cfg)
    (hhad : plan.dma.Had) (hcommand : plan.command.toOption = some c.state)
    (hfw : c.inFw = true) (hs : c.Sized cfg)
    (hsds : c.sdsRings.length = cfg.maxPossibleRssRings) (h : p.Holds n (c.blocks + m)) :
    RxResult cfg n m d plan (some (0, { d with
      pool := p
      rxCtx := some c
      fwCtxs := d.fwCtxs + 1 }))
  | madeV34 {p : Pool} {c : RxCtx} {rq : Block} {tx : FwCtx} (hv34 : cfg.fwV34 = true)
    (hplan : plan.RingsHad cfg) (hhad : plan.dma.Had) (htx : plan.txMem = true)
    (hcommand : plan.command.toOption.isSome = true) (hfw : c.inFw = true) (hs : c.Sized cfg)
    (hsds : c.sdsRings.length = cfg.maxPossibleRssRings) (hrq : rq.size = cfg.sizeofHostrqRx)
    (h : p.Holds n (c.blocks + (rq ::ₘ m))) :
    RxResult cfg n m d plan (some (0, { d with
      pool := p
      rxCtx := some c
      txCtx := some tx
      ctxAdd := ⟨some rq, cfg.sizeofHostrqRx⟩
      fwCtxs := d.fwCtxs + 1 }))

/-- The pool before the call does not show in what it comes to. -/
theorem RxResult.of_pool {d : Port} {p : Pool} {plan : RxPlan} {r : Option (Int × Port)}
    (h : RxResult cfg n m { d with pool := p } plan r) : RxResult cfg n m d plan r := by
  cases h with
  | unmade hplan h => exact .unmade hplan h
  | crashes hplan hnull => exact .crashes hplan hnull
  | ignored hplan hgone hfw hs hsds h => exact .ignored hplan hgone hfw hs hsds h
  | refused hv40 hplan hrefused h => exact .refused hv40 hplan hrefused h
  | refusedV34 hv34 hplan hrefused h => exact .refusedV34 hv34 hplan hrefused h
  | made hv40 hplan hhad hcommand hfw hs hsds h =>
    exact .made hv40 hplan hhad hcommand hfw hs hsds h
  | madeV34 hv34 hplan hhad htx hcommand hfw hs hsds hrq h =>
    exact .madeV34 hv34 hplan hhad htx hcommand hfw hs hsds hrq h

namespace Port
variable {d : Port}

theorem freeRxCtx_eq (c : RxCtx) (hrx : d.rxCtx = none) :
    d.freeRxCtx cfg c = { d with pool := (d.freeRxCtx cfg c).pool } := by
  obtain ⟨⟩ := d
  obtain rfl : _ = none := hrx
  rfl

/-- The last step, on a context whose rings are there. -/
theorem prepareRx_result {plan : RxPlan} {c : RxCtx} (hplan : plan.RingsHad cfg)
    (hrx : d.rxCtx = none) (htx : d.txCtx = none) (hfw : c.inFw = false) (hs : c.Sized cfg)
    (hsds : c.sdsRings.length = cfg.maxPossibleRssRings) (h : d.pool.Holds n (c.blocks + m)) :
    RxResult cfg n m d plan (afterPrepare cfg (d.unmNicNewRxContextPrepare cfg plan c)) := by
  have hdma := createCtxAllocDma_result h cfg.sizeofHostrqRx cfg.sizeofCardrspRx plan.dma
  rw [unmNicNewRxContextPrepare]
  generalize createCtxAllocDma cfg.sizeofHostrqRx cfg.sizeofCardrspRx plan.dma d.pool = res
    at hdma ⊢
  cases hdma with
  | crashes hcrashes => exact .crashes hplan (.inl hcrashes)
  | gone hgone hholds => exact .ignored hplan hgone hfw hs hsds hholds
  | @had p rq rsp hhad hrq hrsp hholds =>
    cases hv34 : cfg.fwV34 with
    | true =>
      have hfreed : (pciFreeConsistent p cfg.sizeofCardrspRx (some rsp)).Holds n
          (c.blocks + (rq ::ₘ m)) := by
        rw [Multiset.add_cons]
        exact hrsp ▸ hholds.give
      dsimp only
      rw [if_pos rfl, unmNicV34ContextPrepare]
      cases htxMem : plan.txMem with
      | false =>
        rw [if_neg fun h => Bool.false_ne_true h.2]
        dsimp only
        rw [htx]
        exact .crashes hplan (.inr ⟨hv34, hhad, htxMem⟩)
      | true =>
        rw [if_pos ⟨Option.isNone_iff_eq_none.mpr htx, rfl⟩]
        dsimp only
        rw [nxFwCmdV34CreateCtx.eq_def]
        cases hcommand : plan.command with
        | error code =>
          dsimp only
          rw [afterPrepare, if_neg code.property, freeRxCtx_eq c (by exact hrx)]
          refine .refusedV34 hv34 hplan ⟨hhad, ?_⟩ (freeRxCtx_holds ?_ hs)
          · rw [hcommand]
            rfl
          · exact hfreed
        | ok state =>
          dsimp only
          rw [afterPrepare, if_pos rfl]
          refine .madeV34 hv34 hplan hhad htxMem ?_ rfl ⟨hs.sds, hs.rds⟩ hsds hrq hfreed
          rw [hcommand]
          rfl
    | false =>
      have hfreed : (pciFreeConsistent (pciFreeConsistent p cfg.sizeofHostrqRx (some rq))
          cfg.sizeofCardrspRx (some rsp)).Holds n (c.blocks + m) := by
        rw [Multiset.cons_swap] at hholds
        exact hrsp ▸ (hrq ▸ hholds.give : (p.give rq cfg.sizeofHostrqRx).Holds n _).give
      dsimp only
      rw [if_neg Bool.false_ne_true, nxFwCmdCreateRxCtx.eq_def]
      cases hcommand : plan.command with
      | error code =>
        dsimp only
        rw [afterPrepare, if_neg code.property, freeRxCtx_eq c (by exact hrx)]
        refine .refused hv34 hplan ⟨hhad, ?_⟩ (freeRxCtx_holds ?_ hs)
        · rw [hcommand]
          rfl
        · exact hfreed
      | ok state =>
        dsimp only
        rw [afterPrepare, if_pos rfl]
        refine .made hv34 hplan hhad ?_ rfl ⟨hs.sds, hs.rds⟩ hsds hfreed
        rw [hcommand]
        rfl

theorem createRx_result (cfg : PortConfig) (plan : RxPlan) (hrx : d.rxCtx = none)
    (htx : d.txCtx = none) (h : d.pool.Holds n m) :
    RxResult cfg n m d plan (d.nxNicCreateRxCtx cfg plan) := by
  rw [nxNicCreateRxCtx]
  by_cases hmem : plan.mem = false
  · rw [if_pos (.inr hmem)]
    exact .unmade (fun hplan => Bool.false_ne_true (hmem.symm.trans hplan.1)) h
  · rw [if_neg (not_or.mpr ⟨fun h => absurd hrx (Option.isSome_iff_ne_none.mp h), hmem⟩)]
    have hmem : plan.mem = true := Bool.eq_true_of_not_eq_false hmem
    have hbareRds : RingsBare (newRxCtx cfg).rdsRings := fun r hr => by
      rw [List.eq_of_mem_replicate hr]
      rfl
    have hbareSds : RingsBare (newRxCtx cfg).sdsRings := fun r hr => by
      rw [List.eq_of_mem_replicate hr]
      rfl
    have hlengthRds : (newRxCtx cfg).rdsRings.length = cfg.maxRdsRings := List.length_replicate
    obtain ⟨ok, rds, hres, hbare, hlength, hos, hhad⟩ := allocHostRx_spec cfg plan hbareRds
    rw [hlengthRds] at hlength hhad
    dsimp only
    rw [hres]
    cases ok with
    | false =>
      dsimp only
      rw [freeRxCtx_eq _ hrx]
      refine .unmade (fun hplan => ?_) (freeRxCtx_holds ?_ ⟨hbareSds.sized, hbare.sized⟩)
      · exact Bool.false_ne_true (hhad.mpr ⟨hplan.2.1, hplan.2.2.1⟩)
      · rw [RxCtx.blocks, hbareSds.blocks, hbare.blocks, Multiset.zero_add, Multiset.zero_add]
        exact h
    | true =>
      obtain ⟨hosAll, hbufAll⟩ := hhad.mp rfl
      obtain ⟨hholds, hsized, hrdsHad⟩ := holds_allocRings plan.rdsMem h
        (fun _ _ => rfl : ∀ (r : RdsRing) a, rcvDescRingsize _ = _) hbare (hos rfl)
      rw [hlength] at hrdsHad
      dsimp only
      rcases hrds : nxNicAllocHwRxResources plan rds d.pool with ⟨_ | _, rds, p⟩
      · rw [← nxNicAllocHwRxResources, hrds] at hholds hsized hrdsHad
        dsimp only
        rw [freeRxCtx_eq _ (by exact hrx)]
        refine .unmade (fun hplan => ?_) (freeRxCtx_holds ?_ ⟨hbareSds.sized, hsized⟩)
        · exact Bool.false_ne_true (hrdsHad.mpr hplan.2.2.2.1)
        · rw [RxCtx.blocks, hbareSds.blocks, Multiset.zero_add]
          exact hholds
      · rw [← nxNicAllocHwRxResources, hrds] at hholds hsized hrdsHad
        have hbareSds' : RingsBare (nxNicAllocHostSdsResources (newRxCtx cfg).sdsRings) := by
          intro r hr
          obtain ⟨s, hs, rfl⟩ := List.mem_map.mp hr
          exact hbareSds s hs
        have hosSds : ∀ r ∈ nxNicAllocHostSdsResources (newRxCtx cfg).sdsRings,
            HostRing.osData r = true := by
          intro r hr
          obtain ⟨s, -, rfl⟩ := List.mem_map.mp hr
          rfl
        have hlengthSds : (nxNicAllocHostSdsResources (newRxCtx cfg).sdsRings).length =
            cfg.maxPossibleRssRings := (List.length_map _).trans List.length_replicate
        obtain ⟨hholds', hsized', hsdsHad⟩ := holds_allocRings plan.sdsMem hholds
          (fun _ _ => rfl : ∀ (r : SdsRing) a, statusDescRingsize cfg _ = _) hbareSds' hosSds
        rw [hlengthSds] at hsdsHad
        dsimp only
        rcases hsds : nxAllocStsRings cfg plan
          (nxNicAllocHostSdsResources (newRxCtx cfg).sdsRings) p with ⟨_ | _, sds, q⟩
        · rw [← nxAllocStsRings, hsds] at hholds' hsized' hsdsHad
          dsimp only
          rw [freeRxCtx_eq _ (by exact hrx)]
          refine .unmade (fun hplan => ?_) (freeRxCtx_holds ?_ ⟨hsized', hsized⟩)
          · exact Bool.false_ne_true (hsdsHad.mpr hplan.2.2.2.2)
          · rw [RxCtx.blocks, Multiset.add_assoc]
            exact hholds'
        · have hlength' := length_allocRings hsds
          rw [← nxAllocStsRings, hsds] at hholds' hsized' hsdsHad
          have hplan : plan.RingsHad cfg := ⟨hmem, hosAll, hbufAll, hrdsHad.mp rfl, hsdsHad.mp rfl⟩
          have hctx : q.Holds n
              ({ newRxCtx cfg with rdsRings := rds, sdsRings := sds }.blocks + m) := by
            rw [RxCtx.blocks, Multiset.add_assoc]
            exact hholds'
          exact .of_pool (prepareRx_result (d := { d with pool := q }) hplan hrx htx rfl
            ⟨hsized', hsized⟩ (hlength'.trans hlengthSds) hctx)

end Port

/-! ## The transmit context -/

/-- What `unm_nic_new_tx_context_prepare` comes to for a port without a transmit context. -/
inductive TxResult (n : Nat) (m : Multiset Block) (d : Port) (plan : TxPlan) :
    Option (Int × Port) → Prop where
  | crashes (hmem : plan.mem = true) (hcrashes : plan.dma.Crashes) : TxResult n m d plan none
  | failed {rc : Int} {p : Pool} (hrc : rc ≠ 0)
    (hplan : plan.mem = false ∨ Refused plan.dma plan.command) (h : p.Holds n m) :
    TxResult n m d plan (some (rc, { d with pool := p }))
  | ignored {p : Pool} (hmem : plan.mem = true) (hgone : plan.dma.Gone) (h : p.Holds n m) :
    TxResult n m d plan (some (0, { d with
      pool := p
      txCtx := some ⟨nxHostCtxStateAllocated, false⟩ }))
  | made {p : Pool} {state : BitVec 32} (hmem : plan.mem = true) (hhad : plan.dma.Had)
    (hcommand : plan.command.toOption = some state) (h : p.Holds n m) :
    TxResult n m d plan (some (0, { d with
      pool := p
      txCtx := some ⟨state, true⟩
      fwCtxs := d.fwCtxs + 1 }))

namespace Port
variable {d : Port}

theorem prepareTx_result (plan : TxPlan) (htx : d.txCtx = none) (h : d.pool.Holds n m) :
    TxResult n m d plan (d.unmNicNewTxContextPrepare plan) := by
  have hdma := createCtxAllocDma_result h sizeofHostrqTx sizeofCardrspTx plan.dma
  rw [unmNicNewTxContextPrepare, if_neg fun h => absurd htx (Option.isSome_iff_ne_none.mp h)]
  by_cases hmem : plan.mem = false
  · rw [if_pos hmem]
    exact .failed (by decide) (.inl hmem) h
  · have hmem' : plan.mem = true := Bool.eq_true_of_not_eq_false hmem
    rw [if_neg hmem]
    generalize createCtxAllocDma sizeofHostrqTx sizeofCardrspTx plan.dma d.pool = res at hdma ⊢
    cases hdma with
    | crashes hcrashes => exact .crashes hmem' hcrashes
    | gone hgone hholds => exact .ignored hmem' hgone hholds
    | @had p rq rsp hhad hrq hrsp hholds =>
      have hfreed : (pciFreeConsistent (pciFreeConsistent p sizeofHostrqTx (some rq))
          sizeofCardrspTx (some rsp)).Holds n m := by
        rw [Multiset.cons_swap] at hholds
        exact hrsp ▸ (hrq ▸ hholds.give : (p.give rq sizeofHostrqTx).Holds n _).give
      dsimp only
      cases hcommand : plan.command with
      | error code =>
        refine .failed code.property (.inr ⟨hhad, ?_⟩) hfreed
        rw [hcommand]
        rfl
      | ok state =>
        refine .made hmem' hhad ?_ hfreed
        rw [hcommand]
        rfl

/-! ## Destroying and interrupts -/

/-- How many contexts a destroy command takes out of the firmware. -/
def destroyed (c : FwCtx) (taken : Bool) : Nat := if c.Destroyed taken then 1 else 0

theorem destroyRx_eq {c : RxCtx} (taken : Bool) (hrx : d.rxCtx = some c) : ∃ c' : RxCtx,
    d.unmNicNewRxContextDestroy taken = { d with
      rxCtx := some c'
      fwCtxs := d.fwCtxs - destroyed c.toFwCtx taken } ∧
    c'.rdsRings = c.rdsRings ∧ c'.sdsRings = c.sdsRings := by
  rw [unmNicNewRxContextDestroy, destroyed, hrx]
  dsimp only
  split
  · exact ⟨_, rfl, rfl, rfl⟩
  · refine ⟨c, ?_, rfl, rfl⟩
    rw [← hrx]
    rfl

theorem destroyTx_eq {c : FwCtx} (taken : Bool) (htx : d.txCtx = some c) :
    d.unmNicNewTxContextDestroy taken = { d with
      txCtx := none
      fwCtxs := d.fwCtxs - destroyed c taken } := by
  rw [unmNicNewTxContextDestroy, destroyed, htx]
  dsimp only
  split
  · rfl
  · rfl

/-- `unm_nic_free_ring_context_in_fw` gives back the area of the firmware 3.4, and leaves the rings
of the receive context. -/
theorem freeInFw_eq (cfg : PortConfig) {c : RxCtx} (rxTaken txTaken : Bool)
    (hrx : d.rxCtx = some c) :
    ∃ (c' : RxCtx) (k : Nat), d.unmNicFreeRingContextInFw cfg rxTaken txTaken = { d with
      pool := if cfg.fwV34 then pciFreeConsistent d.pool d.ctxAdd.size d.ctxAdd.ptr else d.pool
      rxCtx := some c'
      txCtx := none
      fwCtxs := k } ∧ c'.rdsRings = c.rdsRings ∧ c'.sdsRings = c.sdsRings := by
  rw [unmNicFreeRingContextInFw]
  split
  · rw [unmNicV34FreeRingContextInFw, hrx]
    dsimp only
    split
    · exact ⟨_, _, rfl, rfl, rfl⟩
    · exact ⟨c, d.fwCtxs, rfl, rfl, rfl⟩
  · obtain ⟨c', hres, hrds, hsds⟩ := destroyRx_eq rxTaken hrx
    rw [hres]
    cases htx : d.txCtx with
    | none =>
      rw [unmNicNewTxContextDestroy]
      exact ⟨c', _, rfl, hrds, hsds⟩
    | some t =>
      rw [destroyTx_eq (c := t) txTaken rfl]
      exact ⟨c', _, rfl, hrds, hsds⟩

/-- The handlers are registered for all rings, or for none. -/
theorem requestIrqs_cases (irq : Nat → Option Rcode) (k i irqs : Nat) :
    ((∀ j < k, irq (i + j) = none) ∧ requestIrqs irq k i (irqs + i) = (none, irqs + i + k)) ∨
    (¬(∀ j < k, irq (i + j) = none) ∧ ∃ code,
      requestIrqs irq k i (irqs + i) = (some code, irqs)) := by
  induction k generalizing i with
  | zero => exact .inl ⟨fun j hj => absurd hj (Nat.not_lt_zero j), rfl⟩
  | succ k ih =>
    rw [requestIrqs]
    cases hfirst : irq i with
    | some code =>
      refine .inr ⟨fun hall => ?_, code, ?_⟩
      · exact absurd (hfirst.symm.trans (hall 0 (Nat.zero_lt_succ k))) nofun
      · dsimp only
        rw [Nat.add_sub_cancel]
    | none =>
      have hall : (∀ j < k, irq (i + 1 + j) = none) ↔ ∀ j < k + 1, irq (i + j) = none := by
        constructor
        · intro hrest j hj
          cases j with
          | zero => exact hfirst
          | succ j =>
            rw [← Nat.add_assoc, Nat.add_right_comm]
            exact hrest j (Nat.lt_of_succ_lt_succ hj)
        · intro hrest j hj
          rw [Nat.add_right_comm, Nat.add_assoc]
          exact hrest (j + 1) (Nat.succ_lt_succ hj)
      rw [← hall]
      dsimp only
      rw [Nat.add_assoc irqs i 1]
      rcases ih (i + 1) with ⟨hnone, hres⟩ | ⟨hsome, code, hres⟩
      · refine .inl ⟨hnone, hres.trans ?_⟩
        rw [show irqs + (i + 1) + k = irqs + i + (k + 1) by omega]
      · exact .inr ⟨hsome, code, hres⟩

end Port

end Attach
end NxNic

import NxNic.Attach.Memory
import NxNic.Lib.Machine

/-! # Attach and detach

`unm_nic_attach` and `unm_nic_hw_resources` with all that they allocate: the blocks of the port,
the contexts with their rings, the interrupts and the memory of the "pexq".  Any step may fail,
as the plan of the call says.  `unm_nic_free_ring_context` frees the blocks and the receive
context, whoever calls it.

The state is the `Port`, and a step (`portMachine`) a whole call of either function, whose result is
an error code and the port it leaves; where the call would follow a `NULL` pointer there is none.
-/
namespace NxNic
namespace Attach

/-- What a port is built and probed with; the sizes depend on the machine. -/
structure PortConfig where
  driverMismatch : Bool
  fwV34 : Bool
  revisionP2 : Bool
  pexqCap : Bool
  epgWorkaround : Bool
  unmNicSnmp : Bool
  sizeofDmaAddr : Nat
  sizeofFingerPrint : Nat
  sizeofSnmpStats : Nat
  sizeofCtxStats : Nat
  maxRxDescCount : Nat
  maxJumboRxDescCount : Nat
  maxLroRxDescCount : Nat
  maxPossibleRssRings : Nat

/-- An error code. -/
abbrev Rcode := { code : Int // code ≠ 0 }

/-- What `nx_nic_create_rx_ctx` meets: memory for the context and for its rings, the areas for
the command and its answer, which with the firmware 4.0 is a state; `txMem` is the memory for
the transmit context of the firmware 3.4. -/
structure RxPlan where
  mem : Bool
  osData : Nat → Bool
  rxBufArr : Nat → Bool
  rdsMem : Nat → AllocPlan
  sdsMem : Nat → AllocPlan
  dma : DmaPlan
  txMem : Bool
  command : Except Rcode (BitVec 32)

/-- What `unm_nic_new_tx_context_prepare` meets. -/
structure TxPlan where
  mem : Bool
  dma : DmaPlan
  command : Except Rcode (BitVec 32)

/-- What `unm_nic_attach` meets, in its order; the last but two are whether the firmware takes
the commands that destroy the contexts on the way out. -/
structure AttachPlan where
  firmware : Bool
  receivePeg : Bool
  cmdBufArr : Bool
  cmdBufArrAgain : Bool
  cmdDesc : AllocPlan
  pause : AllocPlan
  lic : Bool
  snmpStats : Bool
  netStats : Bool
  rx : RxPlan
  pexq : Option Rcode
  tx : TxPlan
  irq : Nat → Option Rcode
  rxDestroyed : Bool
  txDestroyed : Bool
  macaddrSet : Bool
  initPort : Bool

/-! ## The state -/

/-- A context: its `state`, and whether the firmware has it. -/
structure FwCtx where
  state : BitVec 32
  inFw : Bool
deriving DecidableEq

structure RxCtx extends FwCtx where
  rdsRings : List RdsRing
  sdsRings : List SdsRing
deriving DecidableEq

/-- `struct nx_dma_alloc_s`. -/
structure DmaArea where
  ptr : Option Block
  size : Nat
deriving DecidableEq

/-- The parts of `unm_adapter` that attach and detach allocate; `irqs` counts the handlers that
are registered and `fwCtxs` the contexts that the firmware has. -/
structure Port where
  pool : Pool
  maxTxDescCount : Nat
  cmdBufArr : Bool
  cmdDescHead : Option Block
  pauseAddr : Option Block
  nxLicDma : Option Block
  snmpStatsDma : Option Block
  nicNetStats : Option Block
  ctxAdd : DmaArea
  rxCtx : Option RxCtx
  txCtx : Option FwCtx
  irqs : Nat
  pexq : Bool
  fwCtxs : Nat
  isUp : Bool
deriving DecidableEq

def nxHostCtxStateAllocated : BitVec 32 := 1
def nxHostCtxStateActive : BitVec 32 := 2
def nxHostCtxStateMax : BitVec 32 := 5

def eio : Int := -5
def enomem : Int := -12
def nxRcodeNoHostMem : Int := 1
def nxRcodeMaxExceeded : Int := 20

/-! ## Sizes -/

/-- The size of the command ring as it is allocated: its consumer index follows the ring. -/
def cmdRingAllocSize (cfg : PortConfig) (maxTxDescCount : Nat) : Nat :=
  64 * maxTxDescCount + cfg.sizeofDmaAddr

/-- The size of the command ring as it is freed. -/
def cmdRingFreeSize (maxTxDescCount : Nat) : Nat := 64 * maxTxDescCount + 4

def rcvDescRingsize (r : RdsRing) : Nat := 16 * r.ringSize

def statusDescRingsize (cfg : PortConfig) (_ : SdsRing) : Nat := 16 * cfg.maxRxDescCount

/-- `max_rds_rings`. -/
def PortConfig.maxRdsRings (cfg : PortConfig) : Nat := if cfg.fwV34 then 3 else 2

/-- The size of a receive ring, by its type. -/
def PortConfig.rdsRingSize (cfg : PortConfig) : Nat → Nat
  | 0 => cfg.maxRxDescCount
  | 1 => cfg.maxJumboRxDescCount
  | _ => cfg.maxLroRxDescCount

/-- `SIZEOF_HOSTRQ_RX` and its three siblings. -/
def PortConfig.sizeofHostrqRx (cfg : PortConfig) : Nat :=
  176 + cfg.maxRdsRings * 24 + cfg.maxPossibleRssRings * 16

def PortConfig.sizeofCardrspRx (cfg : PortConfig) : Nat :=
  152 + cfg.maxRdsRings * 8 + cfg.maxPossibleRssRings * 8

def sizeofHostrqTx : Nat := 200
def sizeofCardrspTx : Nat := 144

/-! ## The rings of a receive context -/

/-- `nx_fw_cmd_create_rx_ctx_alloc`: the context with its rings, all cleared. -/
def newRxCtx (cfg : PortConfig) : RxCtx :=
  ⟨⟨nxHostCtxStateAllocated, false⟩, .replicate cfg.maxRdsRings ⟨false, 0, none⟩,
    .replicate cfg.maxPossibleRssRings ⟨false, none⟩⟩

def nxNicFreeHostRxResources (rs : List RdsRing) : List RdsRing :=
  rs.map fun r => { r with osData := false }

/-- The `os_data` of a ring. -/
def allocOsData (plan : RxPlan) (i : Nat) (r : RdsRing) (_ : Unit) : Bool × RdsRing × Unit :=
  (plan.osData i, { r with osData := plan.osData i }, ())

/-- The size of a ring, and its array of buffers. -/
def allocRxBufArr (cfg : PortConfig) (plan : RxPlan) (i : Nat) (r : RdsRing) (_ : Unit) :
    Bool × RdsRing × Unit := (plan.rxBufArr i, { r with ringSize := cfg.rdsRingSize i }, ())

def nxNicAllocHostRxResources (cfg : PortConfig) (plan : RxPlan) (rs : List RdsRing) :
    Bool × List RdsRing :=
  match tryRings (allocOsData plan) 0 rs () with
  | (false, rs, _) => (false, nxNicFreeHostRxResources rs)
  | (true, rs, _) =>
    match tryRings (allocRxBufArr cfg plan) 0 rs () with
    | (false, rs, _) => (false, nxNicFreeHostRxResources rs)
    | (true, rs, _) => (true, rs)

def nxNicAllocHwRxResources (plan : RxPlan) (rs : List RdsRing) (p : Pool) :
    Bool × List RdsRing × Pool := allocRings rcvDescRingsize plan.rdsMem rs p

def nxNicFreeHwRxResources (rs : List RdsRing) (p : Pool) : List RdsRing × Pool :=
  freeRings rcvDescRingsize rs p

def nxNicAllocHostSdsResources (rs : List SdsRing) : List SdsRing :=
  rs.map fun r => { r with osData := true }

def nxAllocStsRings (cfg : PortConfig) (plan : RxPlan) (rs : List SdsRing) (p : Pool) :
    Bool × List SdsRing × Pool := allocRings (statusDescRingsize cfg) plan.sdsMem rs p

def nxFreeStsRings (cfg : PortConfig) (rs : List SdsRing) (p : Pool) : List SdsRing × Pool :=
  freeRings (statusDescRingsize cfg) rs p

namespace Port
variable (cfg : PortConfig) (d : Port)

/-- A receive context with its rings is freed. -/
def freeRxCtx (c : RxCtx) : Port :=
  let sds := nxFreeStsRings cfg c.sdsRings d.pool
  let rds := nxNicFreeHwRxResources c.rdsRings sds.2
  { d with pool := rds.2, rxCtx := none }

/-! ## Contexts in the firmware -/

/-- `unm_nic_v34_context_prepare`. -/
def unmNicV34ContextPrepare (txMem : Bool) : Port :=
  if d.txCtx.isNone ∧ txMem then { d with txCtx := some ⟨nxHostCtxStateAllocated, false⟩ } else d

/-- `nx_fw_cmd_create_rx_ctx`, on a context just allocated. -/
def nxFwCmdCreateRxCtx (command : Except Rcode (BitVec 32)) (c : RxCtx) : Int × RxCtx × Port :=
  match command with
  | .error code => (code, c, d)
  | .ok state => (0, { c with state, inFw := true }, { d with fwCtxs := d.fwCtxs + 1 })

/-- `nx_fw_cmd_v34_create_ctx`: one context in the firmware for both. -/
def nxFwCmdV34CreateCtx (command : Except Rcode (BitVec 32)) (c : RxCtx) (tx : FwCtx) :
    Int × RxCtx × Port :=
  match command with
  | .error code => (code, c, d)
  | .ok _ =>
    (0, { c with state := nxHostCtxStateActive, inFw := true },
      { d with
        txCtx := some { tx with state := nxHostCtxStateActive }
        fwCtxs := d.fwCtxs + 1 })

/-- `unm_nic_new_rx_context_prepare`; `none` where a pointer that is `NULL` is followed. -/
def unmNicNewRxContextPrepare (plan : RxPlan) (c : RxCtx) : Option (Int × RxCtx × Port) :=
  match createCtxAllocDma cfg.sizeofHostrqRx cfg.sizeofCardrspRx plan.dma d.pool with
  | none => none
  | some (none, p) => some (0, c, { d with pool := p })
  | some (some (rq, rsp), p) =>
    let d := { d with pool := p }
    if cfg.fwV34 then
      let d := d.unmNicV34ContextPrepare plan.txMem
      match d.txCtx with
      | none => none
      | some tx =>
        match d.nxFwCmdV34CreateCtx plan.command c tx with
        | (rc, c, d) =>
          some (rc, c, { d with
            ctxAdd := ⟨some rq, cfg.sizeofHostrqRx⟩
            pool := pciFreeConsistent d.pool cfg.sizeofCardrspRx (some rsp) })
    else
      match d.nxFwCmdCreateRxCtx plan.command c with
      | (rc, c, d) =>
        some (rc, c, { d with
          pool := pciFreeConsistent (pciFreeConsistent d.pool cfg.sizeofHostrqRx (some rq))
            cfg.sizeofCardrspRx (some rsp) })

/-- The end of `nx_nic_create_rx_ctx`: the context is kept, or freed with its rings. -/
def afterPrepare : Option (Int × RxCtx × Port) → Option (Int × Port)
  | none => none
  | some (rc, c, d) =>
    if rc = 0 then some (0, { d with rxCtx := some c }) else some (-1, d.freeRxCtx cfg c)

/-- `nx_nic_create_rx_ctx`, with the only id 0. -/
def nxNicCreateRxCtx (plan : RxPlan) : Option (Int × Port) :=
  if d.rxCtx.isSome ∨ plan.mem = false then some (-1, d)
  else
    let c := newRxCtx cfg
    match nxNicAllocHostRxResources cfg plan c.rdsRings with
    | (false, rds) => some (-1, d.freeRxCtx cfg { c with rdsRings := rds })
    | (true, rds) =>
      match nxNicAllocHwRxResources plan rds d.pool with
      | (false, rds, p) => some (-1, { d with pool := p }.freeRxCtx cfg { c with rdsRings := rds })
      | (true, rds, p) =>
        match nxAllocStsRings cfg plan (nxNicAllocHostSdsResources c.sdsRings) p with
        | (false, sds, p) =>
          some (-1, { d with pool := p }.freeRxCtx cfg { c with rdsRings := rds, sdsRings := sds })
        | (true, sds, p) =>
          afterPrepare cfg ({ d with pool := p }.unmNicNewRxContextPrepare cfg plan
            { c with rdsRings := rds, sdsRings := sds })

/-- `unm_nic_new_tx_context_prepare`. -/
def unmNicNewTxContextPrepare (plan : TxPlan) : Option (Int × Port) :=
  if d.txCtx.isSome then some (nxRcodeMaxExceeded, d)
  else if plan.mem = false then some (nxRcodeNoHostMem, d)
  else
    match createCtxAllocDma sizeofHostrqTx sizeofCardrspTx plan.dma d.pool with
    | none => none
    | some (none, p) =>
      some (0, { d with pool := p, txCtx := some ⟨nxHostCtxStateAllocated, false⟩ })
    | some (some (rq, rsp), p) =>
      let p := pciFreeConsistent (pciFreeConsistent p sizeofHostrqTx (some rq))
        sizeofCardrspTx (some rsp)
      match plan.command with
      | .error code => some (code, { d with pool := p })
      | .ok state =>
        some (0, { d with pool := p, txCtx := some ⟨state, true⟩, fwCtxs := d.fwCtxs + 1 })

end Port

/-- The destroy commands take a context out of the firmware, when they are sent and taken. -/
def FwCtx.Destroyed (c : FwCtx) (taken : Bool) : Prop :=
  c.state ≤ nxHostCtxStateMax ∧ taken = true ∧ c.inFw = true

instance decidableDestroyed (c : FwCtx) (taken : Bool) : Decidable (c.Destroyed taken) :=
  inferInstanceAs (Decidable (_ ∧ _ ∧ _))

namespace Port
variable (cfg : PortConfig) (d : Port)

/-- `unm_nic_new_rx_context_destroy`; with `NX_DESTROY_CTX_NO_FWCMD` no command is taken. -/
def unmNicNewRxContextDestroy (taken : Bool) : Port :=
  match d.rxCtx with
  | none => d
  | some c =>
    if c.Destroyed taken then
      { d with rxCtx := some { c with inFw := false }, fwCtxs := d.fwCtxs - 1 }
    else d

/-- `unm_nic_new_tx_context_destroy`. -/
def unmNicNewTxContextDestroy (taken : Bool) : Port :=
  match d.txCtx with
  | none => d
  | some c =>
    if c.Destroyed taken then { d with txCtx := none, fwCtxs := d.fwCtxs - 1 }
    else { d with txCtx := none }

/-- `unm_nic_v34_free_ring_context_in_fw`: the reset that is written takes the context out. -/
def unmNicV34FreeRingContextInFw : Port :=
  match d.rxCtx with
  | none => { d with txCtx := none }
  | some c =>
    if c.inFw then
      { d with
        txCtx := none
        rxCtx := some { c with inFw := false }
        fwCtxs := d.fwCtxs - 1 }
    else { d with txCtx := none }

/-- `unm_nic_free_ring_context_in_fw`. -/
def unmNicFreeRingContextInFw (rxTaken txTaken : Bool) : Port :=
  if cfg.fwV34 then
    { d with pool := pciFreeConsistent d.pool d.ctxAdd.size d.ctxAdd.ptr }
      |>.unmNicV34FreeRingContextInFw
  else (d.unmNicNewRxContextDestroy rxTaken).unmNicNewTxContextDestroy txTaken

/-- `unm_nic_free_ring_context`. -/
def unmNicFreeRingContext : Port :=
  let p := pciFreeConsistent d.pool (cmdRingFreeSize d.maxTxDescCount) d.cmdDescHead
  let p := pciFreeConsistent p cfg.sizeofFingerPrint d.nxLicDma
  let p := pciFreeConsistent p cfg.sizeofSnmpStats d.snmpStatsDma
  let p := pciFreeConsistent p 512 d.pauseAddr
  let p := pciFreeConsistent p cfg.sizeofCtxStats d.nicNetStats
  let d := { d with
    pool := p
    cmdBufArr := false
    cmdDescHead := none
    nxLicDma := none
    snmpStatsDma := none
    pauseAddr := none
    nicNetStats := none }
  match d.rxCtx with
  | none => d
  | some c => d.freeRxCtx cfg c

/-! ## `unm_nic_hw_resources` -/

/-- The array of command buffers, for which `MaxTxDescCount` may be lowered. -/
def allocCmdBufArr (plan : AttachPlan) : Bool × Port :=
  if plan.cmdBufArr then (true, { d with cmdBufArr := true })
  else if 1024 < d.maxTxDescCount then
    (plan.cmdBufArrAgain, { d with maxTxDescCount := 1024, cmdBufArr := plan.cmdBufArrAgain })
  else (false, { d with cmdBufArr := false })

def allocCmdDesc (plan : AttachPlan) : Bool × Port :=
  match nxAlloc d.pool (cmdRingAllocSize cfg d.maxTxDescCount) plan.cmdDesc with
  | (none, p) => (false, { d with pool := p })
  | (some b, p) => (true, { d with pool := p, cmdDescHead := some b })

def allocPause (plan : AttachPlan) : Bool × Port :=
  if cfg.epgWorkaround then
    match nxAlloc d.pool 512 plan.pause with
    | (none, p) => (false, { d with pool := p })
    | (some b, p) => (true, { d with pool := p, pauseAddr := some b })
  else (true, d)

def allocLic (plan : AttachPlan) : Bool × Port :=
  match pciAllocConsistent d.pool cfg.sizeofFingerPrint plan.lic with
  | (addr, p) => (addr.isSome, { d with pool := p, nxLicDma := addr })

def allocSnmpStats (plan : AttachPlan) : Bool × Port :=
  if cfg.unmNicSnmp then
    match pciAllocConsistent d.pool cfg.sizeofSnmpStats plan.snmpStats with
    | (addr, p) => (addr.isSome, { d with pool := p, snmpStatsDma := addr })
  else (true, d)

def allocNetStats (plan : AttachPlan) : Bool × Port :=
  match pciAllocConsistent d.pool cfg.sizeofCtxStats plan.netStats with
  | (addr, p) => (addr.isSome, { d with pool := p, nicNetStats := addr })

/-- Steps one after the other, until one fails. -/
def runSteps : List (Port → Bool × Port) → Port → Bool × Port
  | [], d => (true, d)
  | step :: steps, d =>
    match step d with
    | (false, d) => (false, d)
    | (true, d) => runSteps steps d

/-- Steps 2 to 6 of `unm_nic_hw_resources`. -/
def allocBlocks (plan : AttachPlan) : Bool × Port :=
  runSteps [fun d => d.allocCmdDesc cfg plan, fun d => d.allocPause cfg plan,
    fun d => d.allocLic cfg plan, fun d => d.allocSnmpStats cfg plan,
    fun d => d.allocNetStats cfg plan] d

/-- The end of `unm_nic_hw_resources`, by what the transmit context came to. -/
def afterTxContext (plan : AttachPlan) : Option (Int × Port) → Option (Int × Port)
  | none => none
  | some (rc, d) =>
    if rc = 0 then some (0, d)
    else some (rc, (d.unmNicNewRxContextDestroy plan.rxDestroyed).unmNicFreeRingContext cfg)

/-- The contexts of the firmware 4.0 after the receive context. -/
def finishContexts (plan : AttachPlan) : Option (Int × Port) :=
  match (if cfg.pexqCap then plan.pexq else none) with
  | some code => some (code.val, { d with pexq := false }.unmNicFreeRingContext cfg)
  | none =>
    let d := if cfg.pexqCap then { d with pexq := true } else d
    afterTxContext cfg plan (d.unmNicNewTxContextPrepare plan.tx)

/-- What follows the receive context, by what it came to. -/
def afterRxContext (plan : AttachPlan) : Option (Int × Port) → Option (Int × Port)
  | none => none
  | some (err, d) =>
    if err < 0 then some (err, d.unmNicFreeRingContext cfg)
    else if cfg.fwV34 then some (err, d)
    else d.finishContexts cfg plan

/-- `unm_nic_hw_resources`. -/
def unmNicHwResources (plan : AttachPlan) : Option (Int × Port) :=
  if plan.receivePeg = false then some (eio, d)
  else
    match d.allocCmdBufArr plan with
    | (false, d) => some (enomem, d)
    | (true, d) =>
      match d.allocBlocks cfg plan with
      | (false, d) => some (enomem, d.unmNicFreeRingContext cfg)
      | (true, d) => afterRxContext cfg plan (d.nxNicCreateRxCtx cfg plan.rx)

/-! ## Interrupts -/

/-- The loop of `nx_register_irq` over the rest of the rings from ring `i` on; when one fails, the
`i` handlers before it are freed. -/
def requestIrqs (irq : Nat → Option Rcode) : Nat → Nat → Nat → Option Rcode × Nat
  | 0, _, irqs => (none, irqs)
  | n + 1, i, irqs =>
    match irq i with
    | some code => (some code, irqs - i)
    | none => requestIrqs irq n (i + 1) (irqs + 1)

/-- `nx_register_irq`, for the receive context. -/
def nxRegisterIrq (plan : AttachPlan) (c : RxCtx) : Option Rcode × Port :=
  match requestIrqs plan.irq c.sdsRings.length 0 d.irqs with
  | (rv, irqs) => (rv, { d with irqs })

/-- `nx_unregister_irq`. -/
def nxUnregisterIrq (c : RxCtx) : Port := { d with irqs := d.irqs - c.sdsRings.length }

/-! ## Attach and detach -/

/-- The end of `unm_nic_attach`, also for a port that is up. -/
def attachEnd (plan : AttachPlan) : Int × Port :=
  if cfg.revisionP2 ∧ plan.macaddrSet = false then (eio, d)
  else if plan.initPort = false then (eio, d)
  else (0, d)

/-- `unm_nic_attach` after `unm_nic_hw_resources`. -/
def attachIrqs (plan : AttachPlan) : Option (Int × Port) :=
  match d.rxCtx with
  | none => none
  | some c =>
    match d.nxRegisterIrq plan c with
    | (some code, d) =>
      some (code.val, (d.unmNicFreeRingContextInFw cfg plan.rxDestroyed
        plan.txDestroyed).unmNicFreeRingContext cfg)
    | (none, d) => some ({ d with isUp := true }.attachEnd cfg plan)

/-- The same, by what `unm_nic_hw_resources` returns. -/
def attachAfter (plan : AttachPlan) : Option (Int × Port) → Option (Int × Port)
  | none => none
  | some (rv, d) => if rv ≠ 0 then some (rv, d) else d.attachIrqs cfg plan

/-- `unm_nic_attach`; `none` where a pointer that is `NULL` is followed. -/
def unmNicAttach (plan : AttachPlan) : Option (Int × Port) :=
  if cfg.driverMismatch then some (eio, d)
  else if d.isUp then some (d.attachEnd cfg plan)
  else if plan.firmware = false then some (eio, d)
  else attachAfter cfg plan (d.unmNicHwResources cfg plan)

/-- `unm_nic_detach`; the two flags are whether the firmware takes the commands. -/
def unmNicDetach (rxTaken txTaken : Bool) : Port :=
  let d :=
    if d.isUp then
      let d := d.unmNicFreeRingContextInFw cfg rxTaken txTaken
      match d.rxCtx with
      | none => d
      | some c => d.nxUnregisterIrq c
    else d
  { d.unmNicFreeRingContext cfg with pexq := false, isUp := false }

end Port

/-- What is done with a port. -/
inductive PortAction where
  | attach (plan : AttachPlan)
  | detach (rxTaken txTaken : Bool)

/-- The port, from one call to the next. -/
def portMachine (cfg : PortConfig) : Machine Port PortAction where
  next d
    | .attach plan => (d.unmNicAttach cfg plan).map Prod.snd
    | .detach rxTaken txTaken => some (d.unmNicDetach cfg rxTaken txTaken)

/-- A port after its probe. -/
def Port.initial (maxTxDescCount : Nat) : Port :=
  ⟨[], maxTxDescCount, false, none, none, none, none, none, ⟨none, 0⟩, none, none, 0, false, 0,
    false⟩

end Attach
end NxNic

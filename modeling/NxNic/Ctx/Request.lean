import NxNic.Lib.Endian

/-! # The request for a receive context

`nx_fw_cmd_create_rx_ctx` describes the rings of a context to the firmware in a buffer: a header,
and behind it, at offsets that the header declares, a record for each ring.  All that is in the
buffer is to be read with the lowest byte first, whatever the order on the host.

The buffer is a function from offsets to bytes, and the driver's loops put their records into it
one after the other (`putRds`, `putSds`).  The reader's side is separate: `rdsAt` and `sdsAt` find
the records by what the header declares, and `readRds` and `readSds` read one.

`Encodes` is the property, that the reader finds the rings of the context, in records that do not
overlap and end within the size that was allocated.  `HostRxCtx.Encodable` is the condition, on
the rings alone.  First comes what each conversion really stores, a 16-bit field through a swap of
32 bits among them; then each loop by a frame lemma for a round; and `request_encodes_iff` compares
the two.
-/
namespace NxNic
namespace Ctx
namespace Create

/-- `nx_host_rds_ring_t`. -/
structure RdsRing where
  hostPhys : BitVec 64
  buffSize : BitVec 64
  ringSize : BitVec 32
  ringKind : BitVec 32
deriving DecidableEq

/-- `nx_host_sds_ring_t`. -/
structure SdsRing where
  hostPhys : BitVec 64
  ringSize : BitVec 32
  msiIndex : BitVec 16
deriving DecidableEq

/-- `nx_host_rx_ctx_t`. -/
structure HostRxCtx where
  numRdsRings : BitVec 16
  numSdsRings : BitVec 16
  rdsRings : Nat → RdsRing
  sdsRings : Nat → SdsRing
  multiContext : Bool
  chainingAllowed : Bool

/-- `sizeof(nx_hostrq_rx_ctx_t)`, `sizeof(nx_hostrq_rds_ring_t)`, `sizeof(nx_hostrq_sds_ring_t)`. -/
def hostrqSize : Nat := 176
def hostrqRdsSize : Nat := 24
def hostrqSdsSize : Nat := 16

namespace HostRxCtx
variable (ctx : HostRxCtx)

/-- `NX_CAP0_LEGACY_CONTEXT` and so on. -/
def capabilities : BitVec 32 :=
  let temp : BitVec 32 := 0x01 ||| 0x04 ||| 0x20
  let temp := if ctx.multiContext then temp ||| 0x02 else temp
  if ctx.chainingAllowed then temp else temp ||| (0x80 ||| 0x100)

/-- `SIZEOF_HOSTRQ_RX`. -/
def requestSize : Nat :=
  hostrqSize + ctx.numRdsRings.toNat * hostrqRdsSize + ctx.numSdsRings.toNat * hostrqSdsSize

/-- A round of the loop over the receive rings, whose records are at `p`. -/
def putRds (e : Endian) (p i : Nat) (m : Bytes) : Bytes :=
  let m := e.store m (p + hostrqRdsSize * i) (e.cpuToLe (ctx.rdsRings i).hostPhys)
  let m := e.store m (p + hostrqRdsSize * i + 16) (e.cpuToLe (ctx.rdsRings i).ringSize)
  let m := e.store m (p + hostrqRdsSize * i + 20) (e.cpuToLe (ctx.rdsRings 0).ringKind)
  e.store m (p + hostrqRdsSize * i + 8) (e.cpuToLe (ctx.rdsRings i).buffSize)

/-- A round of the loop over the status rings, whose records are at `p`; `msi_index` has 16 bits,
and is given 32. -/
def putSds (e : Endian) (p i : Nat) (m : Bytes) : Bytes :=
  let m := e.store m (p + hostrqSdsSize * i) (e.cpuToLe (ctx.sdsRings i).hostPhys)
  let m := e.store m (p + hostrqSdsSize * i + 8) (e.cpuToLe (ctx.sdsRings i).ringSize)
  e.store m (p + hostrqSdsSize * i + 12)
    ((e.cpuToLe ((ctx.sdsRings i).msiIndex.setWidth 32)).setWidth 16)

/-- The header of the request. -/
def putHeader (e : Endian) (hostRsp : BitVec 64) (m : Bytes) : Bytes :=
  let m := e.store m 0 (e.cpuToLe hostRsp)
  let m := e.store m 8 (e.cpuToLe ctx.capabilities)
  let m := e.store m 24 (e.cpuToLe 1#32)
  let m := e.store m 28 (e.cpuToLe 0#32)
  let m := e.store m 40 (e.cpuToLe ctx.numRdsRings)
  let m := e.store m 42 (e.cpuToLe ctx.numSdsRings)
  let m := e.store m 32 (e.cpuToLe 0#32)
  e.store m 36 (e.cpuToLe
    (e.load 32 m 32 + BitVec.ofNat 32 hostrqRdsSize * (e.load 16 m 40).setWidth 32))

/-- `nx_fw_cmd_create_rx_ctx` up to the command, in a buffer that
`nx_fw_cmd_create_rx_ctx_alloc_dma` has cleared. -/
def nxFwCmdCreateRxCtx (e : Endian) (hostRsp : BitVec 64) (m : Bytes) : Bytes :=
  let m := fun k => if k < ctx.requestSize then 0 else m k
  let m := ctx.putHeader e hostRsp m
  let m := Words.fill (ctx.putRds e (hostrqSize + (e.load 32 m 32).toNat)) ctx.numRdsRings.toNat m
  Words.fill (ctx.putSds e (hostrqSize + (e.load 32 m 36).toNat)) ctx.numSdsRings.toNat m

end HostRxCtx

/-! ## What the firmware reads -/

/-- Where the records of the receive rings are, by the header. -/
def rdsAt (m : Bytes) : Nat := hostrqSize + (Words.load 32 m 32 4).toNat

/-- Where the records of the status rings are, by the header. -/
def sdsAt (m : Bytes) : Nat := hostrqSize + (Words.load 32 m 36 4).toNat

def readRds (m : Bytes) (a : Nat) : RdsRing :=
  ⟨Words.load 64 m a 8, Words.load 64 m (a + 8) 8, Words.load 32 m (a + 16) 4,
    Words.load 32 m (a + 20) 4⟩

def readSds (m : Bytes) (a : Nat) : SdsRing :=
  ⟨Words.load 64 m a 8, Words.load 32 m (a + 8) 4, Words.load 16 m (a + 12) 2⟩

/-- The byte is one of the record of a receive ring. -/
def InRds (ctx : HostRxCtx) (m : Bytes) (k : Nat) : Prop :=
  rdsAt m ≤ k ∧ k < rdsAt m + hostrqRdsSize * ctx.numRdsRings.toNat

/-- The byte is one of the record of a status ring. -/
def InSds (ctx : HostRxCtx) (m : Bytes) (k : Nat) : Prop :=
  sdsAt m ≤ k ∧ k < sdsAt m + hostrqSdsSize * ctx.numSdsRings.toNat

/-- **The property**: the request describes the rings of the context. -/
structure Encodes (ctx : HostRxCtx) (m : Bytes) : Prop where
  numRdsRings : Words.load 16 m 40 2 = ctx.numRdsRings
  numSdsRings : Words.load 16 m 42 2 = ctx.numSdsRings
  rds : ∀ i < ctx.numRdsRings.toNat, readRds m (rdsAt m + hostrqRdsSize * i) = ctx.rdsRings i
  sds : ∀ i < ctx.numSdsRings.toNat, readSds m (sdsAt m + hostrqSdsSize * i) = ctx.sdsRings i
  inside : ∀ k, InRds ctx m k ∨ InSds ctx m k → k < ctx.requestSize
  apart : ∀ k, ¬(InRds ctx m k ∧ InSds ctx m k)

/-- **The condition**: all receive rings are of one kind; and a host with the highest byte first has
no status rings, or they have the interrupt index 0, the number of receive rings is the same with
its bytes swapped, and so is the offset behind their records, or the rest of the status rings is 0
as well. -/
def HostRxCtx.Encodable (e : Endian) (ctx : HostRxCtx) : Prop :=
  (∀ i < ctx.numRdsRings.toNat, (ctx.rdsRings i).ringKind = (ctx.rdsRings 0).ringKind) ∧
    (e = .big → ctx.numSdsRings = 0 ∨ Endian.swap ctx.numRdsRings = ctx.numRdsRings ∧
      ∀ i < ctx.numSdsRings.toNat, (ctx.sdsRings i).msiIndex = 0 ∧
        (Endian.swap (24#32 * ctx.numRdsRings.setWidth 32) = 24#32 * ctx.numRdsRings.setWidth 32 ∨
          (ctx.sdsRings i).hostPhys = 0 ∧ (ctx.sdsRings i).ringSize = 0))

/-! ## What is put -/

namespace HostRxCtx
variable {ctx : HostRxCtx} {e : Endian} {m : Bytes} {p i : Nat} {hostRsp : BitVec 64}

/-- `msi_index` after a conversion of 32 bits and a store of 16. -/
def storedMsi (e : Endian) (msiIndex : BitVec 16) : BitVec 16 :=
  e.cpuToLe ((e.cpuToLe (msiIndex.setWidth 32)).setWidth 16)

theorem storedMsi_little (msiIndex : BitVec 16) : storedMsi .little msiIndex = msiIndex := by
  show (msiIndex.setWidth 32).setWidth 16 = msiIndex
  rw [BitVec.setWidth_setWidth_of_le _ (by decide), BitVec.setWidth_eq]

/-- The half that is stored is the one that is 0. -/
theorem storedMsi_big (msiIndex : BitVec 16) : storedMsi .big msiIndex = 0 := by
  refine Words.ext fun i hi => ?_
  rw [storedMsi, Endian.cpuToLe, Endian.byte_swap _ (by omega), Words.byte_setWidth _ (by omega),
    Endian.cpuToLe, Endian.byte_swap _ (by omega), Words.byte_setWidth _ (by omega),
    Words.byte_of_le _ (by omega)]
  exact (Words.byte_zero i).symm

theorem putRds_eq : ctx.putRds e p i m =
    Words.store (Words.store (Words.store (Words.store m
      (p + 24 * i) 8 (ctx.rdsRings i).hostPhys)
      (p + 24 * i + 16) 4 (ctx.rdsRings i).ringSize)
      (p + 24 * i + 20) 4 (ctx.rdsRings 0).ringKind)
      (p + 24 * i + 8) 8 (ctx.rdsRings i).buffSize := by
  simp only [putRds, Endian.store_cpuToLe (by decide : 8 ∣ 64),
    Endian.store_cpuToLe (by decide : 8 ∣ 32), hostrqRdsSize]

theorem putSds_eq : ctx.putSds e p i m =
    Words.store (Words.store (Words.store m
      (p + 16 * i) 8 (ctx.sdsRings i).hostPhys)
      (p + 16 * i + 8) 4 (ctx.sdsRings i).ringSize)
      (p + 16 * i + 12) 2 (storedMsi e (ctx.sdsRings i).msiIndex) := by
  simp only [putSds, Endian.store_cpuToLe (by decide : 8 ∣ 64),
    Endian.store_cpuToLe (by decide : 8 ∣ 32), Endian.store_eq, hostrqSdsSize, storedMsi]

theorem frames_putRds (i : Nat) : Words.Frames (ctx.putRds e p i) (p + 24 * i) 24 :=
  fun m k hk => by
    rw [putRds_eq]
    simp only [Words.store_apply]
    rw [if_neg (by omega), if_neg (by omega), if_neg (by omega), if_neg (by omega)]

theorem frames_putSds (i : Nat) : Words.Frames (ctx.putSds e p i) (p + 16 * i) 16 :=
  fun m k hk => by
    rw [putSds_eq]
    simp only [Words.store_apply]
    rw [if_neg (by omega), if_neg (by omega), if_neg (by omega)]

theorem readRds_congr {m m' : Bytes} {a : Nat} (h : ∀ k, a ≤ k → k < a + 24 → m k = m' k) :
    readRds m a = readRds m' a := by
  rw [readRds, readRds, Words.load_congr fun k hk hlt => h k (by omega) (by omega),
    Words.load_congr (a := a + 8) fun k hk hlt => h k (by omega) (by omega),
    Words.load_congr (a := a + 16) fun k hk hlt => h k (by omega) (by omega),
    Words.load_congr (a := a + 20) fun k hk hlt => h k (by omega) (by omega)]

theorem readSds_congr {m m' : Bytes} {a : Nat} (h : ∀ k, a ≤ k → k < a + 16 → m k = m' k) :
    readSds m a = readSds m' a := by
  rw [readSds, readSds, Words.load_congr fun k hk hlt => h k (by omega) (by omega),
    Words.load_congr (a := a + 8) fun k hk hlt => h k (by omega) (by omega),
    Words.load_congr (a := a + 12) fun k hk hlt => h k (by omega) (by omega)]

/-- The record of a receive ring has the kind of the first ring. -/
def storedRds (ctx : HostRxCtx) (i : Nat) : RdsRing :=
  { ctx.rdsRings i with ringKind := (ctx.rdsRings 0).ringKind }

def storedSds (ctx : HostRxCtx) (e : Endian) (i : Nat) : SdsRing :=
  { ctx.sdsRings i with msiIndex := storedMsi e (ctx.sdsRings i).msiIndex }

theorem readRds_putRds : readRds (ctx.putRds e p i m) (p + 24 * i) = ctx.storedRds i := by
  rw [putRds_eq, readRds]
  simp (disch := omega) only [Words.load_store_of_ne, Words.load_store]
  rfl

theorem readSds_putSds : readSds (ctx.putSds e p i m) (p + 16 * i) = ctx.storedSds e i := by
  rw [putSds_eq, readSds]
  simp (disch := omega) only [Words.load_store_of_ne, Words.load_store]
  rfl

/-! ## The header -/

/-- `sds_ring_offset`, as it is declared. -/
def sdsOffset (ctx : HostRxCtx) (e : Endian) : BitVec 32 :=
  24#32 * (e.cpuToLe ctx.numRdsRings).setWidth 32

theorem putHeader_eq : ctx.putHeader e hostRsp m =
    Words.store (Words.store (Words.store (Words.store (Words.store (Words.store (Words.store
      (Words.store m 0 8 hostRsp) 8 4 ctx.capabilities) 24 4 1#32) 28 4 0#32)
      40 2 ctx.numRdsRings) 42 2 ctx.numSdsRings) 32 4 0#32) 36 4 (ctx.sdsOffset e) := by
  have hzero : e.cpuToLe 0#32 = 0#32 := by cases e <;> decide
  simp only [putHeader, Endian.store_cpuToLe (by decide : 8 ∣ 64),
    Endian.store_cpuToLe (by decide : 8 ∣ 32), Endian.store_cpuToLe (by decide : 8 ∣ 16),
    Endian.load_eq (by decide : 8 ∣ 32), Endian.load_eq (by decide : 8 ∣ 16)]
  simp (disch := omega) only [Words.load_store_of_ne, Words.load_store, hzero, BitVec.zero_add]
  rfl

theorem frames_putHeader : Words.Frames (ctx.putHeader e hostRsp) 0 48 := fun m k hk => by
  rw [putHeader_eq]
  simp only [Words.store_apply]
  rw [if_neg (by omega), if_neg (by omega), if_neg (by omega), if_neg (by omega),
    if_neg (by omega), if_neg (by omega), if_neg (by omega), if_neg (by omega)]

/-- The bytes of the header that the firmware looks at first. -/
structure Headed (ctx : HostRxCtx) (e : Endian) (m : Bytes) : Prop where
  rdsOffset : Words.load 32 m 32 4 = 0#32
  sdsOffset : Words.load 32 m 36 4 = ctx.sdsOffset e
  numRdsRings : Words.load 16 m 40 2 = ctx.numRdsRings
  numSdsRings : Words.load 16 m 42 2 = ctx.numSdsRings

theorem headed_putHeader (m : Bytes) : Headed ctx e (ctx.putHeader e hostRsp m) := by
  rw [putHeader_eq]
  constructor <;> simp (disch := omega) only [Words.load_store_of_ne, Words.load_store]

theorem Headed.congr {m m' : Bytes} (h : Headed ctx e m) (hsame : ∀ k < 176, m' k = m k) :
    Headed ctx e m' := by
  obtain ⟨hrds, hsds, hnumRds, hnumSds⟩ := h
  constructor
  · rw [Words.load_congr fun k _ hk => hsame k (by omega), hrds]
  · rw [Words.load_congr fun k _ hk => hsame k (by omega), hsds]
  · rw [Words.load_congr fun k _ hk => hsame k (by omega), hnumRds]
  · rw [Words.load_congr fun k _ hk => hsame k (by omega), hnumSds]

/-! ## The request -/

/-- The request with its receive rings. -/
def withRds (ctx : HostRxCtx) (e : Endian) (hostRsp : BitVec 64) (m : Bytes) : Bytes :=
  Words.fill (ctx.putRds e 176) ctx.numRdsRings.toNat
    (ctx.putHeader e hostRsp fun k => if k < ctx.requestSize then 0 else m k)

/-- Where the host puts the records of the status rings. -/
def sdsPut (ctx : HostRxCtx) (e : Endian) : Nat := 176 + (e.cpuToLe (ctx.sdsOffset e)).toNat

theorem frames_withRds :
    Words.Frames (Words.fill (ctx.putRds e 176) ctx.numRdsRings.toNat) 176
      (24 * ctx.numRdsRings.toNat) := Words.frames_fill frames_putRds

theorem headed_withRds : Headed ctx e (ctx.withRds e hostRsp m) :=
  (headed_putHeader _).congr fun _ hk => frames_withRds _ _ (by omega)

theorem request_eq : ctx.nxFwCmdCreateRxCtx e hostRsp m =
    Words.fill (ctx.putSds e (ctx.sdsPut e)) ctx.numSdsRings.toNat (ctx.withRds e hostRsp m) := by
  have hzero : (e.cpuToLe 0#32).toNat = 0 := by cases e <;> decide
  have hrds : hostrqSize + (e.load 32 (ctx.putHeader e hostRsp
      fun k => if k < ctx.requestSize then 0 else m k) 32).toNat = 176 := by
    rw [Endian.load_eq (by decide), (headed_putHeader _).rdsOffset]
    exact congrArg (176 + ·) hzero
  have hsds : hostrqSize + (e.load 32 (ctx.withRds e hostRsp m) 36).toNat = ctx.sdsPut e := by
    rw [Endian.load_eq (by decide), headed_withRds.sdsOffset]
    rfl
  rw [nxFwCmdCreateRxCtx, hrds, ← withRds, hsds]

theorem frames_request :
    Words.Frames (Words.fill (ctx.putSds e (ctx.sdsPut e)) ctx.numSdsRings.toNat) (ctx.sdsPut e)
      (16 * ctx.numSdsRings.toNat) := Words.frames_fill frames_putSds

theorem headed_request : Headed ctx e (ctx.nxFwCmdCreateRxCtx e hostRsp m) := by
  rw [request_eq]
  refine headed_withRds.congr fun k hk => frames_request _ _ fun hin => ?_
  have hle : 176 ≤ ctx.sdsPut e := Nat.le_add_right ..
  omega

/-- The receive rings, unless the status rings are put over them. -/
theorem readRds_request (hput : ctx.numSdsRings = 0 ∨
      176 + 24 * ctx.numRdsRings.toNat ≤ ctx.sdsPut e) (hi : i < ctx.numRdsRings.toNat) :
    readRds (ctx.nxFwCmdCreateRxCtx e hostRsp m) (176 + 24 * i) = ctx.storedRds i := by
  have hrds : readRds (ctx.withRds e hostRsp m) (176 + 24 * i) = ctx.storedRds i :=
    Words.fill_spec (Q := fun i m => readRds m (176 + 24 * i) = ctx.storedRds i) frames_putRds
      (fun i m m' hsame h => (readRds_congr hsame).symm.trans h) (fun i m => readRds_putRds) _ hi
  rw [request_eq, ← hrds]
  refine readRds_congr fun k hk hlt => frames_request _ _ fun hin => ?_
  rcases hput with hnone | hle
  · rw [hnone] at hin
    exact absurd hin.2 (by simpa using hin.1)
  · omega

/-- The status rings, where the host puts them. -/
theorem readSds_put (hi : i < ctx.numSdsRings.toNat) :
    readSds (ctx.nxFwCmdCreateRxCtx e hostRsp m) (ctx.sdsPut e + 16 * i) =
      ctx.storedSds e i := by
  rw [request_eq]
  exact Words.fill_spec (Q := fun i m => readSds m (ctx.sdsPut e + 16 * i) = ctx.storedSds e i)
    frames_putSds (fun i m m' hsame h => (readSds_congr hsame).symm.trans h)
    (fun i m => readSds_putSds) _ hi

/-- Behind the receive rings there is nothing, unless the status rings are put there. -/
theorem readSds_zero (hput : 176 + 24 * ctx.numRdsRings.toNat + 16 * ctx.numSdsRings.toNat ≤
      ctx.sdsPut e) (hi : i < ctx.numSdsRings.toNat) :
    readSds (ctx.nxFwCmdCreateRxCtx e hostRsp m) (176 + 24 * ctx.numRdsRings.toNat + 16 * i) =
      ⟨0, 0, 0⟩ := by
  have hzero : ∀ k, 176 + 24 * ctx.numRdsRings.toNat + 16 * i ≤ k →
      k < 176 + 24 * ctx.numRdsRings.toNat + 16 * i + 16 →
        ctx.nxFwCmdCreateRxCtx e hostRsp m k = 0 := by
    intro k hk hlt
    have hsize : ctx.requestSize =
        176 + ctx.numRdsRings.toNat * 24 + ctx.numSdsRings.toNat * 16 := rfl
    rw [request_eq, frames_request _ _ (by omega), withRds, frames_withRds _ _ (by omega),
      frames_putHeader _ _ (by omega), if_pos (by omega)]
  rw [readSds, Words.load_zeros fun k hk hlt => hzero k (by omega) (by omega),
    Words.load_zeros fun k hk hlt => hzero k (by omega) (by omega),
    Words.load_zeros fun k hk hlt => hzero k (by omega) (by omega)]

/-! ## The offsets -/

/-- Both bytes the same. -/
def twice (b : BitVec 8) : BitVec 16 := Words.ofBytes 16 (fun _ => b) 2

theorem eq_twice {n : BitVec 16} (h : Endian.swap n = n) : n = twice (Words.byte n 0) := by
  refine Words.ext fun i hi => ?_
  rw [twice, Words.byte_ofBytes _ _ (by omega), if_pos (by omega)]
  rcases (by omega : i = 0 ∨ i = 1) with rfl | rfl
  · rfl
  · have hbyte : Words.byte (Endian.swap n) 1 = Words.byte n 0 := Endian.byte_swap n (by decide)
    rwa [h] at hbyte

theorem swap_offset_twice : ∀ b : BitVec 8,
    Endian.swap (24#32 * (twice b).setWidth 32) = 24#32 * (twice b).setWidth 32 ∨
      2 ^ 24 ≤ (Endian.swap (24#32 * (twice b).setWidth 32)).toNat := by
  decide +kernel

theorem sdsOffset_toNat : (ctx.sdsOffset e).toNat = 24 * (e.cpuToLe ctx.numRdsRings).toNat := by
  have hlt := (e.cpuToLe ctx.numRdsRings).isLt
  rw [sdsOffset, BitVec.toNat_mul, BitVec.toNat_setWidth]
  show 24 * (_ % 2 ^ 32) % 2 ^ 32 = _
  omega

/-- Where the host puts the status rings, if the number of receive rings is stored as it is: right
behind them, or far behind. -/
theorem sdsPut_cases (hn : e.cpuToLe ctx.numRdsRings = ctx.numRdsRings) :
    (ctx.sdsPut e = 176 + 24 * ctx.numRdsRings.toNat ∧
        e.cpuToLe (ctx.sdsOffset e) = ctx.sdsOffset e) ∨
      (e.cpuToLe (ctx.sdsOffset e) ≠ ctx.sdsOffset e ∧
        176 + 24 * ctx.numRdsRings.toNat + 16 * ctx.numSdsRings.toNat ≤ ctx.sdsPut e) := by
  have hoff : (ctx.sdsOffset e).toNat = 24 * ctx.numRdsRings.toNat := by rw [sdsOffset_toNat, hn]
  by_cases hsame : e.cpuToLe (ctx.sdsOffset e) = ctx.sdsOffset e
  · exact .inl ⟨by rw [sdsPut, hsame, hoff], hsame⟩
  · refine .inr ⟨hsame, ?_⟩
    cases e with
    | little => exact absurd rfl hsame
    | big =>
      have hfar : 2 ^ 24 ≤ (Endian.swap (ctx.sdsOffset .big)).toNat := by
        have hcases := swap_offset_twice (Words.byte ctx.numRdsRings 0)
        rw [← eq_twice hn, ← hn] at hcases
        exact hcases.resolve_left hsame
      have hrds := ctx.numRdsRings.isLt
      have hsds := ctx.numSdsRings.isLt
      have hput : ctx.sdsPut .big = 176 + (Endian.swap (ctx.sdsOffset .big)).toNat := rfl
      omega

section
variable (ctx e hostRsp m)

theorem rdsAt_request : rdsAt (ctx.nxFwCmdCreateRxCtx e hostRsp m) = 176 := by
  rw [rdsAt, headed_request.rdsOffset]
  rfl

theorem sdsAt_request : sdsAt (ctx.nxFwCmdCreateRxCtx e hostRsp m) =
    176 + 24 * (e.cpuToLe ctx.numRdsRings).toNat := by
  rw [sdsAt, headed_request.sdsOffset, sdsOffset_toNat]
  rfl

end

/-- Where the declared offset of the status rings is good. -/
theorem placed_iff (hsome : ctx.numSdsRings ≠ 0) :
    ((∀ k, InRds ctx (ctx.nxFwCmdCreateRxCtx e hostRsp m) k ∨
          InSds ctx (ctx.nxFwCmdCreateRxCtx e hostRsp m) k → k < ctx.requestSize) ∧
        ∀ k, ¬(InRds ctx (ctx.nxFwCmdCreateRxCtx e hostRsp m) k ∧
          InSds ctx (ctx.nxFwCmdCreateRxCtx e hostRsp m) k)) ↔
      e.cpuToLe ctx.numRdsRings = ctx.numRdsRings := by
  have hpos : 0 < ctx.numSdsRings.toNat := Nat.pos_of_ne_zero fun h =>
    hsome (BitVec.eq_of_toNat_eq (by simpa using h))
  have hsize : ctx.requestSize =
      176 + ctx.numRdsRings.toNat * 24 + ctx.numSdsRings.toNat * 16 := rfl
  simp only [InRds, InSds, rdsAt_request, sdsAt_request, hostrqRdsSize, hostrqSdsSize]
  constructor
  · rintro ⟨hinside, hapart⟩
    refine BitVec.eq_of_toNat_eq ?_
    have hlast := hinside (176 + 24 * (e.cpuToLe ctx.numRdsRings).toNat +
      16 * ctx.numSdsRings.toNat - 1) (.inr (by omega))
    have hfirst := hapart (176 + 24 * (e.cpuToLe ctx.numRdsRings).toNat)
    omega
  · intro hn
    rw [hn]
    exact ⟨fun k hk => by omega, fun k hk => by omega⟩

/-! ## The condition -/

theorem storedRds_eq_iff :
    ctx.storedRds i = ctx.rdsRings i ↔ (ctx.rdsRings i).ringKind = (ctx.rdsRings 0).ringKind := by
  constructor
  · exact fun h => (congrArg RdsRing.ringKind h).symm
  · intro h
    rw [storedRds, ← h]

theorem storedSds_big_eq_iff :
    ctx.storedSds .big i = ctx.sdsRings i ↔ (ctx.sdsRings i).msiIndex = 0 := by
  rw [storedSds, storedMsi_big]
  constructor
  · exact fun h => (congrArg SdsRing.msiIndex h).symm
  · intro h
    rw [← h]

/-- The status rings of the request, where their declared offset is good. -/
theorem sds_iff (hn : e.cpuToLe ctx.numRdsRings = ctx.numRdsRings)
    (hi : i < ctx.numSdsRings.toNat) :
    readSds (ctx.nxFwCmdCreateRxCtx e hostRsp m) (176 + 24 * ctx.numRdsRings.toNat + 16 * i) =
        ctx.sdsRings i ↔
      (e = .big → (ctx.sdsRings i).msiIndex = 0 ∧
        (Endian.swap (24#32 * ctx.numRdsRings.setWidth 32) = 24#32 * ctx.numRdsRings.setWidth 32 ∨
          (ctx.sdsRings i).hostPhys = 0 ∧ (ctx.sdsRings i).ringSize = 0)) := by
  rcases sdsPut_cases hn with ⟨hput, hsame⟩ | ⟨hne, hput⟩
  · rw [← hput, readSds_put hi]
    cases e with
    | little =>
      rw [storedSds, storedMsi_little]
      exact iff_of_true rfl nofun
    | big =>
      have hswap : Endian.swap (24#32 * ctx.numRdsRings.setWidth 32) =
          24#32 * ctx.numRdsRings.setWidth 32 := by
        rw [sdsOffset, hn] at hsame
        exact hsame
      rw [storedSds_big_eq_iff]
      exact ⟨fun h _ => ⟨h, .inl hswap⟩, fun h => (h rfl).1⟩
  · rw [readSds_zero hput hi]
    cases e with
    | little => exact absurd rfl hne
    | big =>
      have hswap : Endian.swap (24#32 * ctx.numRdsRings.setWidth 32) ≠
          24#32 * ctx.numRdsRings.setWidth 32 := by
        rw [sdsOffset, hn] at hne
        exact hne
      constructor
      · rintro h -
        rw [← h]
        exact ⟨rfl, .inr ⟨rfl, rfl⟩⟩
      · intro h
        obtain ⟨hmsi, hrest⟩ := h rfl
        obtain ⟨hphys, hsize⟩ := hrest.resolve_left hswap
        cases hring : ctx.sdsRings i
        rw [hring] at hmsi hphys hsize
        obtain rfl := hmsi
        obtain rfl := hphys
        obtain rfl := hsize
        rfl

theorem toNat_eq_zero_iff {n : BitVec 16} : n.toNat = 0 ↔ n = 0 :=
  ⟨fun h => BitVec.eq_of_toNat_eq h, fun h => congrArg BitVec.toNat h⟩

/-- Without status rings. -/
theorem encodes_none (hnone : ctx.numSdsRings = 0) :
    Encodes ctx (ctx.nxFwCmdCreateRxCtx e hostRsp m) ↔ ctx.Encodable e := by
  have hzero : ctx.numSdsRings.toNat = 0 := toNat_eq_zero_iff.mpr hnone
  have hsize : ctx.requestSize =
      176 + ctx.numRdsRings.toNat * 24 + ctx.numSdsRings.toNat * 16 := rfl
  have hrds : ∀ i < ctx.numRdsRings.toNat,
      readRds (ctx.nxFwCmdCreateRxCtx e hostRsp m) (176 + 24 * i) = ctx.storedRds i :=
    fun i hi => readRds_request (.inl hnone) hi
  constructor
  · intro h
    refine ⟨fun i hi => storedRds_eq_iff.mp ((hrds i hi).symm.trans ?_), fun _ => .inl hnone⟩
    have hread := h.rds i hi
    rwa [rdsAt_request] at hread
  · rintro ⟨hkinds, -⟩
    refine ⟨headed_request.numRdsRings, headed_request.numSdsRings, fun i hi => ?_,
      fun i hi => by omega, ?_, ?_⟩
    · rw [rdsAt_request]
      exact (hrds i hi).trans (storedRds_eq_iff.mpr (hkinds i hi))
    · simp only [InRds, InSds, rdsAt_request, hostrqRdsSize, hzero]
      exact fun k hk => by omega
    · simp only [InSds, hzero]
      exact fun k hk => by omega

/-- With status rings. -/
theorem encodes_some (hsome : ctx.numSdsRings ≠ 0) :
    Encodes ctx (ctx.nxFwCmdCreateRxCtx e hostRsp m) ↔ ctx.Encodable e := by
  have hsame (h : e.cpuToLe ctx.numRdsRings = ctx.numRdsRings) :
      ∀ i < ctx.numRdsRings.toNat,
        readRds (ctx.nxFwCmdCreateRxCtx e hostRsp m) (176 + 24 * i) = ctx.storedRds i := by
    refine fun i hi => readRds_request (.inr ?_) hi
    rcases sdsPut_cases h with ⟨hput, -⟩ | ⟨-, hput⟩ <;> omega
  constructor
  · intro h
    have hn := (placed_iff hsome).mp ⟨h.inside, h.apart⟩
    refine ⟨fun i hi => storedRds_eq_iff.mp ((hsame hn i hi).symm.trans ?_), fun hbig => .inr ?_⟩
    · have hread := h.rds i hi
      rwa [rdsAt_request] at hread
    · refine ⟨by rwa [hbig] at hn, fun i hi => ?_⟩
      have hread := h.sds i hi
      rw [sdsAt_request, hn] at hread
      exact (sds_iff hn hi).mp hread hbig
  · rintro ⟨hkinds, hbig⟩
    have hn : e.cpuToLe ctx.numRdsRings = ctx.numRdsRings := by
      cases e with
      | little => rfl
      | big => exact ((hbig rfl).resolve_left hsome).1
    obtain ⟨hinside, hapart⟩ := (placed_iff hsome).mpr hn
    refine ⟨headed_request.numRdsRings, headed_request.numSdsRings, fun i hi => ?_,
      fun i hi => ?_, hinside, hapart⟩
    · rw [rdsAt_request]
      exact (hsame hn i hi).trans (storedRds_eq_iff.mpr (hkinds i hi))
    · rw [sdsAt_request, hn]
      exact (sds_iff hn hi).mpr fun h => ((hbig h).resolve_left hsome).2 i hi

end HostRxCtx

/-- **The request for a receive context** describes its rings just under the condition, for either
order of the bytes on the host, any numbers and kinds of rings and whatever the buffer holds
outside the request. -/
theorem request_encodes_iff (e : Endian) (ctx : HostRxCtx) (hostRsp : BitVec 64) (m : Bytes) :
    Encodes ctx (ctx.nxFwCmdCreateRxCtx e hostRsp m) ↔ ctx.Encodable e := by
  by_cases hnone : ctx.numSdsRings = 0
  · exact HostRxCtx.encodes_none hnone
  · exact HostRxCtx.encodes_some hnone

/-- The rings of a receive context of the driver: a normal one, one of jumbo buffers, and a status
ring. -/
def usualCtx : HostRxCtx where
  numRdsRings := 2
  numSdsRings := 1
  rdsRings i := if i = 0 then ⟨0x1000, 1758, 1024, 0⟩ else ⟨0x2000, 8062, 1024, 1⟩
  sdsRings _ := ⟨0x3000, 1024, 0⟩
  multiContext := false
  chainingAllowed := true

/-- The ring of jumbo buffers is described as a normal one. -/
theorem request_repeats_kind : ¬∀ hostRsp m,
    Encodes usualCtx (usualCtx.nxFwCmdCreateRxCtx .little hostRsp m) := by
  intro hall
  have hread := (hall 0 fun _ => 0).rds 1 (by decide)
  exact absurd hread (by decide +kernel)

end Create
end Ctx
end NxNic

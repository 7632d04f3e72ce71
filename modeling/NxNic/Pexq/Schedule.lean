import Mathlib.Data.Int.ModEq
import Mathlib.Logic.Function.Basic

/-! # Doorbells to the card's queue

`nx_schedule_pexqdb` puts messages into a ring in host memory and tells the card about them
by doorbells, each for a run of slots that does not cross the end of the ring.  In every
32nd slot it puts a message of its own, which has the card write back how far it has come.

A call (`nxSchedulePexqdb`) leaves the ring's indices (`PexqDbell`), what it stored to the ring, and
the doorbells it rang.  A doorbell is a word, and what the card makes of it is read back from its
bits (`doorbellFetches`): an address of 40 bits and a count of eight.  The loop keeps `Progress`
while the run of slots for the next doorbell is open (`Open`).
-/
namespace NxNic
namespace Pexq

/-- `NX_PEXQ_DBELL_BUF_QMSGS`, for pages of 4 KB. -/
def nxPexqDbellBufQmsgs : Nat := 1024

def nxPexqDbellMaxPending : Nat := nxPexqDbellBufQmsgs / 4
def nxPexqDbellComplThres : Nat := nxPexqDbellMaxPending / 8
def maxPexqDbell : Nat := 4

/-- `NX_PEXQ_DBELL_INCR_IDX`. -/
def incrIdx (x y : Nat) : Nat := (x + y) % nxPexqDbellBufQmsgs

/-- `unm_msg_t`. -/
structure UnmMsg where
  hdr : BitVec 64
  body : Fin 7 → BitVec 64

/-- What is set up once: the function, the header and the places of the completion messages,
and where the ring is for the card. -/
structure PexqConfig where
  pciFn : BitVec 64
  xdmaHdr : BitVec 64
  cardFcArray : BitVec 64
  complInPaddr : BitVec 64
  qbufPaddr : BitVec 64

/-- `nx_pexq_dbell_t`, what changes, and what is at `compl_in_vaddr`. -/
structure PexqDbell where
  qbuf : Nat → UnmMsg
  qbufPendingComplIdx : Nat
  qbufNewIdx : Nat
  qbufFreeCnt : Int
  qbufPendingCnt : Int
  complIn : BitVec 64

/-- The first word of a completion message. -/
def dmaSyncWord (cfg : PexqConfig) : BitVec 64 :=
  8 ||| ((cfg.pciFn >>> 2) <<< 26) ||| (4#64 <<< 48) ||| (((cfg.pciFn &&& 3) <<< 4) <<< 48) |||
    ((1#64 <<< 14) <<< 48) ||| ((1#64 <<< 15) <<< 48)

/-- `form_dma_sync_msg`, in a slot that holds `msg`. -/
def formDmaSyncMsg (cfg : PexqConfig) (msg : UnmMsg) (msgIdx : Nat) : UnmMsg where
  hdr := cfg.xdmaHdr
  body i :=
    if i = 0 then dmaSyncWord cfg
    else if i = 1 then cfg.cardFcArray + 8 * BitVec.ofNat 64 (incrIdx msgIdx 1)
    else if i = 2 then cfg.complInPaddr
    else msg.body i

/-- The message is one that `form_dma_sync_msg` makes for the slot. -/
def IsDmaSync (cfg : PexqConfig) (msgIdx : Nat) (msg : UnmMsg) : Prop :=
  ∃ old, msg = formDmaSyncMsg cfg old msgIdx

/-- The index that a completion message carries: that of the word it has the card fetch. -/
def carriedIdx (cfg : PexqConfig) (msg : UnmMsg) : BitVec 64 := (msg.body 1 - cfg.cardFcArray) / 8

/-- `pexq_update_pending_doorbell`. -/
def pexqUpdatePendingDoorbell (p : PexqDbell) : PexqDbell :=
  let idx := (p.complIn.setWidth 16).toInt
  if idx = p.qbufPendingComplIdx then p
  else
    let cnt := idx - p.qbufPendingComplIdx
    let cnt := if idx < p.qbufPendingComplIdx then cnt + nxPexqDbellBufQmsgs else cnt
    { p with
      qbufPendingComplIdx := (idx % 2 ^ 16).toNat
      qbufPendingCnt := p.qbufPendingCnt - cnt
      qbufFreeCnt := p.qbufFreeCnt + cnt }

/-- A message put into a slot; `sync` for a completion message. -/
structure Store where
  slot : Nat
  msg : UnmMsg
  sync : Bool

/-- An entry of `dbell_log`: so many messages from the slot `idx` on. -/
structure Dbell where
  idx : Nat
  numMsgs : Nat
deriving DecidableEq

def Dbell.slots (d : Dbell) : List Nat := (List.range d.numMsgs).map (d.idx + ·)

/-! The word that is written to the doorbell has the address of the first message in its low
40 bits (`PEXQ_DB_FIELD_ADDR_40`) and the number of messages in the next 8
(`PEXQ_DB_FIELD_NUM_MSGS`).  A message takes 64 bytes (`PEXQ_DB_FIELD_8_QW_PER_MSG`). -/

/-- The word that is written to the doorbell. -/
def postCmd (cfg : PexqConfig) (d : Dbell) : BitVec 64 :=
  ((cfg.qbufPaddr + 64 * BitVec.ofNat 64 d.idx) &&& 0xffffffffff) |||
    ((BitVec.ofNat 64 d.numMsgs &&& 0xff) <<< 40) ||| (2#64 <<< 48) ||| (1#64 <<< 51) |||
    (1#64 <<< 52) ||| (1#64 <<< 53)

/-- The address and the number that the card finds in such a word. -/
def doorbellAddr (word : BitVec 64) : BitVec 40 := word.extractLsb' 0 40

def doorbellCount (word : BitVec 64) : Nat := (word.extractLsb' 40 8).toNat

/-- The addresses of the messages that the card fetches for the word, one after the other. -/
def doorbellFetches (word : BitVec 64) : List (BitVec 40) :=
  (List.range (doorbellCount word)).map fun j => doorbellAddr word + 64 * BitVec.ofNat 40 j

/-- The address of a slot, of which a doorbell has 40 bits. -/
def slotAddr (cfg : PexqConfig) (slot : Nat) : BitVec 40 :=
  (cfg.qbufPaddr + 64 * BitVec.ofNat 64 slot).setWidth 40

/-- The local variables of the loop; the entry of the log that is being filled begins at
`base`. -/
structure Locals where
  qbuf : Nat → UnmMsg
  msgIdx : Nat
  qbufPendingCnt : Nat
  numDbellQmsgs : Nat
  base : Nat
  dbellLog : List Dbell
  stores : List Store

/-- The messages of a round: the next one of the user, or a completion message when the free
count, one lower already, says so. -/
def Locals.put (cfg : PexqConfig) (x : Locals) (free : Nat) (userMsg : UnmMsg) : Locals :=
  let sync := decide (free % nxPexqDbellComplThres = 0)
  let msg := if sync then formDmaSyncMsg cfg (x.qbuf x.msgIdx) x.msgIdx else userMsg
  { x with
    qbuf := Function.update x.qbuf x.msgIdx msg
    qbufPendingCnt := x.qbufPendingCnt + 1
    numDbellQmsgs := x.numDbellQmsgs + 1
    stores := x.stores ++ [⟨x.msgIdx, msg, sync⟩] }

/-- The rest of the round: the entry of the log is closed at the end of the ring and when it
is full; `none` where the call fails. -/
def Locals.advance (x : Locals) : Option Locals :=
  let newMsgIdx := incrIdx x.msgIdx 1
  if newMsgIdx < x.msgIdx ∨ x.numDbellQmsgs = 255 then
    if nxPexqDbellMaxPending ≤ x.qbufPendingCnt then none
    else if x.dbellLog.length + 1 = maxPexqDbell then none
    else some { x with
      dbellLog := x.dbellLog ++ [⟨x.base, x.numDbellQmsgs⟩]
      base := newMsgIdx
      numDbellQmsgs := 0
      msgIdx := newMsgIdx }
  else some { x with msgIdx := newMsgIdx }

/-- The loop, with the free count and the messages that are left; the free count at its end,
`none` where the call fails. -/
def scheduleLoop (cfg : PexqConfig) : Nat → Locals → List UnmMsg → Option Nat × Locals
  | free, x, [] => (some free, x)
  | 0, x, _ :: _ => (none, x)
  | free + 1, x, m :: ms =>
    let y := x.put cfg free m
    match y.advance with
    | none => (none, y)
    | some z =>
      scheduleLoop cfg free z (if free % nxPexqDbellComplThres = 0 then m :: ms else ms)

/-- The entry of the log that is left open, if any; `none` where the call fails. -/
def Locals.close (x : Locals) : Option (List Dbell) :=
  if x.numDbellQmsgs = 0 then some x.dbellLog
  else if nxPexqDbellMaxPending ≤ x.qbufPendingCnt then none
  else some (x.dbellLog ++ [⟨x.base, x.numDbellQmsgs⟩])

/-- A call: its messages, the queue after the completion update and after the call, what was
put into the ring, whether the call was accepted, and the words written to the doorbell.
`pexq_ring_doorbell` writes a word again, up to eight times, until the card reflects it; here it
is once. -/
structure Call where
  msgs : List UnmMsg
  updated : PexqDbell
  after : PexqDbell
  stores : List Store
  accepted : Bool
  posted : List (BitVec 64)

/-- The local variables at the start of the loop. -/
def Locals.start (p : PexqDbell) : Locals where
  qbuf := p.qbuf
  msgIdx := p.qbufNewIdx
  qbufPendingCnt := (p.qbufPendingCnt % 2 ^ 16).toNat
  numDbellQmsgs := 0
  base := p.qbufNewIdx
  dbellLog := []
  stores := []

def refused (msgs : List UnmMsg) (p : PexqDbell) (x : Locals) : Call :=
  ⟨msgs, p, { p with qbuf := x.qbuf }, x.stores, false, []⟩

/-- `nx_schedule_pexqdb`. -/
def nxSchedulePexqdb (cfg : PexqConfig) (p : PexqDbell) (msgs : List UnmMsg) : Call :=
  let p := pexqUpdatePendingDoorbell p
  match scheduleLoop cfg (p.qbufFreeCnt % 2 ^ 32).toNat (.start p) msgs with
  | (none, x) => refused msgs p x
  | (some free, x) =>
    match x.close with
    | none => refused msgs p x
    | some log =>
      let after := { p with
        qbuf := x.qbuf
        qbufNewIdx := x.msgIdx
        qbufFreeCnt := free
        qbufPendingCnt := x.qbufPendingCnt }
      ⟨msgs, p, after, x.stores, true, log.map (postCmd cfg)⟩

/-! ## The words of the doorbells -/

theorem postCmd_eq (cfg : PexqConfig) (d : Dbell) : postCmd cfg d =
    ((cfg.qbufPaddr + (64 : BitVec 64) * BitVec.ofNat 64 d.idx) &&& 0xffffffffff#64) |||
      ((BitVec.ofNat 64 d.numMsgs &&& 0xff#64) <<< 40) ||| (2#64 <<< 48) ||| (1#64 <<< 51) |||
      (1#64 <<< 52) ||| (1#64 <<< 53) := rfl

/-- The fields that are the same in all words are above the count. -/
theorem postCmd_flags {i : Nat} (hi : i < 48) :
    (2#64 <<< 48).getLsbD i = false ∧ (1#64 <<< 51).getLsbD i = false ∧
      (1#64 <<< 52).getLsbD i = false ∧ (1#64 <<< 53).getLsbD i = false := by
  have hflags : ∀ i < 48, (2#64 <<< 48).getLsbD i = false ∧ (1#64 <<< 51).getLsbD i = false ∧
      (1#64 <<< 52).getLsbD i = false ∧ (1#64 <<< 53).getLsbD i = false := by decide
  exact hflags i hi

/-- The word holds the address of the slot. -/
theorem doorbellAddr_postCmd (cfg : PexqConfig) (d : Dbell) :
    doorbellAddr (postCmd cfg d) = slotAddr cfg d.idx := by
  have hmask : ∀ i < 40, (0xffffffffff#64).getLsbD i = true := by decide
  apply BitVec.eq_of_getLsbD_eq
  intro i hi
  obtain ⟨hqw, hdisable, hhdr, hhost⟩ := postCmd_flags (show i < 48 by omega)
  rw [doorbellAddr, slotAddr, BitVec.getLsbD_extractLsb', BitVec.getLsbD_setWidth, postCmd_eq]
  simp only [Nat.zero_add, BitVec.getLsbD_or, hqw, hdisable, hhdr, hhost, BitVec.getLsbD_and,
    hmask i hi, BitVec.getLsbD_shiftLeft, hi, decide_true, Bool.not_true, Bool.and_true,
    Bool.and_false, Bool.false_and, Bool.or_false, Bool.true_and]

/-- The word holds the number of messages, as far as eight bits do. -/
theorem doorbellCount_postCmd (cfg : PexqConfig) {d : Dbell} (h : d.numMsgs ≤ 255) :
    doorbellCount (postCmd cfg d) = d.numMsgs := by
  have hmask : ∀ i < 8, (0xffffffffff#64).getLsbD (40 + i) = false ∧
      (0xff#64).getLsbD i = true := by decide
  have hfield : (postCmd cfg d).extractLsb' 40 8 = BitVec.ofNat 8 d.numMsgs := by
    apply BitVec.eq_of_getLsbD_eq
    intro i hi
    obtain ⟨hqw, hdisable, hhdr, hhost⟩ := postCmd_flags (show 40 + i < 48 by omega)
    obtain ⟨haddr, hcount⟩ := hmask i hi
    have hsixty : 40 + i < 64 := by omega
    have hlow : i < 64 := by omega
    rw [BitVec.getLsbD_extractLsb', postCmd_eq]
    simp only [BitVec.getLsbD_or, hqw, hdisable, hhdr, hhost, BitVec.getLsbD_and, haddr, hcount,
      BitVec.getLsbD_shiftLeft, Nat.not_lt.mpr (Nat.le_add_right 40 i), Nat.add_sub_cancel_left,
      BitVec.getLsbD_ofNat, hi, hsixty, hlow, decide_true, decide_false, Bool.not_false,
      Bool.and_true, Bool.and_false, Bool.or_false, Bool.false_or, Bool.true_and]
  rw [doorbellCount, hfield, BitVec.toNat_ofNat]
  omega

theorem slotAddr_add (cfg : PexqConfig) (slot j : Nat) :
    slotAddr cfg (slot + j) = slotAddr cfg slot + 64 * BitVec.ofNat 40 j := by
  have hwidth : 40 ≤ 64 := by decide
  rw [slotAddr, slotAddr, BitVec.ofNat_add, BitVec.mul_add, ← BitVec.add_assoc,
    BitVec.setWidth_add _ _ hwidth, BitVec.setWidth_mul 64 _ hwidth,
    BitVec.setWidth_ofNat_of_le hwidth]
  rfl

/-- **The card fetches** the slots that the doorbell is for, in order. -/
theorem doorbellFetches_postCmd (cfg : PexqConfig) {d : Dbell} (h : d.numMsgs ≤ 255) :
    doorbellFetches (postCmd cfg d) = d.slots.map (slotAddr cfg) := by
  rw [doorbellFetches, doorbellCount_postCmd cfg h, doorbellAddr_postCmd, Dbell.slots,
    List.map_map]
  exact List.map_congr_left fun j _ => (slotAddr_add cfg d.idx j).symm

/-! ## The loop -/

theorem incrIdx_eq (x y : Nat) : incrIdx x y = (x + y) % 1024 := rfl

/-- A completion message carries the index of the slot after its own. -/
theorem carriedIdx_of_isDmaSync {cfg : PexqConfig} {msgIdx : Nat} {msg : UnmMsg}
    (h : IsDmaSync cfg msgIdx msg) : (carriedIdx cfg msg).toNat = incrIdx msgIdx 1 := by
  obtain ⟨old, rfl⟩ := h
  have hlt : incrIdx msgIdx 1 < 1024 := Nat.mod_lt _ (by decide)
  show ((cfg.cardFcArray + 8 * BitVec.ofNat 64 (incrIdx msgIdx 1) - cfg.cardFcArray) / 8).toNat = _
  rw [BitVec.add_comm, BitVec.add_sub_cancel, BitVec.toNat_udiv, BitVec.toNat_mul,
    BitVec.toNat_ofNat]
  show 8 * _ % _ / 8 = _
  omega

/-- The slots of the first `n` messages from the slot `idx` on. -/
def slotsFrom (idx n : Nat) : List Nat := (List.range n).map fun j => (idx + j) % 1024

theorem slotsFrom_succ (idx n : Nat) :
    slotsFrom idx (n + 1) = slotsFrom idx n ++ [(idx + n) % 1024] := by
  rw [slotsFrom, List.range_succ, List.map_append]
  rfl

theorem mem_slotsFrom {idx n s : Nat} :
    s ∈ slotsFrom idx n ↔ ∃ j, j < n ∧ (idx + j) % 1024 = s := by
  simp [slotsFrom]

/-- The slots after less than a lap are others. -/
theorem not_mem_slotsFrom {idx n k : Nat} (hn : n ≤ k) (hk : k < 1024) :
    (idx + k) % 1024 ∉ slotsFrom idx n := by
  rw [mem_slotsFrom]
  rintro ⟨j, hj, heq⟩
  omega

theorem slots_succ (base n : Nat) :
    (Dbell.slots ⟨base, n + 1⟩) = Dbell.slots ⟨base, n⟩ ++ [base + n] := by
  rw [Dbell.slots, List.range_succ, List.map_append]
  rfl

/-- The doorbells are for runs of slots that fit the field of the count and the ring. -/
def Fits (log : List Dbell) : Prop := ∀ d ∈ log, d.numMsgs ≤ 255 ∧ d.idx + d.numMsgs ≤ 1024

/-- **What the loop keeps**, when it began in the queue `p` with the count `f`, is at `free`
now, and has put the messages `used` of the user into the ring. -/
structure Progress (cfg : PexqConfig) (p : PexqDbell) (f free : Nat) (x : Locals)
    (used : List UnmMsg) : Prop where
  count : x.stores.length + free = f
  room : f ≤ 1024
  aligned : (f + p.qbufNewIdx) % 32 = 0
  pending : x.qbufPendingCnt = (Locals.start p).qbufPendingCnt + x.stores.length
  slots : x.stores.map Store.slot = slotsFrom p.qbufNewIdx x.stores.length
  sync : ∀ e ∈ x.stores, (e.sync = true ↔ e.slot % 32 = 31) ∧
    (e.sync = true → IsDmaSync cfg e.slot e.msg)
  users : (x.stores.filter fun e => !e.sync).map Store.msg = used
  held : ∀ e ∈ x.stores, x.qbuf e.slot = e.msg
  kept : ∀ s, s ∉ x.stores.map Store.slot → x.qbuf s = p.qbuf s
  covers : x.dbellLog.flatMap Dbell.slots ++ Dbell.slots ⟨x.base, x.numDbellQmsgs⟩ =
    x.stores.map Store.slot
  fits : Fits x.dbellLog

/-- At the head of the loop the entry of the log that is being filled ends at the slot of the
next message. -/
structure Open (p : PexqDbell) (x : Locals) : Prop where
  msgIdx : x.msgIdx = (p.qbufNewIdx + x.stores.length) % 1024
  ends : x.base + x.numDbellQmsgs = x.msgIdx
  small : x.numDbellQmsgs ≤ 254
  checked : x.numDbellQmsgs = 0 → x.qbufPendingCnt ≤ 255

variable {cfg : PexqConfig} {p : PexqDbell} {f free : Nat} {x : Locals} {used : List UnmMsg}

theorem progress_start (hroom : f ≤ 1024) (haligned : (f + p.qbufNewIdx) % 32 = 0) :
    Progress cfg p f f (.start p) [] where
  count := Nat.zero_add f
  room := hroom
  aligned := haligned
  pending := rfl
  slots := rfl
  sync := nofun
  users := rfl
  held := nofun
  kept := fun _ _ => rfl
  covers := rfl
  fits := nofun

theorem open_start (hidx : p.qbufNewIdx < 1024) (hpending : (Locals.start p).qbufPendingCnt ≤ 255) :
    Open p (.start p) where
  msgIdx := (Nat.mod_eq_of_lt hidx).symm
  ends := rfl
  small := Nat.zero_le _
  checked := fun _ => hpending

/-- The messages of the user that are used up by a round. -/
def roundUses (free : Nat) (m : UnmMsg) : List UnmMsg :=
  if free % nxPexqDbellComplThres = 0 then [] else [m]

/-- **A message is put into the next slot**, a completion message just in the slots before a
multiple of 32. -/
theorem Progress.put (h : Progress cfg p f (free + 1) x used) (hopen : Open p x) (m : UnmMsg) :
    Progress cfg p f free (x.put cfg free m) (used ++ roundUses free m) := by
  have hlen : (x.put cfg free m).stores.length = x.stores.length + 1 := List.length_append
  have hcount := h.count
  have hroom := h.room
  have hmsgIdx := hopen.msgIdx
  have hfresh : x.msgIdx ∉ x.stores.map Store.slot := by
    rw [h.slots, hmsgIdx]
    exact not_mem_slotsFrom (Nat.le_refl _) (by omega)
  have hsync : free % 32 = 0 ↔ x.msgIdx % 32 = 31 := by
    have haligned := h.aligned
    omega
  have hother : ∀ e ∈ x.stores, e.slot ≠ x.msgIdx := fun e he heq =>
    hfresh (heq ▸ List.mem_map_of_mem he)
  refine ⟨?_, hroom, h.aligned, ?_, ?_, ?_, ?_, ?_, ?_, ?_, h.fits⟩
  · omega
  · rw [hlen]
    exact congrArg (· + 1) h.pending
  · rw [hlen, slotsFrom_succ, ← h.slots, ← hmsgIdx]
    exact List.map_append
  · intro e he
    rcases List.mem_append.mp he with he | he
    · exact h.sync e he
    · obtain rfl := List.mem_singleton.mp he
      refine ⟨decide_eq_true_iff.trans hsync, fun hs => ?_⟩
      show IsDmaSync cfg x.msgIdx (if _ then _ else m)
      rw [if_pos hs]
      exact ⟨_, rfl⟩
  · show ((x.stores ++ [_]).filter _).map _ = _
    rw [List.filter_append, List.map_append, h.users]
    congr 1
    by_cases hs : free % nxPexqDbellComplThres = 0
    · simp [roundUses, hs]
    · simp [roundUses, hs]
  · intro e he
    rcases List.mem_append.mp he with he | he
    · exact (Function.update_of_ne (hother e he) ..).trans (h.held e he)
    · obtain rfl := List.mem_singleton.mp he
      exact Function.update_self ..
  · intro s hs
    have hs' : s ∉ x.stores.map Store.slot ∧ s ≠ x.msgIdx := by
      rw [Locals.put, List.map_append, List.mem_append, not_or] at hs
      exact ⟨hs.1, fun heq => hs.2 (List.mem_singleton.mpr heq)⟩
    exact (Function.update_of_ne hs'.2 ..).trans (h.kept s hs'.1)
  · show x.dbellLog.flatMap _ ++ Dbell.slots ⟨x.base, x.numDbellQmsgs + 1⟩ =
      (x.stores ++ [_]).map _
    rw [slots_succ, ← List.append_assoc, h.covers, hopen.ends, List.map_append]
    rfl

/-- The loop goes on with the next slot, and the log stays in order. -/
theorem Progress.advance {y z : Locals} (h : Progress cfg p f free y used)
    (hmsgIdx : y.msgIdx + 1 = y.base + y.numDbellQmsgs) (hsmall : y.numDbellQmsgs ≤ 255)
    (hslot : (y.msgIdx + 1) % 1024 = (p.qbufNewIdx + y.stores.length) % 1024)
    (hlt : y.msgIdx < 1024) (hpos : 0 < y.numDbellQmsgs) (hz : y.advance = some z) :
    Progress cfg p f free z used ∧ Open p z ∧ z.stores = y.stores := by
  have hnext := incrIdx_eq y.msgIdx 1
  rw [Locals.advance] at hz
  split at hz
  · rename_i hclose
    obtain ⟨hpending, hz⟩ := Option.ite_none_left_eq_some.mp hz
    obtain ⟨-, hz⟩ := Option.ite_none_left_eq_some.mp hz
    obtain rfl := Option.some.inj hz
    refine ⟨{ h with covers := ?_, fits := ?_ }, ⟨hnext.trans hslot, Nat.add_zero _,
      Nat.zero_le _, fun _ => ?_⟩, rfl⟩
    · show (y.dbellLog ++ [_]).flatMap _ ++ [] = _
      rw [List.append_nil, List.flatMap_append, List.flatMap_singleton]
      exact h.covers
    · intro d hd
      rcases List.mem_append.mp hd with hd | hd
      · exact h.fits d hd
      · obtain rfl := List.mem_singleton.mp hd
        exact ⟨hsmall, by show y.base + y.numDbellQmsgs ≤ 1024; omega⟩
    · have hmax : nxPexqDbellMaxPending = 256 := rfl
      show y.qbufPendingCnt ≤ 255
      omega
  · rename_i hclose
    obtain rfl := Option.some.inj hz
    obtain ⟨hwrap, hfull⟩ := not_or.mp hclose
    refine ⟨{ h with }, ⟨hnext.trans hslot, ?_, ?_, fun hzero => ?_⟩, rfl⟩
    · show y.base + y.numDbellQmsgs = incrIdx y.msgIdx 1
      omega
    · show y.numDbellQmsgs ≤ 254
      omega
    · exact absurd hzero (Nat.pos_iff_ne_zero.mp hpos)

/-- **The loop**: what it leaves, however it ends, and, when it comes to its end, that all the
messages of the user are in the ring. -/
theorem scheduleLoop_spec {rest : List UnmMsg} (h : Progress cfg p f free x used)
    (hopen : Open p x) :
    ∃ free' used', Progress cfg p f free' (scheduleLoop cfg free x rest).2 used' ∧
      ∀ g, (scheduleLoop cfg free x rest).1 = some g →
        g = free' ∧ used' = used ++ rest ∧ Open p (scheduleLoop cfg free x rest).2 := by
  induction free generalizing x used rest with
  | zero =>
    cases rest with
    | nil =>
      exact ⟨0, used, h, fun g hg => ⟨(Option.some.inj hg).symm, (List.append_nil _).symm, hopen⟩⟩
    | cons m ms => exact ⟨0, used, h, nofun⟩
  | succ free ih =>
    cases rest with
    | nil =>
      exact ⟨free + 1, used, h,
        fun g hg => ⟨(Option.some.inj hg).symm, (List.append_nil _).symm, hopen⟩⟩
    | cons m ms =>
      have hput := h.put hopen m
      rw [scheduleLoop]
      cases hadvance : (x.put cfg free m).advance with
      | none => exact ⟨free, _, hput, nofun⟩
      | some z =>
        have hends := hopen.ends
        have hsmall := hopen.small
        have hmsgIdx := hopen.msgIdx
        have hlen : (x.put cfg free m).stores.length = x.stores.length + 1 := List.length_append
        have hlt : x.msgIdx < 1024 := hmsgIdx ▸ Nat.mod_lt _ (by decide)
        obtain ⟨hz, hopenz, -⟩ := hput.advance (z := z)
          (show x.msgIdx + 1 = x.base + (x.numDbellQmsgs + 1) by omega)
          (show x.numDbellQmsgs + 1 ≤ 255 by omega)
          (by rw [hlen]; show (x.msgIdx + 1) % 1024 = _; omega) hlt (Nat.succ_pos _) hadvance
        obtain ⟨free', used', hprogress, hdone⟩ :=
          @ih _ _ (if free % nxPexqDbellComplThres = 0 then m :: ms else ms) hz hopenz
        refine ⟨free', used', hprogress, fun g hg => ?_⟩
        obtain ⟨hg, hused, hend⟩ := hdone g hg
        refine ⟨hg, hused.trans ?_, hend⟩
        rw [List.append_assoc, roundUses]
        split <;> rfl

/-- The last entry of the log is closed: the doorbells are for all the messages. -/
theorem Progress.close (h : Progress cfg p f free x used) (hopen : Open p x)
    {log : List Dbell} (hclose : x.close = some log) :
    log.flatMap Dbell.slots = x.stores.map Store.slot ∧ Fits log ∧ x.qbufPendingCnt ≤ 255 := by
  have hcovers := h.covers
  rw [Locals.close] at hclose
  split at hclose
  · rename_i hzero
    obtain rfl := Option.some.inj hclose
    rw [hzero] at hcovers
    exact ⟨(List.append_nil _).symm.trans hcovers, h.fits, hopen.checked hzero⟩
  · obtain ⟨hpending, hlog⟩ := Option.ite_none_left_eq_some.mp hclose
    obtain rfl := Option.some.inj hlog
    have hmax : nxPexqDbellMaxPending = 256 := rfl
    refine ⟨?_, fun d hd => ?_, by omega⟩
    · rw [List.flatMap_append, List.flatMap_singleton]
      exact hcovers
    · rcases List.mem_append.mp hd with hd | hd
      · exact h.fits d hd
      · obtain rfl := List.mem_singleton.mp hd
        have hends := hopen.ends
        have hsmall := hopen.small
        have hmsgIdx := hopen.msgIdx
        exact ⟨by show x.numDbellQmsgs ≤ 255; omega,
          by show x.base + x.numDbellQmsgs ≤ 1024; omega⟩

end Pexq
end NxNic

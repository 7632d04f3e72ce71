import NxNic.Lib.Machine
import NxNic.Pexq.Schedule

/-! # The ring of the card's queue over whole runs

Calls of `nx_schedule_pexqdb` come in any order with the card's progress, which it reports
by the completion messages: it writes the index that the message carries to `compl_in_vaddr`.

The state (`PexqState`) is the queue, with the record of each call: what it put into which
slot and what it wrote to the doorbell.  What the card is told is read off the words it
gets (`doorbellFetches`): the addresses of the messages that it is to fetch.

The result is `pexq_ringInvariant`: after any steps the counts, the indices and the contents
of the ring are right (`RingInvariant`), and the doorbells of each accepted call name the
slots that the call produced, and nothing else (`Rung`).
-/
namespace NxNic
namespace Pexq

/-- The queue, all the calls so far, and up to where the card has reported. -/
structure PexqState where
  pexq : PexqDbell
  calls : List Call
  done : Nat

namespace PexqState

/-- The messages that the doorbells of the accepted calls are for. -/
def produced (s : PexqState) : List Store := (s.calls.filter Call.accepted).flatMap Call.stores

/-- The messages of the accepted calls. -/
def users (s : PexqState) : List UnmMsg := (s.calls.filter Call.accepted).flatMap Call.msgs

/-- The card carries out the completion message that is the `n`-th message produced. -/
def complete (cfg : PexqConfig) (s : PexqState) (n : Nat) : Option PexqState :=
  match s.produced[n]? with
  | none => none
  | some e =>
    if e.sync = true ∧ s.done ≤ n then
      some { s with
        pexq := { s.pexq with complIn := carriedIdx cfg e.msg }
        done := n + 1 }
    else none

end PexqState

inductive PexqAction where
  | schedule (msgs : List UnmMsg)
  | complete (n : Nat)

def pexqMachine (cfg : PexqConfig) : Machine PexqState PexqAction where
  next s
    | .schedule msgs =>
      let c := nxSchedulePexqdb cfg s.pexq msgs
      some { s with pexq := c.after, calls := s.calls ++ [c] }
    | .complete n => s.complete cfg n

/-- The queue that `nx_pexq_allocate_memory` and `nx_init_pexq_dbell` leave, whatever is in the
buffer. -/
def PexqState.init (qbuf : Nat → UnmMsg) : PexqState where
  pexq := ⟨qbuf, 0, 0, nxPexqDbellBufQmsgs, 0, 0⟩
  calls := []
  done := 0

/-! ## What is kept -/

/-- An accepted call rings doorbells that cover just the slots it produced, in order. -/
structure Rung (cfg : PexqConfig) (c : Call) : Prop where
  /-- The card is to fetch the messages of these slots, each once. -/
  covers : c.posted.flatMap doorbellFetches = c.stores.map fun e => slotAddr cfg e.slot
  /-- A doorbell is for a run of slots that does not cross the end of the ring. -/
  runs : ∀ word ∈ c.posted, doorbellCount word ≤ 255 ∧
    ∃ idx, doorbellAddr word = slotAddr cfg idx ∧
      idx + doorbellCount word ≤ nxPexqDbellBufQmsgs
  slots : c.stores.map Store.slot = slotsFrom c.updated.qbufNewIdx c.stores.length
  newIdx : c.after.qbufNewIdx = incrIdx c.updated.qbufNewIdx c.stores.length

/-- A refused call leaves the indices and the counts, and rings no doorbell. -/
structure Unrung (c : Call) : Prop where
  newIdx : c.after.qbufNewIdx = c.updated.qbufNewIdx
  freeCnt : c.after.qbufFreeCnt = c.updated.qbufFreeCnt
  pendingCnt : c.after.qbufPendingCnt = c.updated.qbufPendingCnt
  posted : c.posted = []

/-- The slots between the completion index and the producer index. -/
def PexqDbell.pending (p : PexqDbell) : List Nat :=
  slotsFrom p.qbufPendingComplIdx p.qbufPendingCnt.toNat

/-- What holds of a call, accepted or not. -/
structure CallSound (cfg : PexqConfig) (c : Call) : Prop where
  outside : ∀ e ∈ c.stores, e.slot ∉ c.updated.pending
  rung : c.accepted = true → Rung cfg c
  unrung : c.accepted = false → Unrung c

/-- **The invariant of the ring.** -/
structure RingInvariant (cfg : PexqConfig) (s : PexqState) : Prop where
  counts : s.pexq.qbufFreeCnt + s.pexq.qbufPendingCnt = nxPexqDbellBufQmsgs
  distance : (s.pexq.qbufNewIdx - s.pexq.qbufPendingComplIdx : Int) ≡ s.pexq.qbufPendingCnt
    [ZMOD nxPexqDbellBufQmsgs]
  calls : ∀ c ∈ s.calls, CallSound cfg c
  order : s.produced.map Store.slot = slotsFrom 0 s.produced.length
  syncs : ∀ e ∈ s.produced, e.slot % 32 = 31 → IsDmaSync cfg e.slot e.msg
  users : (s.produced.filter fun e => e.slot % 32 ≠ 31).map Store.msg = s.users
  holds : ∀ (n : Nat) (e : Store), s.produced[n]? = some e →
    (s.produced.length : Int) ≤ n + s.pexq.qbufPendingCnt → s.pexq.qbuf e.slot = e.msg

/-- The queue when `made` messages have been produced, of which it knows `acked` to be done. -/
structure At (p : PexqDbell) (acked made : Nat) : Prop where
  le : acked ≤ made
  small : made ≤ acked + 255
  aligned : acked % 32 = 0
  newIdx : p.qbufNewIdx = made % 1024
  complIdx : p.qbufPendingComplIdx = acked % 1024
  pendingCnt : p.qbufPendingCnt = made - acked
  freeCnt : p.qbufFreeCnt = 1024 - (made - acked)

/-- What runs keep of the queue, when the messages `made` have been produced, those of the
users among them are `users`, and the card has reported `done` of them. -/
structure Tracked (cfg : PexqConfig) (p : PexqDbell) (made : List Store) (users : List UnmMsg)
    (acked done : Nat) : Prop where
  at_ : At p acked made.length
  acked_le : acked ≤ done
  done_le : done ≤ made.length
  done_aligned : done % 32 = 0
  complIn : p.complIn = BitVec.ofNat 64 (done % 1024)
  order : made.map Store.slot = slotsFrom 0 made.length
  sync : ∀ e ∈ made, (e.sync = true ↔ e.slot % 32 = 31) ∧
    (e.sync = true → IsDmaSync cfg e.slot e.msg)
  users : (made.filter fun e => !e.sync).map Store.msg = users
  holds : ∀ n e, made[n]? = some e → acked ≤ n → p.qbuf e.slot = e.msg

variable {cfg : PexqConfig} {p : PexqDbell} {acked made done n : Nat}

/-! ## Slots -/

theorem slotsFrom_mod (idx k : Nat) : slotsFrom (idx % 1024) k = slotsFrom idx k :=
  List.map_congr_left fun j _ => Nat.mod_add_mod idx 1024 j

theorem slotsFrom_append (idx j k : Nat) :
    slotsFrom idx (j + k) = slotsFrom idx j ++ slotsFrom (idx + j) k := by
  induction k with
  | zero => exact (List.append_nil _).symm
  | succ k ih =>
    rw [← Nat.add_assoc, slotsFrom_succ, ih, slotsFrom_succ, List.append_assoc, Nat.add_assoc]

/-- The slot of the `n`-th message. -/
theorem slot_of_getElem? {l : List Store} (horder : l.map Store.slot = slotsFrom 0 l.length)
    {e : Store} (he : l[n]? = some e) : e.slot = n % 1024 := by
  have hlt : n < l.length := (List.getElem?_eq_some_iff.mp he).1
  have hslot : (l.map Store.slot)[n]? = some e.slot := by rw [List.getElem?_map, he]; rfl
  rw [horder, slotsFrom, List.getElem?_map, List.getElem?_range hlt] at hslot
  have heq : (0 + n) % 1024 = e.slot := Option.some.inj hslot
  rw [Nat.zero_add] at heq
  exact heq.symm

/-- Free slots are not pending ones. -/
theorem not_mem_of_room {i j k l a : Nat} (hk : j + k ≤ 1024) (hi : l = (i + j) % 1024)
    (ha : a ∈ slotsFrom l k) : a ∉ slotsFrom i j := by
  obtain ⟨b, hb, rfl⟩ := mem_slotsFrom.mp ha
  rw [mem_slotsFrom]
  rintro ⟨c, hc, heq⟩
  omega

/-! ## The completion update -/

theorem setWidth_toInt {n : Nat} (h : n < 1024) :
    ((BitVec.ofNat 64 n).setWidth 16).toInt = n := by
  rw [BitVec.toInt_eq_toNat_cond, BitVec.toNat_setWidth, BitVec.toNat_ofNat]
  split <;> omega

theorem updated_qbuf (p : PexqDbell) : (pexqUpdatePendingDoorbell p).qbuf = p.qbuf := by
  rw [pexqUpdatePendingDoorbell]
  split <;> rfl

theorem updated_complIn (p : PexqDbell) : (pexqUpdatePendingDoorbell p).complIn = p.complIn := by
  rw [pexqUpdatePendingDoorbell]
  split <;> rfl

/-- **The update**: the queue knows of all that the card has reported. -/
theorem At.update (h : At p acked made) (hacked : acked ≤ done) (hdone : done ≤ made)
    (haligned : done % 32 = 0) (hcompl : p.complIn = BitVec.ofNat 64 (done % 1024)) :
    At (pexqUpdatePendingDoorbell p) done made := by
  have hsmall := h.small
  have hin : (p.complIn.setWidth 16).toInt = (done % 1024 : Nat) := by
    rw [hcompl]
    exact setWidth_toInt (Nat.mod_lt _ (by decide))
  rw [pexqUpdatePendingDoorbell, hin, h.complIdx]
  split
  · rename_i hsame
    obtain rfl : done = acked := by omega
    exact h
  · rename_i hmoved
    have hpending := h.pendingCnt
    have hfree := h.freeCnt
    have hcnt : (if ((done % 1024 : Nat) : Int) < (acked % 1024 : Nat) then
        ((done % 1024 : Nat) : Int) - (acked % 1024 : Nat) + nxPexqDbellBufQmsgs
        else ((done % 1024 : Nat) : Int) - (acked % 1024 : Nat)) = done - acked := by
      have hbuf : nxPexqDbellBufQmsgs = 1024 := rfl
      split <;> omega
    refine ⟨hdone, by omega, haligned, h.newIdx, ?_, ?_, ?_⟩
    · show (((done % 1024 : Nat) : Int) % 2 ^ 16).toNat = done % 1024
      omega
    · refine (congrArg (p.qbufPendingCnt - ·) hcnt).trans ?_
      omega
    · refine (congrArg (p.qbufFreeCnt + ·) hcnt).trans ?_
      omega

/-! ## A call -/

/-- The free count with which the loop begins. -/
def PexqDbell.loopFree (p : PexqDbell) : Nat := (p.qbufFreeCnt % 2 ^ 32).toNat

theorem At.loopFree (h : At p done made) : p.loopFree = 1024 - (made - done) := by
  have hfree := h.freeCnt
  have hsmall := h.small
  have hle := h.le
  rw [PexqDbell.loopFree]
  omega

theorem At.startPending (h : At p done made) :
    (Locals.start p).qbufPendingCnt = made - done := by
  have hpending := h.pendingCnt
  have hsmall := h.small
  have hle := h.le
  show (p.qbufPendingCnt % 2 ^ 16).toNat = _
  omega

theorem At.pending (h : At p done made) : p.pending = slotsFrom done (made - done) := by
  have hpending := h.pendingCnt
  have hle := h.le
  rw [PexqDbell.pending, h.complIdx, slotsFrom_mod]
  congr 1
  omega

/-- What is known of the messages that a call puts into the ring. -/
theorem Progress.outside {free : Nat} {x : Locals} {used : List UnmMsg} (h : At p done made)
    (hx : Progress cfg p p.loopFree free x used) : ∀ e ∈ x.stores, e.slot ∉ p.pending := by
  intro e he
  have hcount := hx.count
  have hloop := h.loopFree
  have hle := h.le
  have hsmall := h.small
  have hnew := h.newIdx
  have hslot : e.slot ∈ slotsFrom p.qbufNewIdx x.stores.length :=
    hx.slots ▸ List.mem_map_of_mem he
  rw [h.pending]
  exact not_mem_of_room (k := x.stores.length) (by omega) (by omega) hslot

/-- **A call** of the queue `p` after its update is refused, and has put messages only into
the buffer, or has produced messages and rung the doorbells for them. -/
inductive Scheduled (cfg : PexqConfig) (p : PexqDbell) (msgs : List UnmMsg) : Call → Prop where
  | refused {free used} (x : Locals) (hx : Progress cfg p p.loopFree free x used) :
      Scheduled cfg p msgs (refused msgs p x)
  | accepted {free} (x : Locals) (log : List Dbell)
      (hx : Progress cfg p p.loopFree free x msgs) (hopen : Open p x)
      (hclose : x.close = some log) :
      Scheduled cfg p msgs ⟨msgs, p, { p with
        qbuf := x.qbuf
        qbufNewIdx := x.msgIdx
        qbufFreeCnt := free
        qbufPendingCnt := x.qbufPendingCnt }, x.stores, true, log.map (postCmd cfg)⟩

theorem At.scheduled (h : At (pexqUpdatePendingDoorbell p) done made) (hdone : done % 32 = 0)
    (msgs : List UnmMsg) :
    Scheduled cfg (pexqUpdatePendingDoorbell p) msgs (nxSchedulePexqdb cfg p msgs) := by
  have hloop := h.loopFree
  have hsmall := h.small
  have hle := h.le
  have hnew := h.newIdx
  have hstart := h.startPending
  generalize hq : pexqUpdatePendingDoorbell p = q at *
  have hprogress : Progress cfg q q.loopFree q.loopFree (.start q) [] :=
    progress_start (by omega) (by omega)
  have hopen : Open q (.start q) := open_start (by omega) (by omega)
  obtain ⟨free, used, hx, hend⟩ := scheduleLoop_spec hprogress hopen
  rw [nxSchedulePexqdb, hq]
  dsimp only
  change Progress cfg q q.loopFree free (scheduleLoop cfg (q.qbufFreeCnt % 2 ^ 32).toNat _ _).2
    used at hx
  split
  · rename_i x hrun
    rw [hrun] at hx
    exact .refused x hx
  · rename_i g x hrun
    rw [hrun] at hx
    obtain ⟨rfl, hused, hopen⟩ := hend g (congrArg Prod.fst hrun)
    rw [List.nil_append] at hused
    subst hused
    split
    · exact .refused x hx
    · rename_i log hclose
      rw [show scheduleLoop cfg q.loopFree (.start q) used = (some g, x) from hrun] at hopen
      exact .accepted x log hx hopen hclose

/-- **The words written** for a log name the slots that the log is for. -/
theorem rung_of_log (cfg : PexqConfig) {log : List Dbell} (hfits : Fits log) :
    (log.map (postCmd cfg)).flatMap doorbellFetches =
        (log.flatMap Dbell.slots).map (slotAddr cfg) ∧
      ∀ word ∈ log.map (postCmd cfg), doorbellCount word ≤ 255 ∧
        ∃ idx, doorbellAddr word = slotAddr cfg idx ∧
          idx + doorbellCount word ≤ nxPexqDbellBufQmsgs := by
  constructor
  · induction log with
    | nil => rfl
    | cons d log ih =>
      have hfirst := (hfits d List.mem_cons_self).1
      have hrest := ih fun e he => hfits e (List.mem_cons_of_mem d he)
      rw [List.map_cons, List.flatMap_cons, List.flatMap_cons, List.map_append, hrest,
        doorbellFetches_postCmd cfg hfirst]
  · intro word hword
    obtain ⟨d, hd, rfl⟩ := List.mem_map.mp hword
    obtain ⟨hcount, hend⟩ := hfits d hd
    rw [doorbellCount_postCmd cfg hcount]
    exact ⟨hcount, d.idx, doorbellAddr_postCmd cfg d, hend⟩

theorem Scheduled.sound {msgs : List UnmMsg} {c : Call} (h : At p done made)
    (hc : Scheduled cfg p msgs c) : CallSound cfg c := by
  cases hc with
  | refused x hx => exact ⟨hx.outside h, nofun, fun _ => ⟨rfl, rfl, rfl, rfl⟩⟩
  | accepted x log hx hopen hclose =>
    obtain ⟨hcovers, hfits, -⟩ := hx.close hopen hclose
    obtain ⟨hfetched, hruns⟩ := rung_of_log cfg hfits
    rw [hcovers, List.map_map] at hfetched
    exact ⟨hx.outside h, fun _ => ⟨hfetched, hruns, hx.slots, hopen.msgIdx⟩, nofun⟩

/-! ## Steps -/

variable {prod : List Store} {users : List UnmMsg}

theorem tracked_init (qbuf : Nat → UnmMsg) :
    Tracked cfg (PexqState.init qbuf).pexq [] [] 0 0 where
  at_ := ⟨Nat.le_refl _, Nat.zero_le _, rfl, rfl, rfl, rfl, rfl⟩
  acked_le := Nat.le_refl _
  done_le := Nat.le_refl _
  done_aligned := rfl
  complIn := rfl
  order := rfl
  sync := nofun
  users := rfl
  holds := nofun

/-- **The completion update keeps the invariant.** -/
theorem Tracked.update (h : Tracked cfg p prod users acked done) :
    Tracked cfg (pexqUpdatePendingDoorbell p) prod users done done where
  at_ := h.at_.update h.acked_le h.done_le h.done_aligned h.complIn
  acked_le := Nat.le_refl _
  done_le := h.done_le
  done_aligned := h.done_aligned
  complIn := (updated_complIn p).trans h.complIn
  order := h.order
  sync := h.sync
  users := h.users
  holds n e he hn := by
    rw [updated_qbuf]
    exact h.holds n e he (Nat.le_trans h.acked_le hn)

variable {free : Nat} {x : Locals} {used : List UnmMsg}

/-- The messages that the card has not reported to be done are still in the buffer. -/
theorem Tracked.kept (h : Tracked cfg p prod users done done)
    (hx : Progress cfg p p.loopFree free x used) {e : Store} (he : prod[n]? = some e)
    (hn : done ≤ n) : x.qbuf e.slot = e.msg := by
  have hlt : n < prod.length := (List.getElem?_eq_some_iff.mp he).1
  have hpending : e.slot ∈ p.pending := by
    rw [h.at_.pending, slot_of_getElem? h.order he]
    exact mem_slotsFrom.mpr ⟨n - done, by omega, by omega⟩
  refine (hx.kept e.slot fun hmem => ?_).trans (h.holds n e he hn)
  obtain ⟨e', he', hslot⟩ := List.mem_map.mp hmem
  exact hx.outside h.at_ e' he' (hslot ▸ hpending)

/-- A refused call has only put messages into free slots. -/
theorem Tracked.refused (h : Tracked cfg p prod users done done)
    (hx : Progress cfg p p.loopFree free x used) :
    Tracked cfg { p with qbuf := x.qbuf } prod users done done :=
  { h with
    at_ := { h.at_ with }
    holds := fun _ _ he hn => h.kept hx he hn }

/-- **An accepted call** produces its messages. -/
theorem Tracked.accepted (h : Tracked cfg p prod users done done)
    (hx : Progress cfg p p.loopFree free x used) (hopen : Open p x)
    (hpending : x.qbufPendingCnt ≤ 255) :
    Tracked cfg { p with
      qbuf := x.qbuf
      qbufNewIdx := x.msgIdx
      qbufFreeCnt := free
      qbufPendingCnt := x.qbufPendingCnt } (prod ++ x.stores) (users ++ used) done done := by
  have hle := h.at_.le
  have hsmall := h.at_.small
  have hlen : (prod ++ x.stores).length = prod.length + x.stores.length := List.length_append
  have hcount : x.stores.length + free = 1024 - (prod.length - done) :=
    hx.count.trans h.at_.loopFree
  have hpend : x.qbufPendingCnt = prod.length - done + x.stores.length :=
    hx.pending.trans (congrArg (· + _) h.at_.startPending)
  have hidx : x.msgIdx = (prod.length + x.stores.length) % 1024 := by
    rw [hopen.msgIdx, h.at_.newIdx, Nat.mod_add_mod]
  constructor
  case at_ =>
    rw [hlen]
    refine ⟨Nat.le_trans hle (Nat.le_add_right ..), by omega, h.done_aligned, hidx,
      h.at_.complIdx, ?_, ?_⟩
    · show (x.qbufPendingCnt : Int) = _
      omega
    · show (free : Int) = _
      omega
  case acked_le => exact Nat.le_refl _
  case done_le => exact hlen ▸ Nat.le_trans hle (Nat.le_add_right ..)
  case done_aligned => exact h.done_aligned
  case complIn => exact h.complIn
  case order =>
    rw [hlen, List.map_append, h.order, hx.slots, h.at_.newIdx, slotsFrom_mod, slotsFrom_append,
      Nat.zero_add]
  case sync =>
    intro e he
    exact (List.mem_append.mp he).elim (h.sync e) (hx.sync e)
  case users => rw [List.filter_append, List.map_append, h.users, hx.users]
  case holds =>
    intro n e he hn
    rw [List.getElem?_append] at he
    split at he
    · exact h.kept hx he hn
    · exact hx.held e (List.mem_of_getElem? he)

theorem flatMap_accepted {α : Type} (f : Call → List α) (calls : List Call) (c : Call) :
    ((calls ++ [c]).filter Call.accepted).flatMap f =
      (calls.filter Call.accepted).flatMap f ++ if c.accepted then f c else [] := by
  rw [List.filter_append, List.flatMap_append]
  congr 1
  cases hc : c.accepted <;> simp [hc]

/-- **A call keeps the invariant.** -/
theorem Tracked.scheduled (h : Tracked cfg p prod users done done) {msgs : List UnmMsg} {c : Call}
    (hc : Scheduled cfg p msgs c) :
    Tracked cfg c.after (prod ++ if c.accepted then c.stores else [])
      (users ++ if c.accepted then c.msgs else []) done done := by
  cases hc with
  | refused x hx =>
    show Tracked cfg _ (prod ++ []) (users ++ []) done done
    rw [List.append_nil, List.append_nil]
    exact h.refused hx
  | accepted x log hx hopen hclose =>
    exact h.accepted hx hopen (hx.close hopen hclose).2.2

/-- What runs keep. -/
def RunInvariant (cfg : PexqConfig) (s : PexqState) : Prop :=
  (∃ acked, Tracked cfg s.pexq s.produced s.users acked s.done) ∧ ∀ c ∈ s.calls, CallSound cfg c

variable {s t : PexqState}

theorem RunInvariant.schedule (h : RunInvariant cfg s) (msgs : List UnmMsg) :
    RunInvariant cfg { s with
      pexq := (nxSchedulePexqdb cfg s.pexq msgs).after
      calls := s.calls ++ [nxSchedulePexqdb cfg s.pexq msgs] } := by
  obtain ⟨⟨acked, htracked⟩, hcalls⟩ := h
  have hupdate := htracked.update
  have hc : Scheduled cfg _ msgs _ := hupdate.at_.scheduled hupdate.done_aligned msgs
  constructor
  · refine ⟨s.done, ?_⟩
    rw [PexqState.produced, PexqState.users, flatMap_accepted, flatMap_accepted]
    exact hupdate.scheduled hc
  · intro c hmem
    rcases List.mem_append.mp hmem with hold | hnew
    · exact hcalls c hold
    · exact List.mem_singleton.mp hnew ▸ hc.sound hupdate.at_

/-- **The card's report keeps the invariant**: a completion message carries the index that
follows its slot. -/
theorem RunInvariant.complete (h : RunInvariant cfg s) (ht : s.complete cfg n = some t) :
    RunInvariant cfg t := by
  obtain ⟨⟨acked, htracked⟩, hcalls⟩ := h
  rw [PexqState.complete] at ht
  split at ht
  · exact absurd ht nofun
  · rename_i e he
    obtain ⟨⟨hsync, hdone⟩, ht⟩ := Option.ite_none_right_eq_some.mp ht
    obtain rfl := Option.some.inj ht
    have hslot := slot_of_getElem? htracked.order he
    obtain ⟨hlast, hmsg⟩ := htracked.sync e (List.mem_of_getElem? he)
    have haligned : (n + 1) % 32 = 0 := by
      have hmod := hlast.mp hsync
      omega
    have hcarried : carriedIdx cfg e.msg = BitVec.ofNat 64 ((n + 1) % 1024) := by
      apply BitVec.eq_of_toNat_eq
      rw [carriedIdx_of_isDmaSync (hmsg hsync), BitVec.toNat_ofNat, incrIdx_eq]
      omega
    exact ⟨⟨acked, { htracked with
      at_ := { htracked.at_ with }
      acked_le := Nat.le_trans htracked.acked_le (Nat.le_succ_of_le hdone)
      done_le := (List.getElem?_eq_some_iff.mp he).1
      done_aligned := haligned
      complIn := hcarried }⟩, hcalls⟩

theorem RunInvariant.step {a : PexqAction} (h : RunInvariant cfg s)
    (ht : (pexqMachine cfg).next s a = some t) : RunInvariant cfg t := by
  cases a with
  | schedule msgs => exact Option.some.inj ht ▸ h.schedule msgs
  | complete n => exact h.complete ht

theorem RunInvariant.ring (h : RunInvariant cfg s) : RingInvariant cfg s := by
  obtain ⟨⟨acked, htracked⟩, hcalls⟩ := h
  have hfree := htracked.at_.freeCnt
  have hpending := htracked.at_.pendingCnt
  have hnew := htracked.at_.newIdx
  have hcompl := htracked.at_.complIdx
  have hbuf : nxPexqDbellBufQmsgs = 1024 := rfl
  constructor
  case counts => omega
  case distance =>
    rw [hbuf, Int.ModEq]
    omega
  case calls => exact hcalls
  case order => exact htracked.order
  case syncs => exact fun e he hlast => (htracked.sync e he).2 ((htracked.sync e he).1.mpr hlast)
  case users =>
    rw [← htracked.users]
    congr 1
    refine List.filter_congr fun e he => ?_
    have hiff := (htracked.sync e he).1
    cases hsync : e.sync <;> simp_all
  case holds => exact fun n e he hn => htracked.holds n e he (by omega)

/-- **The ring invariant**: it holds after any calls and any progress of the card. -/
theorem pexq_ringInvariant (cfg : PexqConfig) (qbuf : Nat → UnmMsg) (l : List PexqAction)
    (h : (pexqMachine cfg).run (.init qbuf) l = some s) : RingInvariant cfg s :=
  RunInvariant.ring ((pexqMachine cfg).run_invariant (fun _ _ _ hs ht => hs.step ht)
    ⟨⟨0, tracked_init qbuf⟩, nofun⟩ h)

def blankMsg : UnmMsg := ⟨0, fun _ => 0⟩

/-- The ring of function 1, at the address 0x3000. -/
def lapConfig : PexqConfig := ⟨1, 2, 0x1000, 0x2000, 0x3000⟩

/-- Six calls of 155 messages, with a report of the card after each, then one that goes past the
end of the ring, and one that is refused. -/
def lapTrace : List PexqAction :=
  ((List.range 6).flatMap fun i =>
    [.schedule (List.replicate 155 blankMsg), .complete (160 * i + 127)]) ++
  [.schedule (List.replicate 97 blankMsg), .schedule (List.replicate 200 blankMsg)]

/-- The call that goes past the end of the ring rings two doorbells, for the slots from 959 to
1023 and for those from 0 to 35. -/
theorem pexq_ringInvariant_lap :
    ∃ s, (pexqMachine lapConfig).run (.init fun _ => blankMsg) lapTrace = some s ∧
      (s.produced.length = 1060 ∧ s.done = 928 ∧ s.pexq.qbufPendingCnt = 132 ∧
        (s.calls.drop 6).map (fun c => c.posted.map doorbellCount) = [[65, 36], []] ∧
        (s.calls.drop 6).map (fun c => c.posted.map doorbellAddr) =
          [[slotAddr lapConfig 959, slotAddr lapConfig 0], []]) ∧
      RingInvariant lapConfig s := by
  have hends : ((pexqMachine lapConfig).run (.init fun _ => blankMsg) lapTrace).map (fun s =>
      decide (s.produced.length = 1060 ∧ s.done = 928 ∧ s.pexq.qbufPendingCnt = 132 ∧
        (s.calls.drop 6).map (fun c => c.posted.map doorbellCount) = [[65, 36], []] ∧
        (s.calls.drop 6).map (fun c => c.posted.map doorbellAddr) =
          [[slotAddr lapConfig 959, slotAddr lapConfig 0], []])) = some true := by
    decide +kernel
  obtain ⟨s, hs, hcounts⟩ := Option.map_eq_some_iff.mp hends
  exact ⟨s, hs, of_decide_eq_true hcounts, pexq_ringInvariant _ _ _ hs⟩

end Pexq
end NxNic

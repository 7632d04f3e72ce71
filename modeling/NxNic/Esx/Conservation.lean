import Mathlib.Logic.ExistsUnique
import NxNic.Esx.Xmit
import NxNic.Tx.RingSafety

/-! # No bounce buffer is lost

The state is the `World` of `Esx/Xmit`: the array of bounce buffers with its list of the free
ones, the slots of the ring with the buffers of their fragments, and how far the transmitter and
the completion handler have come.  A step is one part of a packet mapped, bounced or given up, one
buffer given back, or the device completing a packet.

`World.Conserved` is the property of a state: every bounce buffer is on the list of the free ones,
once, or busy and with just one fragment of a packet that is on its way; none has been given back
that was not in use, and no array of a fragment has been overrun.

The list and the fragments are places in the sense of `Lib/Places`, and what the two parties do
moves buffers between the list and one fragment.  The invariant `Inv` has the counters of the ring
(`Ringed`), where the transmitter and the handler are (`Calling`, `Reaping`), and the buffers
(`Kept`).  Each step keeps it under `Action.Clean`, and one that is not clean loses a buffer or
stores behind its array: `conserved_iff` is the two over runs.
-/
namespace NxNic

/-- A copy ends before byte `size` of the memory of the ring. -/
def Tx.Effect.EndsBy (size : Nat) : Tx.Effect → Prop
  | .copy off _ len => 0 < len → off + len ≤ size
  | _ => True

instance Tx.Effect.decidableEndsBy (size : Nat) : (e : Tx.Effect) → Decidable (e.EndsBy size)
  | .copy off _ len =>
    @instDecidableForall (0 < len) (off + len ≤ size) (Nat.decLt ..) (Nat.decLe ..)
  | .desc .. | .buf .. | .pending .. | .produce .. | .doorbell .. | .consume .. | .map ..
  | .unmap .. | .kfreeSkb .. | .stopQueue | .wakeQueue | .bug => isTrue trivial

namespace Esx
open Tx

/-! ## What is to hold -/

/-- The fragments of a call that may hold buffers. -/
def Call.frags : Call → List Nat
  | .mapping _ done _ => done
  | .undoing todo => todo

namespace World
variable (card : Card) (w : World)

/-- The first packet that the completion handler has not left. -/
def last : Nat := w.reaper.elim w.reaped (·.lastConsumer)

/-- How many of its fragments have been given back. -/
def given (i : Nat) : Nat := w.reaper.elim 0 fun r => if r.lastConsumer = i then r.frag else 0

/-- Fragment `j` of slot `s` is one of a packet on the ring, and not yet given back. -/
def InFlight (s j : Nat) : Prop :=
  ∃ i, w.last ≤ i ∧ i < w.posted ∧ i % card.maxTxDescCount = s ∧
    (w.cmdBufArr s).skb.isSome = true ∧ w.given i ≤ j ∧ j < (w.cmdBufArr s).fragCount.toNat

/-- It is one of the packet that the transmitter deals with. -/
def InCall (s j : Nat) : Prop := s = w.slot card ∧ ∃ c ∈ w.call, j ∈ c.frags

def Live (s j : Nat) : Prop := w.InFlight card s j ∨ w.InCall card s j

/-- The buffers that the fragment refers to. -/
def held (s j : Nat) : List Nat := ((w.cmdBufArr s).bounceBuf j).held

def Refers (f : Nat × Nat) (k : Nat) : Prop := w.Live card f.1 f.2 ∧ k ∈ w.held f.1 f.2

/-- **The property**: a buffer is on the list once and not busy, or it is off the list, busy and of
one fragment; none is given back that is not in use, and no array is overrun. -/
structure Conserved : Prop where
  buffer : ∀ k < maxVmkBounce,
    (w.bounce.free.count k = 1 ∧ w.bounce.busy k = false ∧ ∀ f, ¬w.Refers card f k) ∨
      (k ∉ w.bounce.free ∧ w.bounce.busy k = true ∧ ∃! f, w.Refers card f k)
  fresh : w.stale = false
  inside : w.overrun = false

/-- The condition on a step of the transmitter: where a part cannot be mapped, the fragments before
it hold no buffers; and no part is given as many as a `bounce_buf` has entries. -/
def Clean : Call → Prop
  | .mapping _ done (p :: _) =>
      (p.mapped = false → ∀ j ∈ done, w.held (w.slot card) j = []) ∧
        (p.mapped = true → card.dmaMask ≤ p.phys + BitVec.ofNat 64 p.len →
          (w.bounce.nxFindSuitableBounceBuf (reqBufs p.len)).isSome = true →
            reqBufs p.len ≠ maxPagesPerFrag)
  | _ => True

/-- The headers of a packet are copied within the ring. -/
def Fits : Call → Prop
  | .mapping job _ [] =>
      ∀ e ∈ w.headerStores card job, e.EndsBy (descSize * card.maxTxDescCount)
  | _ => True

/-- The places of the buffers: the list, and the fragments. -/
noncomputable def place : Option (Nat × Nat) → List Nat
  | none => w.bounce.free
  | some f => @ite _ (w.Live card f.1 f.2) (Classical.propDecidable _) (w.held f.1 f.2) []

end World

/-! ## The invariant -/

/-- What each part of a packet relies on: the fragments that it would give back are those before
it, and only a page is larger than 16 bits can say. -/
def Ready : List Nat → List Piece → Prop
  | _, [] => True
  | done, p :: rest =>
      p.onFail.Perm done ∧ (p.page = false → p.len < 65536) ∧ Ready (done ++ [p.frag]) rest

/-! ## The parts of a packet -/

theorem pagePieces_frags (io : EsxIo) (v i : Nat) (sizes : List Nat) :
    (pagePieces io v i sizes).map (·.frag) = List.range' (i + v) sizes.length := by
  induction sizes generalizing i with
  | nil => rfl
  | cons len rest ih =>
    rw [pagePieces, List.map_cons, ih, List.length_cons, List.range'_succ, Nat.add_right_comm]

theorem pagePieces_ready (io : EsxIo) (v : Nat) {i : Nat} {done : List Nat} (sizes : List Nat)
    (hdone : (List.range (i + v)).Perm done) : Ready done (pagePieces io v i sizes) := by
  induction sizes generalizing i done with
  | nil => trivial
  | cons len rest ih =>
    refine ⟨hdone, fun hpage => absurd hpage Bool.false_ne_true.symm, ih ?_⟩
    rw [Nat.add_right_comm, List.range_succ]
    exact hdone.append_right [i + v]

/-- The loop goes to the next descriptor at every fourth fragment. -/
theorem descMoves_pagePieces (io : EsxIo) (v i : Nat) (sizes : List Nat) :
    descMoves (pagePieces io v i sizes) + (i + v + 3) / 4 = (i + sizes.length + v + 3) / 4 := by
  induction sizes generalizing i with
  | nil =>
    simp only [pagePieces, descMoves, List.filter_nil, List.length_nil, Nat.add_zero, Nat.zero_add]
  | cons len rest ih =>
    have hrest := ih (i + 1)
    rw [pagePieces, descMoves, List.filter_cons]
    rw [descMoves] at hrest
    rw [List.length_cons]
    split
    · rename_i hmove
      rw [decide_eq_true_eq] at hmove
      rw [List.length_cons]
      dsimp only at hmove
      omega
    · rename_i hstay
      rw [decide_eq_true_eq] at hstay
      dsimp only at hstay
      omega

/-- The parts of a packet are its fragments, each once. -/
theorem pieces_frags (io : EsxIo) {copy vlanFrag : Bool} (firstSegLen : Nat) (skb : Skb) :
    ((headPieces io copy vlanFrag firstSegLen ++
      pagePieces io vlanFrag.toNat 1 skb.frags).map (·.frag)).Perm
        (List.range (esxFragCount skb vlanFrag.toNat)) := by
  have hrange : List.range (esxFragCount skb vlanFrag.toNat) =
      List.range (1 + vlanFrag.toNat) ++
        List.range' (1 + vlanFrag.toNat) skb.frags.length := by
    rw [esxFragCount, Skb.fragCount, Nat.add_right_comm, List.range_eq_range',
      List.range_eq_range', ← List.range'_append_1, Nat.zero_add]
  rw [List.map_append, pagePieces_frags, hrange]
  refine List.Perm.append_right _ ?_
  cases vlanFrag with
  | false => cases copy <;> exact List.Perm.refl _
  | true => exact List.Perm.swap 0 1 []

theorem pieces_ready (io : EsxIo) {copy vlanFrag : Bool} (firstSegLen : Nat) (skb : Skb) :
    Ready [] (headPieces io copy vlanFrag firstSegLen ++
      pagePieces io vlanFrag.toNat 1 skb.frags) := by
  have hmod (n : Nat) : n % 65536 < 65536 := Nat.mod_lt n (by decide)
  cases vlanFrag with
  | false =>
    have hdone : (List.range (1 + 0)).Perm [0] := List.Perm.refl _
    have hpages := pagePieces_ready io 0 skb.frags hdone
    cases copy with
    | false => exact ⟨List.Perm.refl _, fun _ => hmod _, hpages⟩
    | true => exact ⟨List.Perm.refl _, fun _ => hmod _, hpages⟩
  | true =>
    have hdone : (List.range (1 + 1)).Perm [1, 0] := List.Perm.swap 1 0 []
    have hpages := pagePieces_ready io 1 skb.frags hdone
    have hhead : hdrCp < 65536 := by decide
    exact ⟨List.Perm.refl _, fun _ => hmod _, List.Perm.refl _, fun _ => hhead, hpages⟩

theorem headerSlots_le (n : Nat) : headerSlots n ≤ 2 := by
  unfold headerSlots
  split <;> omega

theorem linearize_keeps {io : XmitIo} {t : Nat} {skb s : Skb} (h : linearize io t skb = some s) :
    s.protocol = skb.protocol ∧ s.gsoSize = skb.gsoSize := by
  unfold linearize at h
  dsimp only at h
  split at h
  · exact Option.some.inj h ▸ ⟨rfl, rfl⟩
  · split at h
    · exact Option.some.inj h ▸ ⟨rfl, rfl⟩
    · cases h

/-- A packet with a segment size is no RARP packet. -/
theorem protocol_ne_of_lso {io : XmitIo} {dev : NetDev} {t : Nat} {skb : EsxSkb} {s : Skb}
    (h : linearize io t skb.toSkb = some s) (hlso : lsoPacket dev s) : s.protocol ≠ ethPRarp := by
  intro hrarp
  obtain ⟨hproto, hgso⟩ := linearize_keeps h
  have hnone : s.gsoSize = 0 := hgso.trans (skb.rarp (hproto.symm.trans hrarp))
  refine hlso.1 ?_
  rw [xmitMss, hnone, if_neg fun hpos => Nat.lt_irrefl 0 hpos.1]
  rfl

/-- **The room that was asked for is enough**: a packet has no headers to copy when a filter is
sent behind it. -/
theorem slots_le (dev : NetDev) {io : EsxIo} {t v : Nat} {skb : EsxSkb} {s : Skb} (uaddr : Bool)
    (hv : v ≤ 1) (h : linearize io.toXmitIo t skb.toSkb = some s) :
    Job.slots ⟨dev, s, v, uaddr, descMoves (pagePieces io v 1 s.frags)⟩ ≤ esxNoOfDesc s v + 2 := by
  have hmoves := descMoves_pagePieces io v 1 s.frags
  have hheaders := headerSlots_le (lsoHdrLen dev s)
  unfold Job.slots esxNoOfDesc esxFragCount Skb.fragCount
  dsimp only
  by_cases hlso : lsoPacket dev s
  · rw [if_pos hlso, if_neg (by simp [protocol_ne_of_lso h hlso])]
    omega
  · rw [if_neg hlso]
    split <;> omega

namespace World
variable {card : Card} {w w' : World}

/-- What the completion handler has come to.  While it is within a packet, that packet has been
completed and the loop goes on. -/
def Reaping (card : Card) (w : World) (r : Reaper) : Prop :=
  ∃ c, r.consumer = c % card.maxTxDescCount ∧ r.lastConsumer ≤ c ∧ c ≤ w.completed ∧
    (0 < r.frag → r.lastConsumer < c ∧ r.count < maxStatusHandle)

/-- The counters, and the slots of the ring. -/
structure Ringed (card : Card) (w : World) : Prop where
  reaped_le : w.reaped ≤ w.last
  last_le : w.last ≤ w.completed
  completed_le : w.completed ≤ w.posted
  lt : w.posted < w.reaped + card.maxTxDescCount
  word : w.cmdConsumer = w.completed % card.maxTxDescCount
  clear : ∀ i, w.posted < i → i < w.last + card.maxTxDescCount →
    (w.cmdBufArr (i % card.maxTxDescCount)).skb = none
  frags : ∀ i, w.last ≤ i → i < w.posted →
    (w.cmdBufArr (i % card.maxTxDescCount)).skb.isSome = true →
    1 ≤ (w.cmdBufArr (i % card.maxTxDescCount)).fragCount.toNat
  reaper : ∀ r ∈ w.reaper, Reaping card w r

/-- What the transmitter has come to. -/
def Calling (card : Card) (w : World) : Call → Prop
  | .mapping job done todo =>
      w.posted + job.slots < w.reaped + card.maxTxDescCount ∧
        (w.cmdBufArr (w.slot card)).skb.isSome = true ∧
        1 ≤ (w.cmdBufArr (w.slot card)).fragCount.toNat ∧
        (done ++ todo.map (·.frag)).Perm
          (List.range (w.cmdBufArr (w.slot card)).fragCount.toNat) ∧
        Ready done todo
  | .undoing todo => todo.Nodup

/-- The buffers. -/
structure Kept (card : Card) (w : World) : Prop where
  places : Places (w.place card) (Finset.range maxVmkBounce)
  listed : w.bounce.Listed
  fresh : w.stale = false
  inside : w.overrun = false

structure Inv (card : Card) (w : World) : Prop where
  ring : Ringed card w
  call : ∀ c ∈ w.call, Calling card w c
  kept : Kept card w

/-! ## Places -/

theorem place_some_of_live {f : Nat × Nat} (h : w.Live card f.1 f.2) :
    w.place card (some f) = w.held f.1 f.2 := if_pos h

theorem place_some_of_not_live {f : Nat × Nat} (h : ¬w.Live card f.1 f.2) :
    w.place card (some f) = [] := if_neg h

theorem mem_place_some {f : Nat × Nat} {k : Nat} :
    k ∈ w.place card (some f) ↔ w.Refers card f k := by
  by_cases h : w.Live card f.1 f.2
  · rw [place_some_of_live h, Refers, and_iff_right h]
  · rw [place_some_of_not_live h]
    exact iff_of_false List.not_mem_nil fun hr => h hr.1

/-- The same fragments with the same buffers. -/
theorem place_some_congr {f : Nat × Nat} (hlive : w'.Live card f.1 f.2 ↔ w.Live card f.1 f.2)
    (hheld : w'.held f.1 f.2 = w.held f.1 f.2) :
    w'.place card (some f) = w.place card (some f) := by
  by_cases h : w.Live card f.1 f.2
  · rw [place_some_of_live h, place_some_of_live (hlive.mpr h), hheld]
  · rw [place_some_of_not_live h, place_some_of_not_live (mt hlive.mp h)]

/-- **Each buffer is where it should be**, when the places hold each of them once. -/
theorem Kept.conserved (h : Kept card w) : w.Conserved card := by
  refine ⟨fun k hk => ?_, h.fresh, h.inside⟩
  have hbusy := h.listed.busy k hk
  by_cases hfree : k ∈ w.bounce.free
  · refine Or.inl ⟨List.count_eq_one_of_mem h.listed.nodup hfree, ?_, fun f hf => ?_⟩
    · exact Bool.eq_false_iff.mpr fun hset => hbusy.mp hset hfree
    · have hplace := h.places.unique (i := none) (j := some f) hfree (mem_place_some.mpr hf)
      cases hplace
  · refine Or.inr ⟨hfree, hbusy.mpr hfree, ?_⟩
    obtain ⟨i, hi, huniq⟩ := h.places.existsUnique (Finset.mem_range.mpr hk)
    cases i with
    | none => exact absurd hi hfree
    | some f =>
      refine ⟨f, mem_place_some.mp hi, fun g hg => ?_⟩
      exact Option.some.inj (huniq (some g) (mem_place_some.mpr hg))

/-! ## The slot of the next packet -/

theorem Ringed.last_le_posted (h : Ringed card w) : w.last ≤ w.posted :=
  Nat.le_trans h.last_le h.completed_le

theorem Ringed.lt_last (h : Ringed card w) : w.posted < w.last + card.maxTxDescCount :=
  Nat.lt_of_lt_of_le h.lt (Nat.add_le_add_right h.reaped_le _)

/-- No packet on the ring is in the slot of the next one. -/
theorem Ringed.slot_ne (h : Ringed card w) {i : Nat} (h1 : w.last ≤ i) (h2 : i < w.posted) :
    i % card.maxTxDescCount ≠ w.slot card := by
  intro hslot
  have hlt := h.lt_last
  exact absurd (Ring.eq_of_mod_eq (Nat.le_of_lt h2) (by omega) hslot) (Nat.ne_of_lt h2)

theorem Ringed.not_inFlight_slot (h : Ringed card w) (j : Nat) :
    ¬w.InFlight card (w.slot card) j := by
  rintro ⟨i, h1, h2, hs, -⟩
  exact h.slot_ne h1 h2 hs

/-- The two states differ, as to the ring, in the slot of the next packet only. -/
structure SameRing (card : Card) (w w' : World) : Prop where
  posted : w'.posted = w.posted
  completed : w'.completed = w.completed
  reaped : w'.reaped = w.reaped
  reaper : w'.reaper = w.reaper
  cmdConsumer : w'.cmdConsumer = w.cmdConsumer
  arr : ∀ s, s ≠ w.slot card → w'.cmdBufArr s = w.cmdBufArr s

namespace SameRing
variable (hs : SameRing card w w')
include hs

theorem last_eq : w'.last = w.last := by rw [last, last, hs.reaper, hs.reaped]

theorem given_eq (i : Nat) : w'.given i = w.given i := by rw [given, given, hs.reaper]

theorem slot_eq : w'.slot card = w.slot card := by rw [slot, slot, hs.posted]

theorem ringed (h : Ringed card w) : Ringed card w' := by
  have hlast := hs.last_eq
  refine ⟨?_, ?_, ?_, ?_, ?_, fun i h1 h2 => ?_, fun i h1 h2 => ?_, fun r hr => ?_⟩
  · rw [hs.reaped, hlast]
    exact h.reaped_le
  · rw [hlast, hs.completed]
    exact h.last_le
  · rw [hs.completed, hs.posted]
    exact h.completed_le
  · rw [hs.posted, hs.reaped]
    exact h.lt
  · rw [hs.cmdConsumer, hs.completed]
    exact h.word
  · rw [hs.posted] at h1
    rw [hlast] at h2
    have hne : i % card.maxTxDescCount ≠ w.slot card := fun hi =>
      Nat.ne_of_lt h1 (Ring.eq_of_mod_eq (Nat.le_of_lt h1)
        (Nat.lt_of_lt_of_le h2 (Nat.add_le_add_right h.last_le_posted _)) hi.symm)
    rw [hs.arr _ hne]
    exact h.clear i h1 h2
  · rw [hlast] at h1
    rw [hs.posted] at h2
    rw [hs.arr _ (h.slot_ne h1 h2)]
    exact h.frags i h1 h2
  · rw [hs.reaper] at hr
    obtain ⟨c, hc⟩ := h.reaper r hr
    refine ⟨c, ?_⟩
    rw [hs.completed]
    exact hc

theorem inFlight_iff (h : Ringed card w) (s j : Nat) :
    w'.InFlight card s j ↔ w.InFlight card s j := by
  refine exists_congr fun i => ?_
  rw [hs.last_eq, hs.posted, hs.given_eq]
  refine and_congr_right fun h1 => and_congr_right fun h2 => and_congr_right fun hi => ?_
  rw [hs.arr s fun hslot => h.slot_ne h1 h2 (hi.trans hslot)]

/-- What the transmitter does not touch, and what its call has, is live as before. -/
theorem live_iff (h : Ringed card w) {s j : Nat}
    (hcall : s = w.slot card → ((∃ c ∈ w'.call, j ∈ c.frags) ↔ ∃ c ∈ w.call, j ∈ c.frags)) :
    w'.Live card s j ↔ w.Live card s j := by
  refine or_congr (hs.inFlight_iff h s j) ?_
  rw [InCall, InCall, hs.slot_eq]
  exact and_congr_right hcall

end SameRing

/-! ## Buffers move -/

/-- A step that moves none. -/
theorem Kept.quiet (h : Kept card w) (hbounce : w'.bounce = w.bounce) (hstale : w'.stale = w.stale)
    (hover : w'.overrun = w.overrun)
    (hplace : ∀ f, w'.place card (some f) = w.place card (some f)) : Kept card w' := by
  have hsame : w'.place card = w.place card := by
    funext i
    cases i with
    | none => exact congrArg VmkBounce.free hbounce
    | some f => exact hplace f
  refine ⟨?_, ?_, hstale.trans h.fresh, hover.trans h.inside⟩
  · rw [hsame]
    exact h.places
  · rw [hbounce]
    exact h.listed

/-- **A fragment gives its buffers back**, all of which are in use. -/
theorem Kept.giveBack {s j : Nat} (h : Kept card w) (hlive : w.Live card s j)
    (hbounce : w'.bounce = (w.freeFrag s j).bounce) (hstale : w'.stale = (w.freeFrag s j).stale)
    (hover : w'.overrun = w.overrun) (hgone : ¬w'.Live card s j)
    (hplace : ∀ f, f ≠ (s, j) → w'.place card (some f) = w.place card (some f)) :
    Kept card w' := by
  have hplace₁ : w.place card (some (s, j)) = w.held s j := place_some_of_live hlive
  have hheld : ∀ k ∈ w.held s j, k < maxVmkBounce ∧ w.bounce.busy k = true := by
    intro k hk
    rw [← hplace₁] at hk
    have hlt : k < maxVmkBounce := Finset.mem_range.mp (h.places.mem hk)
    refine ⟨hlt, (h.listed.busy k hlt).mpr fun hfree => ?_⟩
    have hboth := h.places.unique (i := none) hfree hk
    cases hboth
  have hne : none ≠ some (s, j) := (Option.some_ne_none _).symm
  have hapart := h.places.nodup_append hne
  rw [hplace₁] at hapart
  refine ⟨h.places.move hne ?_ fun i hi hj => ?_, ?_, ?_, ?_⟩
  · rw [place_some_of_not_live (f := (s, j)) hgone, hplace₁, List.append_nil]
    show w'.bounce.free.Perm (w.bounce.free ++ w.held s j)
    rw [hbounce, freeFrag, nxFreeFragBounceBuf_free]
    exact List.Perm.refl _
  · cases i with
    | none => exact absurd rfl hi
    | some f => exact hplace f fun hf => hj (congrArg some hf)
  · rw [hbounce]
    exact h.listed.giveBack hapart fun k hk => (hheld k hk).1
  · rw [hstale, freeFrag, h.fresh, Bool.false_or, List.any_eq_false]
    intro k hk
    rw [(hheld k hk).2]
    exact Bool.false_ne_true
  · exact hover.trans h.inside

/-- **A fragment takes buffers** off the list. -/
theorem Kept.fill {f : Nat × Nat} (h : Kept card w) (hlisted : w'.bounce.Listed)
    (hperm : w.bounce.free.Perm (w'.bounce.free ++ w'.held f.1 f.2)) (hnew : ¬w.Live card f.1 f.2)
    (hlive : w'.Live card f.1 f.2) (hstale : w'.stale = w.stale) (hover : w'.overrun = false)
    (hplace : ∀ g, g ≠ f → w'.place card (some g) = w.place card (some g)) : Kept card w' := by
  have hne : none ≠ some f := (Option.some_ne_none f).symm
  refine ⟨h.places.move hne ?_ fun i hi hj => ?_, hlisted, hstale.trans h.fresh, hover⟩
  · rw [place_some_of_live hlive, place_some_of_not_live hnew, List.append_nil]
    exact hperm.symm
  · cases i with
    | none => exact absurd rfl hi
    | some g => exact hplace g fun hg => hj (congrArg some hg)

/-! ## What the transmitter does -/

theorem inCall_of {c : Call} {s j : Nat} (h : w.call = some c) :
    w.InCall card s j ↔ s = w.slot card ∧ j ∈ c.frags := by
  refine and_congr_right fun _ => ?_
  rw [h]
  exact ⟨fun ⟨d, hd, hj⟩ => Option.some.inj hd ▸ hj, fun hj => ⟨c, rfl, hj⟩⟩

theorem not_inCall {s j : Nat} (h : w.call = none) : ¬w.InCall card s j := by
  rintro ⟨-, c, hc, -⟩
  rw [h] at hc
  cases hc

theorem Inv.startJob {job : Job} {pieces : List Piece} (h : Inv card w) (hcall : w.call = none)
    (hroom : w.posted + job.slots < w.reaped + card.maxTxDescCount)
    (hpos : 1 ≤ esxFragCount job.skb job.vlanFrag)
    (hcount : esxFragCount job.skb job.vlanFrag < 256)
    (hfrags : (pieces.map (·.frag)).Perm (List.range (esxFragCount job.skb job.vlanFrag)))
    (hready : Ready [] pieces) : Inv card (w.startJob card job pieces) := by
  have hsame : SameRing card w (w.startJob card job pieces) :=
    ⟨rfl, rfl, rfl, rfl, rfl, fun s hs => Function.update_of_ne hs _ _⟩
  have hbuf : (w.startJob card job pieces).cmdBufArr (w.slot card) =
      { w.cmdBufArr (w.slot card) with
        skb := some job.skb.id
        fragCount := BitVec.ofNat 8 (esxFragCount job.skb job.vlanFrag) } :=
    Function.update_self ..
  have hheld (s j : Nat) : (w.startJob card job pieces).held s j = w.held s j := by
    by_cases hs : s = w.slot card
    · rw [hs, held, held, hbuf]
    · rw [held, held, hsame.arr s hs]
  have hnat : (BitVec.ofNat 8 (esxFragCount job.skb job.vlanFrag)).toNat =
      esxFragCount job.skb job.vlanFrag := BitVec.toNat_ofNat .. ▸ Nat.mod_eq_of_lt hcount
  refine ⟨hsame.ringed h.ring, fun c hc => ?_, h.kept.quiet rfl rfl rfl fun f => ?_⟩
  · obtain rfl := Option.some.inj hc
    refine ⟨hroom, ?_, ?_, ?_, hready⟩
    · rw [hsame.slot_eq, hbuf]
      rfl
    · rw [hsame.slot_eq, hbuf, hnat]
      exact hpos
    · rw [hsame.slot_eq, hbuf, hnat]
      exact hfrags
  · refine place_some_congr (hsame.live_iff h.ring fun _ => ?_) (hheld f.1 f.2)
    have hnew : ¬∃ c ∈ (w.startJob card job pieces).call, f.2 ∈ c.frags := by
      rintro ⟨c, hc, hj⟩
      obtain rfl := Option.some.inj hc
      cases hj
    have hold : ¬∃ c ∈ w.call, f.2 ∈ c.frags := by
      rintro ⟨c, hc, -⟩
      rw [hcall] at hc
      cases hc
    exact iff_of_false hnew hold

/-- What the tests for room compute. -/
theorem Ringed.room (h : Ringed card w) :
    Ring.bound card.maxTxDescCount (w.reaped % card.maxTxDescCount) (w.slot card) + w.posted =
      w.slot card + (w.reaped + card.maxTxDescCount) :=
  bound_counters (Nat.le_trans h.reaped_le h.last_le_posted) h.lt

theorem Inv.xmitBegin (h : Inv card w) (hcall : w.call = none) (dev : NetDev) (io : EsxIo)
    (skb : EsxSkb) : Inv card (w.xmitBegin card dev io skb) := by
  unfold World.xmitBegin
  split
  · exact h
  · split
    · exact h
    · rename_i s hs
      dsimp only
      split
      · exact h
      · split
        · exact h
        · split
          · exact h
          · rename_i hfull
            generalize (vlanCopy card dev skb && decide (hdrCp < s.len - s.dataLen)) = frag
              at hfull ⊢
            have hroom := h.ring.room
            rw [ringFull, decide_eq_true_eq] at hfull
            have hslots := slots_le dev (v := frag.toNat) io.uaddr (Bool.toNat_le frag) hs
            have hcount : s.fragCount ≤ 14 := fragCount_le_of_linearize hs
            have hbool : frag.toNat ≤ 1 := Bool.toNat_le frag
            refine h.startJob hcall (by omega) ?_ ?_ (pieces_frags io _ s) (pieces_ready io _ s)
            · show 1 ≤ 1 + s.frags.length + frag.toNat
              omega
            · show s.fragCount + frag.toNat < 256
              omega

/-- The call ends, and the fragments that it leaves hold nothing. -/
theorem Inv.drop {c : Call} (h : Inv card w) (hc : w.call = some c)
    (hempty : ∀ j ∈ c.frags, w.held (w.slot card) j = []) : Inv card { w with call := none } := by
  have hsame : SameRing card w { w with call := none } :=
    ⟨rfl, rfl, rfl, rfl, rfl, fun _ _ => rfl⟩
  refine ⟨hsame.ringed h.ring, fun d hd => absurd hd (Option.not_mem_none d),
    h.kept.quiet rfl rfl rfl fun f => ?_⟩
  by_cases hcall : w.InCall card f.1 f.2
  · obtain ⟨hs, hj⟩ := (inCall_of hc).mp hcall
    have hnone : w.held f.1 f.2 = [] := hs ▸ hempty f.2 hj
    have hgone : World.Live card { w with call := none } f.1 f.2 →
        w.InFlight card f.1 f.2 := fun hlive => hlive.resolve_right (not_inCall rfl)
    rw [place_some_of_live (Or.inr hcall), hnone]
    exact place_some_of_not_live fun hlive => h.ring.not_inFlight_slot f.2 (hs ▸ hgone hlive)
  · refine place_some_congr (or_congr_right ?_) rfl
    exact iff_of_false (not_inCall rfl) hcall

/-- The part cannot be bounced: the fragments before it are given back next. -/
theorem Inv.undo {job : Job} {done : List Nat} {p : Piece} {rest : List Piece} (h : Inv card w)
    (hc : w.call = some (.mapping job done (p :: rest))) :
    Inv card { w with call := some (.undoing p.onFail) } := by
  have hsame : SameRing card w { w with call := some (.undoing p.onFail) } :=
    ⟨rfl, rfl, rfl, rfl, rfl, fun _ _ => rfl⟩
  obtain ⟨-, -, -, hperm, hfail, -, -⟩ := h.call _ hc
  refine ⟨hsame.ringed h.ring, fun d hd => ?_, h.kept.quiet rfl rfl rfl fun f => ?_⟩
  · obtain rfl := Option.some.inj hd
    have hnodup := hperm.nodup_iff.mpr List.nodup_range
    exact hfail.nodup_iff.mpr (List.nodup_append.mp hnodup).1
  · refine place_some_congr (or_congr_right ?_) rfl
    rw [inCall_of hc, inCall_of rfl]
    exact and_congr_right fun _ => hfail.mem_iff

/-- A part is bounced, or need not be. -/
theorem Inv.fill {job : Job} {done : List Nat} {p : Piece} {rest : List Piece} {r : Bounced}
    (h : Inv card w) (hc : w.call = some (.mapping job done (p :: rest)))
    (hreq : card.dmaMask ≤ p.phys + BitVec.ofNat 64 p.len → reqBufs p.len ≤ maxPagesPerFrag)
    (hr : nxHandleLargeAddr card.dmaMask w.bounce
      ((w.cmdBufArr (w.slot card)).bounceBuf p.frag) p.phys p.len = some r)
    (hover : r.overrun = false) : Inv card (w.putBounced card job done p rest r) := by
  obtain ⟨hroom, hskb, hpos, hperm, -, -, hready⟩ := h.call _ hc
  obtain ⟨hlisted, hmoved⟩ := h.kept.listed.handle hreq hr
  rw [List.map_cons] at hperm
  have hnew : p.frag ∉ done := fun hmem =>
    (List.nodup_append.mp (hperm.nodup_iff.mpr List.nodup_range)).2.2 p.frag hmem p.frag
      List.mem_cons_self rfl
  have hsame : SameRing card w (w.putBounced card job done p rest r) :=
    ⟨rfl, rfl, rfl, rfl, rfl, fun s hs => Function.update_of_ne hs _ _⟩
  have hbuf : (w.putBounced card job done p rest r).cmdBufArr (w.slot card) =
      (w.cmdBufArr (w.slot card)).setBounce p.frag r.frag := Function.update_self ..
  have hheld : ∀ f, f ≠ (w.slot card, p.frag) →
      (w.putBounced card job done p rest r).held f.1 f.2 = w.held f.1 f.2 := by
    intro f hne
    by_cases hs : f.1 = w.slot card
    · have hj : f.2 ≠ p.frag := fun hj => hne (Prod.ext hs hj)
      rw [hs, held, held, hbuf, CmdBuffer.setBounce_of_ne _ _ hj]
    · rw [held, held, hsame.arr f.1 hs]
  have hnow : (w.putBounced card job done p rest r).held (w.slot card) p.frag = r.frag.held := by
    rw [held, hbuf, CmdBuffer.setBounce_self]
  have hcall : (w.putBounced card job done p rest r).call =
      some (.mapping job (done ++ [p.frag]) rest) := rfl
  refine ⟨hsame.ringed h.ring, fun c hc' => ?_, ?_⟩
  · obtain rfl := Option.some.inj (hcall.symm.trans hc')
    rw [Calling, hsame.posted, hsame.reaped, hsame.slot_eq, hbuf]
    refine ⟨hroom, hskb, hpos, ?_, hready⟩
    rw [List.append_assoc]
    exact hperm
  · refine h.kept.fill (f := (w.slot card, p.frag)) hlisted ?_ ?_ ?_ rfl ?_ ?_
    · rw [hnow]
      exact hmoved
    · rintro (hlive | hlive)
      · exact h.ring.not_inFlight_slot _ hlive
      · exact hnew ((inCall_of hc).mp hlive).2
    · refine Or.inr ((inCall_of hcall).mpr ⟨hsame.slot_eq.symm, ?_⟩)
      exact List.mem_append_right done List.mem_cons_self
    · exact Bool.or_eq_false_iff.mpr ⟨h.kept.inside, hover⟩
    · intro f hf
      refine place_some_congr (hsame.live_iff h.ring fun hs => ?_) (hheld f hf)
      have hne : f.2 ≠ p.frag := fun hj => hf (Prod.ext hs hj)
      have hmem : f.2 ∈ done ++ [p.frag] ↔ f.2 ∈ done := by
        rw [List.mem_append, List.mem_singleton, or_iff_left hne]
      rw [hc, hcall]
      simp only [Option.mem_some_iff, exists_eq_left', Call.frags, hmem]

theorem reqBufs_le {len : Nat} (h : len ≤ maxPagesPerFrag * pageSize) :
    reqBufs len ≤ maxPagesPerFrag := by
  have hsize : pageSize = 4096 := rfl
  have hmax : maxPagesPerFrag = 24 := rfl
  rw [hmax, hsize] at h
  rw [reqBufs, hmax, hsize]
  split <;> omega

/-- **One part of the packet**, where the condition holds. -/
theorem Inv.xmitPiece {job : Job} {done : List Nat} {p : Piece} {rest : List Piece}
    (h : Inv card w) (hc : w.call = some (.mapping job done (p :: rest)))
    (hclean : w.Clean card (.mapping job done (p :: rest))) :
    Inv card (w.xmitPiece card job done p rest) := by
  obtain ⟨-, -, -, -, -, hlen, -⟩ := h.call _ hc
  unfold World.xmitPiece
  dsimp only
  split
  · rename_i hmapped
    rw [Bool.not_eq_true'] at hmapped
    exact h.drop hc (hclean.1 hmapped)
  · rename_i hmapped
    rw [Bool.not_eq_true', Bool.not_eq_false] at hmapped
    split
    · exact h.undo hc
    · rename_i hpages
      -- a page has at most as many pages, and the linear part is shorter than that
      have hreq : card.dmaMask ≤ p.phys + BitVec.ofNat 64 p.len →
          reqBufs p.len ≤ maxPagesPerFrag := by
        intro hlarge
        refine reqBufs_le ?_
        cases hpage : p.page with
        | false => exact Nat.le_trans (Nat.le_of_lt (hlen hpage)) (by decide)
        | true => simpa [hpage, hlarge] using hpages
      split
      · exact h.undo hc
      · rename_i r hr
        refine h.fill hc hreq hr ?_
        rw [nxHandleLargeAddr] at hr
        split at hr
        · rename_i hlarge
          obtain ⟨k, hfind, rfl⟩ := Option.map_eq_some_iff.mp hr
          have hne := hclean.2 hmapped hlarge (Option.isSome_iff_exists.mpr ⟨k, hfind⟩)
          exact decide_eq_false (Nat.not_le_of_lt (Nat.lt_of_le_of_ne (hreq hlarge) hne))
        · exact Option.some.inj hr ▸ rfl

/-- **A fragment is given back** by a call that could not go on. -/
theorem Inv.undone {j : Nat} {rest : List Nat} (h : Inv card w)
    (hc : w.call = some (.undoing (j :: rest))) :
    Inv card { w.freeFrag (w.slot card) j with call := some (.undoing rest) } := by
  have hsame : SameRing card w
      { w.freeFrag (w.slot card) j with call := some (.undoing rest) } :=
    ⟨rfl, rfl, rfl, rfl, rfl, fun _ _ => rfl⟩
  obtain ⟨hj, hrest⟩ := List.nodup_cons.mp (h.call _ hc)
  refine ⟨hsame.ringed h.ring, fun d hd => ?_, ?_⟩
  · obtain rfl := Option.some.inj hd
    exact hrest
  · refine h.kept.giveBack (s := w.slot card) (j := j) ?_ rfl rfl rfl ?_ fun f hf => ?_
    · exact Or.inr ((inCall_of hc).mpr ⟨rfl, List.mem_cons_self⟩)
    · rintro (hlive | hlive)
      · exact h.ring.not_inFlight_slot j ((hsame.inFlight_iff h.ring _ _).mp hlive)
      · exact hj ((inCall_of (c := .undoing rest) rfl).mp hlive).2
    · refine place_some_congr (hsame.live_iff h.ring fun hs => ?_) rfl
      have hne : f.2 ≠ j := fun hj => hf (Prod.ext hs hj)
      have hmem : f.2 ∈ j :: rest ↔ f.2 ∈ rest := by
        rw [List.mem_cons, or_iff_right hne]
      rw [hc]
      simp only [Option.mem_some_iff, exists_eq_left', Call.frags, hmem]

/-- Copies that end within the ring leave the device's word alone. -/
theorem cmdConsumer_execAll {a : Adapter} {es : List Tx.Effect} (hword : a.cmdConsumer < 256 ^ 4)
    (hes : ∀ e ∈ es, e.EndsBy (descSize * a.maxTxDescCount)) :
    (a.execAll es).cmdConsumer = a.cmdConsumer := by
  induction es generalizing a with
  | nil => rfl
  | cons e es ih =>
    have hfirst : (a.exec e).cmdConsumer = a.cmdConsumer := by
      have hend := hes e List.mem_cons_self
      cases e with
      | copy off src len => exact wordAfterCopy_of_le src hend hword
      | _ => rfl
    have hsize := Adapter.exec_maxTxDescCount a e
    rw [Adapter.execAll_cons, ih (by rwa [hfirst]) ?_, hfirst]
    intro f hf
    rw [hsize]
    exact hes f (List.mem_cons_of_mem e hf)

/-- The handler has given nothing back of a packet that is not on the ring yet. -/
theorem Ringed.given_posted (h : Ringed card w) : w.given w.posted = 0 := by
  rw [given]
  cases hr : w.reaper with
  | none => rfl
  | some r =>
    obtain ⟨c, -, -, hcomp, hin⟩ := h.reaper r hr
    show (if r.lastConsumer = w.posted then r.frag else 0) = 0
    split
    · rename_i hlast
      by_contra hfrag
      have hlt := (hin (Nat.pos_of_ne_zero hfrag)).1
      have hdone := h.completed_le
      omega
    · rfl

/-- **The packet is on the ring**: its fragments are now those of a packet in flight. -/
theorem Inv.xmitPost {job : Job} {done : List Nat} (h : Inv card w)
    (hc : w.call = some (.mapping job done [])) (hfits : w.Fits card (.mapping job done [])) :
    Inv card (w.xmitPost card job) := by
  obtain ⟨hroom, hskb, hpos, hperm, -⟩ := h.call _ hc
  rw [List.map_nil, List.append_nil] at hperm
  have hring := h.ring
  have hle := hring.last_le_posted
  have hreaped := hring.reaped_le
  have hword : (w.xmitPost card job).cmdConsumer = w.cmdConsumer := by
    refine cmdConsumer_execAll ?_ hfits
    show w.cmdConsumer < 256 ^ 4
    rw [hring.word]
    exact Nat.lt_of_lt_of_le (Nat.mod_lt _ card.pos) card.word
  -- what is behind the packet's first slot carries no packet
  have hbehind : ∀ i, w.posted < i → i < w.posted + job.slots →
      (w.cmdBufArr (i % card.maxTxDescCount)).skb = none := fun i h1 h2 =>
    hring.clear i h1 (by omega)
  refine ⟨⟨hring.reaped_le, hring.last_le, ?_, hroom, hword.trans hring.word, ?_, ?_,
    hring.reaper⟩, fun c hc' => absurd hc' (Option.not_mem_none c), ?_⟩
  · exact Nat.le_trans hring.completed_le (Nat.le_add_right _ _)
  · intro i h1 h2
    exact hring.clear i (Nat.lt_of_le_of_lt (Nat.le_add_right _ _) h1) h2
  · intro i h1 h2 hset
    rcases Nat.lt_trichotomy i w.posted with hi | rfl | hi
    · exact hring.frags i h1 hi hset
    · exact hpos
    · have hnone := hbehind i hi h2
      rw [show (w.xmitPost card job).cmdBufArr = w.cmdBufArr from rfl, hnone] at hset
      cases hset
  · refine h.kept.quiet rfl rfl rfl fun f => place_some_congr ?_ rfl
    have hgiven := hring.given_posted
    have hnocall : ¬World.InCall card (w.xmitPost card job) f.1 f.2 := not_inCall rfl
    rw [Live, Live, inCall_of hc, or_iff_left hnocall]
    constructor
    · rintro ⟨i, h1, h2, hi, hset, hlo, hhi⟩
      rcases Nat.lt_trichotomy i w.posted with hlt | rfl | hgt
      · exact Or.inl ⟨i, h1, hlt, hi, hset, hlo, hhi⟩
      · refine Or.inr ⟨hi.symm, hperm.mem_iff.mpr (List.mem_range.mpr ?_)⟩
        exact (show w.slot card = f.1 from hi) ▸ hhi
      · have hnone := hbehind i hgt h2
        rw [hi] at hnone
        rw [show (w.xmitPost card job).cmdBufArr = w.cmdBufArr from rfl, hnone] at hset
        cases hset
    · have hmore : w.posted < (w.xmitPost card job).posted := by
        show w.posted < w.posted + job.slots
        unfold Job.slots
        omega
      rintro (⟨i, h1, h2, hrest⟩ | ⟨hs, hj⟩)
      · exact ⟨i, h1, Nat.lt_trans h2 hmore, hrest⟩
      · refine ⟨w.posted, hle, hmore, hs.symm, hs ▸ hskb, ?_, ?_⟩
        · exact Nat.le_trans (Nat.le_of_eq hgiven) (Nat.zero_le _)
        · exact hs ▸ List.mem_range.mp (hperm.mem_iff.mp hj)

/-! ## What the others do -/

theorem clearSlots_skb {n i k : Nat} {arr : Nat → CmdBuffer} {s : Nat}
    (h : (arr s).skb = none ∨ ∃ m, i ≤ m ∧ m < i + k ∧ m % n = s) :
    (clearSlots n i k arr s).skb = none := by
  induction k generalizing i arr with
  | zero =>
    rcases h with h | ⟨m, h1, h2, -⟩
    · exact h
    · omega
  | succ k ih =>
    refine ih ?_
    by_cases hs : s = i % n
    · rw [hs, Function.update_self]
      exact Or.inl rfl
    · rw [Function.update_of_ne hs]
      refine h.imp_right ?_
      rintro ⟨m, h1, h2, rfl⟩
      have hne : m ≠ i := fun hm => hs (hm ▸ rfl)
      exact ⟨m, by omega, by omega, rfl⟩

theorem clearSlots_of_ne {n i k : Nat} {arr : Nat → CmdBuffer} {s : Nat}
    (h : ∀ m, i ≤ m → m < i + k → m % n ≠ s) : clearSlots n i k arr s = arr s := by
  induction k generalizing i arr with
  | zero => rfl
  | succ k ih =>
    rw [clearSlots, ih fun m h1 h2 => h m (by omega) (by omega)]
    exact Function.update_of_ne (h i (Nat.le_refl i) (by omega)).symm _ _

theorem clearSlots_bounceBuf (n i k : Nat) (arr : Nat → CmdBuffer) (s : Nat) :
    (clearSlots n i k arr s).bounceBuf = (arr s).bounceBuf := by
  induction k generalizing i arr with
  | zero => rfl
  | succ k ih =>
    rw [clearSlots, ih]
    by_cases hs : s = i % n
    · rw [hs, Function.update_self]
    · rw [Function.update_of_ne hs]

/-- Commands carry no packets. -/
theorem Inv.sendCommands (h : Inv card w) (hcall : w.call = none) (k : Nat) :
    Inv card (w.sendCommands card k) := by
  have hring := h.ring
  unfold World.sendCommands
  split
  · exact h
  · rename_i hroom
    have hbound := hring.room
    have hlast := hring.reaped_le
    have hle := hring.last_le_posted
    have hkeep : ∀ i, w.last ≤ i → i < w.posted →
        clearSlots card.maxTxDescCount w.posted k w.cmdBufArr (i % card.maxTxDescCount) =
          w.cmdBufArr (i % card.maxTxDescCount) := by
      intro i h1 h2
      refine clearSlots_of_ne fun m hm1 hm2 hslot => ?_
      exact absurd (Ring.eq_of_mod_eq (by omega) (by omega) hslot.symm) (by omega)
    have hnew : ∀ i, w.posted ≤ i → i < w.posted + k →
        (clearSlots card.maxTxDescCount w.posted k w.cmdBufArr
          (i % card.maxTxDescCount)).skb = none := fun i h1 h2 =>
      clearSlots_skb (Or.inr ⟨i, h1, h2, rfl⟩)
    refine ⟨⟨hring.reaped_le, hring.last_le, ?_, ?_, hring.word, ?_, ?_, hring.reaper⟩,
      fun c hc => ?_, h.kept.quiet rfl rfl rfl ?_⟩
    · exact Nat.le_trans hring.completed_le (Nat.le_add_right _ _)
    · show w.posted + k < w.reaped + card.maxTxDescCount
      omega
    · intro i h1 h2
      have hi : w.posted < i := Nat.lt_of_le_of_lt (Nat.le_add_right _ _) h1
      exact clearSlots_skb (Or.inl (hring.clear i hi h2))
    · intro i h1 h2 hset
      dsimp only at h2 hset ⊢
      by_cases hi : i < w.posted
      · rw [hkeep i h1 hi] at hset ⊢
        exact hring.frags i h1 hi hset
      · rw [hnew i (Nat.le_of_not_lt hi) h2] at hset
        cases hset
    · exact absurd (hcall.symm.trans hc) (Option.some_ne_none c).symm
    · rintro ⟨s, j⟩
      refine place_some_congr (or_congr ?_ ?_) ?_
      · constructor
        · rintro ⟨i, h1, h2, rfl, hset, hlo, hhi⟩
          dsimp only at h2 hset hhi
          by_cases hi : i < w.posted
          · rw [hkeep i h1 hi] at hset hhi
            exact ⟨i, h1, hi, rfl, hset, hlo, hhi⟩
          · rw [hnew i (Nat.le_of_not_lt hi) h2] at hset
            cases hset
        · rintro ⟨i, h1, h2, rfl, hset, hlo, hhi⟩
          have hsame := hkeep i h1 h2
          refine ⟨i, h1, Nat.lt_of_lt_of_le h2 (Nat.le_add_right _ _), rfl, ?_, hlo, ?_⟩
          · exact (congrArg (fun b => b.skb.isSome) hsame).trans hset
          · exact Nat.lt_of_lt_of_eq hhi (congrArg (fun b => b.fragCount.toNat) hsame).symm
      · exact iff_of_false (not_inCall hcall) (not_inCall hcall)
      · exact congrArg (fun g => (g j).held) (clearSlots_bounceBuf ..)

theorem Inv.device (h : Inv card w) (hlt : w.completed < w.posted) :
    Inv card { w with
      completed := w.completed + 1
      cmdConsumer := (w.completed + 1) % card.maxTxDescCount } := by
  have hring := h.ring
  refine ⟨⟨hring.reaped_le, Nat.le_succ_of_le hring.last_le, hlt, hring.lt, rfl, hring.clear,
    hring.frags, fun r hr => ?_⟩, fun c hc => ?_, h.kept.quiet rfl rfl rfl fun f => rfl⟩
  · obtain ⟨c, hword, hle, hdone, hin⟩ := hring.reaper r hr
    exact ⟨c, hword, hle, Nat.le_succ_of_le hdone, hin⟩
  · have hcalling := h.call c hc
    cases c with
    | mapping job done todo => exact hcalling
    | undoing todo => exact hcalling

/-! ## What the completion handler does -/

section Reaper
variable {r : Reaper}

theorem last_of (hr : w.reaper = some r) : w.last = r.lastConsumer := by rw [last, hr]; rfl

theorem given_of (hr : w.reaper = some r) (i : Nat) :
    w.given i = if r.lastConsumer = i then r.frag else 0 := by rw [given, hr]; rfl

/-- The call goes on where there is more room than it has asked for. -/
theorem Calling.more {c : Call} (h : Calling card w c) (hposted : w'.posted = w.posted)
    (hreaped : w.reaped ≤ w'.reaped)
    (harr : w'.cmdBufArr (w.slot card) = w.cmdBufArr (w.slot card)) : Calling card w' c := by
  have hslot : w'.slot card = w.slot card := by rw [slot, slot, hposted]
  cases c with
  | mapping job done todo =>
    obtain ⟨hroom, hrest⟩ := h
    rw [Calling, hslot, harr, hposted]
    exact ⟨by omega, hrest⟩
  | undoing todo => exact h

theorem Inv.reapBegin (h : Inv card w) (hr : w.reaper = none) :
    Inv card { w with reaper := some ⟨w.reaped, w.cmdConsumer, 0, 0⟩ } := by
  have hring := h.ring
  have hlast : w.last = w.reaped := by rw [last, hr]; rfl
  have hzero : w.reaped ≤ w.completed := hlast ▸ hring.last_le
  refine ⟨⟨Nat.le_refl _, hzero, hring.completed_le, hring.lt, hring.word, ?_, ?_,
    fun r hr' => ?_⟩, fun c hc => (h.call c hc).more rfl (Nat.le_refl _) rfl,
    h.kept.quiet rfl rfl rfl fun f => place_some_congr (or_congr ?_ Iff.rfl) rfl⟩
  · rw [← hlast]
    exact hring.clear
  · rw [← hlast]
    exact hring.frags
  · obtain rfl := Option.some.inj hr'
    exact ⟨w.completed, hring.word, hzero, Nat.le_refl _,
      fun hfrag => absurd hfrag (Nat.lt_irrefl 0)⟩
  · refine exists_congr fun i => ?_
    have hgiven : w.given i = 0 := by rw [given, hr]; rfl
    have hgiven' : World.given { w with reaper := some ⟨w.reaped, w.cmdConsumer, 0, 0⟩ } i = 0 :=
      ite_self 0
    rw [hlast, hgiven, hgiven']
    rfl

/-- While the handler is in the loop, its packet has been completed. -/
theorem Ringed.reaping (h : Ringed card w) (hr : w.reaper = some r)
    (hloop : r.lastConsumer % card.maxTxDescCount ≠ r.consumer) :
    ∃ c, r.consumer = c % card.maxTxDescCount ∧ r.lastConsumer < c ∧ c ≤ w.completed := by
  obtain ⟨c, hword, hle, hdone, -⟩ := h.reaper r hr
  refine ⟨c, hword, Nat.lt_of_le_of_ne hle fun heq => hloop ?_, hdone⟩
  rw [hword, heq]

theorem Ringed.last_lt_posted (h : Ringed card w) (hr : w.reaper = some r)
    (hloop : r.lastConsumer % card.maxTxDescCount ≠ r.consumer) : w.last < w.posted := by
  obtain ⟨c, -, hlt, hdone⟩ := h.reaping hr hloop
  have hlast := last_of hr
  have hcompleted := h.completed_le
  omega

/-- Of the packets on the ring, the first is the one in its slot. -/
theorem Ringed.eq_last (h : Ringed card w) {i : Nat} (h1 : w.last ≤ i) (h2 : i < w.posted)
    (hi : i % card.maxTxDescCount = w.last % card.maxTxDescCount) : i = w.last :=
  (Ring.eq_of_mod_eq h1 (Nat.lt_trans h2 h.lt_last) hi.symm).symm

/-- The loop is over. -/
theorem Inv.reapEnd (h : Inv card w) (hr : w.reaper = some r)
    (hend : r.lastConsumer % card.maxTxDescCount = r.consumer ∨ maxStatusHandle ≤ r.count) :
    Inv card { w with reaped := r.lastConsumer, reaper := none } := by
  have hring := h.ring
  have hlast := last_of hr
  have hreaped : w.reaped ≤ r.lastConsumer := hlast ▸ hring.reaped_le
  have hfrag : r.frag = 0 := by
    obtain ⟨c, hword, hle, hdone, hin⟩ := hring.reaper r hr
    by_contra hfrag
    obtain ⟨hlt, hcount⟩ := hin (Nat.pos_of_ne_zero hfrag)
    have hposted := hring.completed_le
    have hroom := hring.lt_last
    rcases hend with hend | hend
    · exact absurd (Ring.eq_of_mod_eq hle (by omega) (hend.trans hword)) (Nat.ne_of_lt hlt)
    · omega
  refine ⟨⟨Nat.le_refl _, ?_, hring.completed_le, ?_, hring.word, ?_, ?_, fun d hd => ?_⟩,
    fun c hc => (h.call c hc).more rfl hreaped rfl,
    h.kept.quiet rfl rfl rfl fun f => place_some_congr (or_congr ?_ Iff.rfl) rfl⟩
  · exact hlast ▸ hring.last_le
  · exact hlast ▸ hring.lt_last
  · exact hlast ▸ hring.clear
  · exact hlast ▸ hring.frags
  · exact absurd hd (Option.not_mem_none d)
  · refine exists_congr fun i => ?_
    have hgiven : w.given i = 0 := by rw [given_of hr, hfrag, ite_self]
    rw [hgiven, hlast]
    rfl

/-- **A fragment of a packet that was sent is given back.** -/
theorem Inv.reapFrag (h : Inv card w) (hr : w.reaper = some r)
    (hloop : r.lastConsumer % card.maxTxDescCount ≠ r.consumer)
    (hcount : r.count < maxStatusHandle)
    (hskb : (w.cmdBufArr (r.lastConsumer % card.maxTxDescCount)).skb.isSome = true)
    (hfrag : r.frag < max 1
      (w.cmdBufArr (r.lastConsumer % card.maxTxDescCount)).fragCount.toNat) :
    Inv card (w.reapFrag card r) := by
  have hring := h.ring
  have hlast := last_of hr
  obtain ⟨c, hword, hlt, hdone⟩ := hring.reaping hr hloop
  have hposted := hring.last_lt_posted hr hloop
  have hpos := hring.frags w.last (Nat.le_refl _) hposted (by rwa [hlast])
  rw [hlast] at hpos
  have hlast' : (w.reapFrag card r).last = w.last := hlast.symm
  have hgiven' (i : Nat) : (w.reapFrag card r).given i =
      if r.lastConsumer = i then r.frag + 1 else 0 := rfl
  refine ⟨⟨hlast' ▸ hring.reaped_le, hlast' ▸ hring.last_le, hring.completed_le, hring.lt,
    hring.word, hlast' ▸ hring.clear, hlast' ▸ hring.frags, fun d hd => ?_⟩,
    fun c hc => (h.call c hc).more rfl (Nat.le_refl _) rfl, ?_⟩
  · obtain rfl := Option.some.inj hd
    exact ⟨c, hword, Nat.le_of_lt hlt, hdone, fun _ => ⟨hlt, hcount⟩⟩
  · refine h.kept.giveBack (s := r.lastConsumer % card.maxTxDescCount) (j := r.frag) ?_ rfl rfl rfl
      ?_ fun f hf => place_some_congr (or_congr (exists_congr fun i => ?_) Iff.rfl) rfl
    · refine Or.inl ⟨r.lastConsumer, Nat.le_of_eq hlast, hlast ▸ hposted, rfl, hskb, ?_, by omega⟩
      rw [given_of hr, if_pos rfl]
    · rintro (⟨i, h1, h2, hi, -, hlo, -⟩ | ⟨hs, -⟩)
      · rw [hlast'] at h1
        rw [← hlast] at hi
        rw [hgiven', hring.eq_last h1 h2 hi, hlast, if_pos rfl] at hlo
        omega
      · exact hring.slot_ne (Nat.le_refl _) hposted (hlast ▸ hs)
    · rw [hlast', hgiven', given_of hr]
      refine and_congr_right fun h1 => and_congr_right fun h2 => and_congr_right fun hi =>
        and_congr_right fun _ => and_congr_left fun _ => ?_
      split
      · rename_i heq
        have hne : f.2 ≠ r.frag := fun hj => hf (Prod.ext (by rw [heq, hi]) hj)
        omega
      · exact Iff.rfl

/-- The handler leaves a slot, none of whose fragments holds anything. -/
theorem Inv.reapSlot (h : Inv card w) (hr : w.reaper = some r)
    (hloop : r.lastConsumer % card.maxTxDescCount ≠ r.consumer)
    (hover : ¬((w.cmdBufArr (r.lastConsumer % card.maxTxDescCount)).skb.isSome = true ∧
      r.frag < max 1 (w.cmdBufArr (r.lastConsumer % card.maxTxDescCount)).fragCount.toNat)) :
    Inv card (w.reapSlot card r) := by
  have hring := h.ring
  have hlast := last_of hr
  obtain ⟨c, hword, hlt, hdone⟩ := hring.reaping hr hloop
  have hposted := hring.last_lt_posted hr hloop
  have hroom := hring.lt_last
  have hreaped := hring.reaped_le
  have hlast' : (w.reapSlot card r).last = w.last + 1 := congrArg (· + 1) hlast.symm
  have hself : (w.reapSlot card r).cmdBufArr (w.last % card.maxTxDescCount) =
      { w.cmdBufArr (w.last % card.maxTxDescCount) with skb := none } := by
    rw [hlast]
    exact Function.update_self ..
  have hother : ∀ s, s ≠ w.last % card.maxTxDescCount →
      (w.reapSlot card r).cmdBufArr s = w.cmdBufArr s := by
    intro s hs
    rw [hlast] at hs
    exact Function.update_of_ne hs _ _
  have harr : ∀ i, w.last < i → i < w.last + card.maxTxDescCount →
      (w.reapSlot card r).cmdBufArr (i % card.maxTxDescCount) =
        w.cmdBufArr (i % card.maxTxDescCount) := fun i h1 h2 => hother _ fun hi =>
    absurd (Ring.eq_of_mod_eq (Nat.le_of_lt h1) h2 hi.symm) (Nat.ne_of_lt h1)
  rw [← hlast] at hover
  refine ⟨⟨?_, ?_, hring.completed_le, hring.lt, hring.word, fun i h1 h2 => ?_,
    fun i h1 h2 hset => ?_, fun d hd => ?_⟩, fun d hd => ?_, ?_⟩
  · rw [hlast']
    exact Nat.le_succ_of_le hreaped
  · rw [hlast', hlast]
    exact Nat.le_trans hlt hdone
  · rw [hlast'] at h2
    by_cases hi : i % card.maxTxDescCount = w.last % card.maxTxDescCount
    · rw [hi, hself]
    · have hne : i ≠ w.last + card.maxTxDescCount := fun heq => hi (by
        rw [heq, Nat.add_mod_right])
      rw [hother _ hi]
      exact hring.clear i h1 (by omega)
  · rw [hlast'] at h1
    replace h2 : i < w.posted := h2
    rw [harr i h1 (by omega)] at hset ⊢
    exact hring.frags i (Nat.le_of_lt h1) h2 hset
  · obtain rfl := Option.some.inj hd
    exact ⟨c, hword, hlt, hdone, fun hfrag => absurd hfrag (Nat.lt_irrefl 0)⟩
  · exact (h.call d hd).more rfl (Nat.le_refl _) (harr w.posted hposted hroom)
  · refine h.kept.quiet rfl rfl rfl ?_
    rintro ⟨s, j⟩
    refine place_some_congr (or_congr ?_ Iff.rfl) ?_
    · constructor
      · rintro ⟨i, h1, h2, rfl, hset, -, hhi⟩
        rw [hlast'] at h1
        replace h2 : i < w.posted := h2
        rw [harr i h1 (by omega)] at hset hhi
        refine ⟨i, Nat.le_of_lt h1, h2, rfl, hset, ?_, hhi⟩
        rw [given_of hr, ← hlast, if_neg (Nat.ne_of_lt h1)]
        exact Nat.zero_le j
      · rintro ⟨i, h1, h2, rfl, hset, hlo, hhi⟩
        rcases Nat.lt_or_eq_of_le h1 with hlt' | rfl
        · have hsame := harr i hlt' (by omega)
          refine ⟨i, hlast' ▸ hlt', h2, rfl, by rwa [hsame], ?_, by rwa [hsame]⟩
          exact Nat.le_trans (Nat.le_of_eq (ite_self 0)) (Nat.zero_le j)
        · rw [given_of hr, hlast, if_pos rfl] at hlo
          dsimp only at hlo hhi
          exact absurd ⟨hset, by omega⟩ hover
    · rw [held, held]
      by_cases hs : s = w.last % card.maxTxDescCount
      · rw [hs, hself]
      · rw [hother s hs]

theorem Inv.reapStep (h : Inv card w) (hr : w.reaper = some r) : Inv card (w.reapStep card r) := by
  unfold World.reapStep
  dsimp only
  split
  · rename_i hend
    exact h.reapEnd hr hend
  · rename_i hgo
    obtain ⟨hloop, hcount⟩ := not_or.mp hgo
    split
    · rename_i hfrag
      exact h.reapFrag hr hloop (Nat.lt_of_not_le hcount) hfrag.1 hfrag.2
    · rename_i hover
      exact h.reapSlot hr hloop hover

end Reaper

end World

/-! ## Runs -/

namespace Action

/-- The condition on the steps of a run. -/
def Clean (card : Card) (w : World) : Action → Prop
  | .xmitStep => ∀ c ∈ w.call, w.Clean card c
  | _ => True

/-- The headers of the packets are copied within the ring. -/
def Fits (card : Card) (w : World) : Action → Prop
  | .xmitStep => ∀ c ∈ w.call, w.Fits card c
  | _ => True

instance decidableClean (card : Card) (w : World) (a : Action) : Decidable (a.Clean card w) := by
  cases a with
  | xmitStep =>
    unfold Clean
    cases w.call with
    | none => exact isTrue fun c hc => absurd hc (Option.not_mem_none c)
    | some c =>
      refine @decidable_of_iff _ (w.Clean card c) (by simp) ?_
      unfold World.Clean
      split <;> infer_instance
  | _ => exact isTrue trivial

instance decidableFits (card : Card) (w : World) (a : Action) : Decidable (a.Fits card w) := by
  cases a with
  | xmitStep =>
    unfold Fits
    cases w.call with
    | none => exact isTrue fun c hc => absurd hc (Option.not_mem_none c)
    | some c =>
      refine @decidable_of_iff _ (w.Fits card c) (by simp) ?_
      unfold World.Fits
      split <;> infer_instance
  | _ => exact isTrue trivial

end Action

namespace World
variable {card : Card} {w w' : World}

theorem Inv.xmitStep {c : Call} (h : Inv card w) (hc : w.call = some c) (hfits : w.Fits card c)
    (hclean : w.Clean card c) : Inv card (w.xmitStep card c) := by
  cases c with
  | mapping job done todo =>
    cases todo with
    | nil => exact h.xmitPost hc hfits
    | cons p rest => exact h.xmitPiece hc hclean
  | undoing todo =>
    cases todo with
    | nil => exact h.drop hc fun j hj => absurd hj List.not_mem_nil
    | cons j rest => exact h.undone hc

/-- What one step keeps. -/
theorem Inv.next {a : Action} (h : Inv card w) (hfits : a.Fits card w) (hclean : a.Clean card w)
    (hnext : (machine card).next w a = some w') : Inv card w' := by
  cases a with
  | xmit dev io skb =>
    obtain ⟨hcall, hstep⟩ := Option.ite_none_right_eq_some.mp hnext
    obtain rfl := Option.some.inj hstep
    exact h.xmitBegin (Option.isNone_iff_eq_none.mp hcall) dev io skb
  | xmitStep =>
    obtain ⟨c, hc, rfl⟩ := Option.map_eq_some_iff.mp hnext
    exact h.xmitStep hc (hfits c hc) (hclean c hc)
  | commands k =>
    obtain ⟨hcall, hstep⟩ := Option.ite_none_right_eq_some.mp hnext
    obtain rfl := Option.some.inj hstep
    exact h.sendCommands (Option.isNone_iff_eq_none.mp hcall) k
  | device =>
    obtain ⟨hlt, hstep⟩ := Option.ite_none_right_eq_some.mp hnext
    obtain rfl := Option.some.inj hstep
    exact h.device hlt
  | reap =>
    cases hr : w.reaper with
    | none =>
      simp only [machine, hr, Option.some.injEq] at hnext
      exact hnext ▸ h.reapBegin hr
    | some r =>
      simp only [machine, hr, Option.some.injEq] at hnext
      exact hnext ▸ h.reapStep hr

/-- The buffers of the fragments that a dropped packet leaves are nowhere. -/
theorem Inv.lost {job : Job} {done : List Nat} {todo : List Piece} (h : Inv card w)
    (hc : w.call = some (.mapping job done todo)) {j k : Nat} (hj : j ∈ done)
    (hk : k ∈ w.held (w.slot card) j) : ¬Conserved card { w with call := none } := by
  intro hcons
  have hrefers : w.Refers card (w.slot card, j) k := ⟨Or.inr ((inCall_of hc).mpr ⟨rfl, hj⟩), hk⟩
  have hplace := mem_place_some.mpr hrefers
  have hlt : k < maxVmkBounce := Finset.mem_range.mp (h.kept.places.mem hplace)
  rcases hcons.buffer k hlt with ⟨hcount, -, -⟩ | ⟨-, -, f, ⟨hlive, hkf⟩, -⟩
  · have hfree : k ∈ w.place card none := List.count_pos_iff.mp (hcount ▸ Nat.one_pos)
    cases h.kept.places.unique hfree hplace
  · have hflight : w.InFlight card f.1 f.2 := hlive.resolve_right (not_inCall rfl)
    have hother : w.Refers card f k := ⟨Or.inl hflight, hkf⟩
    obtain rfl := Option.some.inj (h.kept.places.unique (mem_place_some.mpr hother) hplace)
    exact h.ring.not_inFlight_slot j hflight

theorem lt_of_reqBufs {len : Nat} (h : reqBufs len = maxPagesPerFrag) :
    ¬maxPagesPerFrag * pageSize < len := by
  have hsize : pageSize = 4096 := rfl
  have hmax : maxPagesPerFrag = 24 := rfl
  rw [reqBufs, hmax, hsize] at h
  rw [hmax, hsize]
  split at h <;> omega

/-- A part with as many buffers as the array has entries has the null pointer stored behind it. -/
theorem xmitPiece_overrun {job : Job} {done : List Nat} {p : Piece} {rest : List Piece}
    (hmapped : p.mapped = true) (hlarge : card.dmaMask ≤ p.phys + BitVec.ofNat 64 p.len)
    (hfind : (w.bounce.nxFindSuitableBounceBuf (reqBufs p.len)).isSome = true)
    (hreq : reqBufs p.len = maxPagesPerFrag) :
    (w.xmitPiece card job done p rest).overrun = true := by
  obtain ⟨k, hk⟩ := Option.isSome_iff_exists.mp hfind
  have hpages := lt_of_reqBufs hreq
  unfold xmitPiece
  rw [hmapped, Bool.not_true, if_neg Bool.false_ne_true, decide_eq_false hpages, Bool.and_false,
    if_neg Bool.false_ne_true]
  dsimp only
  rw [nxHandleLargeAddr, if_pos hlarge, hk, hreq]
  exact Bool.or_true _

/-- A step that does not meet the condition loses a buffer, or overruns an array. -/
theorem Inv.needs {a : Action} (h : Inv card w) (hnext : (machine card).next w a = some w')
    (hcons : w'.Conserved card) : a.Clean card w := by
  cases a with
  | xmitStep =>
    obtain ⟨c, hc, rfl⟩ := Option.map_eq_some_iff.mp hnext
    intro d hd
    obtain rfl := Option.some.inj (hc.symm.trans hd)
    cases c with
    | undoing todo => trivial
    | mapping job done todo =>
      cases todo with
      | nil => trivial
      | cons p rest =>
        refine ⟨fun hmapped j hj => ?_, fun hmapped hlarge hfind hreq => ?_⟩
        · have hdrop : w.xmitStep card (.mapping job done (p :: rest)) =
              { w with call := none } := by
            rw [World.xmitStep, World.xmitPiece, hmapped]
            rfl
          rw [hdrop] at hcons
          refine List.eq_nil_iff_forall_not_mem.mpr fun k hk => ?_
          exact h.lost hc hj hk hcons
        · have hover : (w.xmitPiece card job done p rest).overrun = true :=
            xmitPiece_overrun hmapped hlarge hfind hreq
          exact absurd (hcons.inside.symm.trans hover) Bool.false_ne_true
  | _ => trivial

theorem Inv.initial (card : Card) : Inv card World.initial := by
  have hlive : ∀ f : Nat × Nat, ¬World.initial.Live card f.1 f.2 := by
    rintro f (⟨i, -, hi, -⟩ | hcall)
    · exact absurd hi (Nat.not_lt_zero i)
    · exact not_inCall rfl hcall
  refine ⟨⟨Nat.le_refl 0, Nat.le_refl 0, Nat.le_refl 0, ?_, ?_, fun i _ _ => rfl,
    fun i _ hi => absurd hi (Nat.not_lt_zero i), fun r hr => absurd hr (Option.not_mem_none r)⟩,
    fun c hc => absurd hc (Option.not_mem_none c), ⟨⟨fun i => ?_, fun k => ?_, ?_⟩,
    VmkBounce.initial_listed, rfl, rfl⟩⟩
  · exact (Nat.zero_add card.maxTxDescCount).symm ▸ card.pos
  · exact (Nat.zero_mod card.maxTxDescCount).symm
  · cases i with
    | none => exact VmkBounce.initial_listed.nodup
    | some f => exact place_some_of_not_live (hlive f) ▸ List.nodup_nil
  · have hlist : k ∈ World.initial.place card none ↔ k < maxVmkBounce := by
      show k ∈ VmkBounce.initial.free ↔ k < maxVmkBounce
      rw [VmkBounce.initial_free, List.mem_range]
    rw [Finset.mem_range, ← hlist]
    refine ⟨fun hk => ⟨none, hk⟩, ?_⟩
    rintro ⟨i, hi⟩
    cases i with
    | none => exact hi
    | some f => exact absurd (mem_place_some.mp hi).1 (hlive f)
  · intro k i j hi hj
    cases i with
    | none =>
      cases j with
      | none => rfl
      | some f => exact absurd (mem_place_some.mp hj).1 (hlive f)
    | some f => exact absurd (mem_place_some.mp hi).1 (hlive f)

end World

/-- A ring of eight slots, and a card that reaches four gigabytes. -/
def smallCard : Card where
  maxTxDescCount := 8
  dmaMask := 0x100000000
  revisionP2 := false
  pos := by decide
  word := by decide

/-- A packet with a page, both out of the card's reach. -/
def highSkb (size : Nat) : EsxSkb where
  id := 1
  len := 100 + size
  dataLen := size
  frags := [size]
  rarp := by decide

def highIo : EsxIo where
  mapSkb := some 0x100000000
  mapPage := fun _ => some 0x100000000
  pagePhys := fun _ => 0x100000000

/-- The packet is sent, and its buffers are given back. -/
def sentRun : List Action :=
  [.xmit {} highIo (highSkb 5000), .xmitStep, .xmitStep, .xmitStep, .device, .reap, .reap, .reap,
    .reap, .reap, .xmit {} highIo (highSkb 5000), .xmitStep, .xmitStep, .xmitStep]

/-- The page cannot be mapped, when the linear part already has its buffer. -/
def lostRun : List Action :=
  [.xmit {} { highIo with mapPage := fun _ => none } (highSkb 5000), .xmitStep, .xmitStep]

/-- The page has all the buffers a fragment has room for. -/
def fullRun : List Action := [.xmit {} highIo (highSkb 98304), .xmitStep, .xmitStep]

end Esx
end NxNic

import Mathlib.Data.Finset.Card
import NxNic.Req.Correlation

/-! # The allocator of completion ids

The state is the adapter of `Req/WaitEvents`, with its list of waiters and the bitmap of four
words of 64 bits, among the calls of `Req/Calls`; a step is one locked section of a call, or an
answer of the card.

An id has a bit of its own in the bitmap as long as it is below 31.  The bit of
the id 31 is the sign of the `int` that is shifted: the conversion to 64 bits
repeats it over the upper half of the word.

`Allocated` is what the allocator is for: no two entries on the list share an id, the bits that are
set are those of the entries, the end of a wait clears its own bit, and a setup fails only when all
ids are taken.  The invariant, `LowRun`, is that of the runs in which a wait is set up only with
fewer than 31 on the list (`FewWaiters`): all ids are below 31.  A 32nd entry sets the upper half
of the bitmap's first word as well; `allocated_iff` has both directions.
-/
namespace NxNic
namespace Req

/-! ## What the allocator is for -/

/-- The ids, the bits and the failures that `nx_os_event_wait_setup` and
`nx_os_event_wait` are to give. -/
structure Allocated (a : Adapter) : Prop where
  distinct : ∀ k ∈ a.waitList, ∀ l ∈ a.waitList,
    (a.waitEvents k).compId = (a.waitEvents l).compId → k = l
  /-- The bits that are set are those of the entries on the list. -/
  bits : ∀ (w : Fin 4) (b : Fin 64),
    (a.waitBitMap w).getLsbD b = true ↔ ∃ k ∈ a.waitList, a.id k = 64 * w + b
  /-- The end of a wait clears the bit of its id and no other. -/
  clears : ∀ k ∈ a.waitList, ∀ (w : Fin 4) (b : Fin 64),
    ((a.finishWait k).waitBitMap w).getLsbD b = true ↔
      (a.waitBitMap w).getLsbD b = true ∧ a.id k ≠ 64 * w + b
  fails : ∀ k, a.nxOsEventWaitSetup k = none →
    ∀ i < nxMaxCompId, ∃ l ∈ a.waitList, a.id l = i

/-- The condition on a step: a wait is set up with fewer than 31 entries on the
list. -/
def FewWaiters (st : ReqState) : ReqAction → Prop
  | .call _ _ => st.adapter.waitList.length < 31
  | _ => True

instance (st : ReqState) : DecidablePred (FewWaiters st) := fun
  | .call _ _ => inferInstanceAs (Decidable (st.adapter.waitList.length < 31))
  | .send _ _ => inferInstanceAs (Decidable True)
  | .wait _ => inferInstanceAs (Decidable True)
  | .answer _ _ _ => inferInstanceAs (Decidable True)

/-! ## The bits of the low ids -/

theorem bitMap_low {i : Nat} (hi : i < 31) (b : Fin 64) :
    (bitMap i).getLsbD b = true ↔ b.val = i := by
  have hall : ∀ i < 31, ∀ b : Fin 64, (bitMap i).getLsbD b = true ↔ b.val = i := by decide +kernel
  exact hall i hi b

theorem mapIndex_low {i : Nat} (hi : i < 64) : mapIndex i = 0 := by
  have hall : ∀ i < 64, mapIndex i = 0 := by decide
  exact hall i hi

/-- The bits of the id 31. -/
theorem bitMap_sign (b : Fin 64) : (bitMap 31).getLsbD b = true ↔ 31 ≤ b.val := by
  have hall : ∀ b : Fin 64, (bitMap 31).getLsbD b = true ↔ 31 ≤ b.val := by decide +kernel
  exact hall b

theorem and_eq_zero_iff {x y : BitVec 64} :
    x &&& y = 0#64 ↔ ∀ b : Fin 64, ¬ (x.getLsbD b = true ∧ y.getLsbD b = true) := by
  constructor
  · rintro h b ⟨hx, hy⟩
    have hbit : (x &&& y).getLsbD b = (0#64).getLsbD b := by rw [h]
    rw [BitVec.getLsbD_and, hx, hy, BitVec.getLsbD_zero] at hbit
    cases hbit
  · intro h
    apply BitVec.eq_of_getLsbD_eq
    intro i hi
    have hbit := h ⟨i, hi⟩
    simpa using hbit

/-- The entries have ids below 31, and the bits set are theirs. -/
structure LowIds (a : Adapter) : Prop where
  ids : a.Ids
  low : ∀ k ∈ a.waitList, a.id k < 31
  bits : ∀ (w : Fin 4) (b : Fin 64),
    (a.waitBitMap w).getLsbD b = true ↔ ∃ k ∈ a.waitList, a.id k = 64 * w + b

namespace LowIds
variable {a : Adapter}

/-- A low id is free just if no entry has it. -/
theorem free_iff (h : LowIds a) {i : Nat} (hi : i < 31) :
    a.compIdFree i = true ↔ ∀ k ∈ a.waitList, a.id k ≠ i := by
  have hbit := h.bits 0 ⟨i, by omega⟩
  simp only [Adapter.compIdFree, decide_eq_true_eq, mapIndex_low (show i < 64 by omega),
    and_eq_zero_iff, bitMap_low hi]
  constructor
  · intro hfree k hk hid
    exact hfree ⟨i, by omega⟩ ⟨rfl, hbit.mpr ⟨k, hk, by simpa using hid⟩⟩
  · rintro hnone b ⟨rfl, hb⟩
    obtain ⟨k, hk, hid⟩ := hbit.mp hb
    exact hnone k hk (by simpa using hid)

/-- The id 31 is free. -/
theorem free_sign (h : LowIds a) : a.compIdFree 31 = true := by
  simp only [Adapter.compIdFree, decide_eq_true_eq, mapIndex_low (show 31 < 64 by decide),
    and_eq_zero_iff, bitMap_sign]
  rintro b ⟨hb, hset⟩
  obtain ⟨k, hk, hid⟩ := (h.bits 0 b).mp hset
  have hlow := h.low k hk
  simp only [Fin.val_zero] at hid
  omega

/-- The ids of the entries. -/
def idSet (a : Adapter) : Finset Nat := a.waitList.toFinset.image a.id

theorem mem_idSet {i : Nat} : i ∈ idSet a ↔ ∃ k ∈ a.waitList, a.id k = i := by
  simp [idSet]

theorem card_idSet (h : LowIds a) : (idSet a).card = a.waitList.length := by
  rw [idSet, Finset.card_image_of_injOn, List.toFinset_card_of_nodup h.ids.nodup]
  intro k hk l hl hid
  exact h.ids.unique (List.mem_toFinset.mp hk) (List.mem_toFinset.mp hl) (BitVec.eq_of_toNat_eq hid)

/-- With fewer than 31 entries a low id is free. -/
theorem exists_free (h : LowIds a) (hfew : a.waitList.length < 31) :
    ∃ i < 31, a.compIdFree i = true := by
  have hcard : (idSet a).card < (Finset.range 31).card := by
    rw [h.card_idSet, Finset.card_range]
    exact hfew
  obtain ⟨i, hi, hnot⟩ := Finset.exists_mem_notMem_of_card_lt_card hcard
  have hlt := Finset.mem_range.mp hi
  refine ⟨i, hlt, (h.free_iff hlt).mpr fun k hk hid => hnot (mem_idSet.mpr ⟨k, hk, hid⟩)⟩

/-- With 31 entries none is. -/
theorem none_free (h : LowIds a) (hmany : ¬ a.waitList.length < 31) :
    ∀ i < 31, a.compIdFree i = false := by
  have hsub : idSet a ⊆ Finset.range 31 := by
    intro i hi
    obtain ⟨k, hk, rfl⟩ := mem_idSet.mp hi
    exact Finset.mem_range.mpr (h.low k hk)
  have hall : idSet a = Finset.range 31 := by
    apply Finset.eq_of_subset_of_card_le hsub
    rw [h.card_idSet, Finset.card_range]
    omega
  intro i hi
  have hmem : i ∈ idSet a := hall ▸ Finset.mem_range.mpr hi
  obtain ⟨k, hk, hid⟩ := mem_idSet.mp hmem
  rw [Bool.eq_false_iff]
  exact fun hfree => (h.free_iff hi).mp hfree k hk hid

/-- The bits after a change of the words of the low ids. -/
theorem bits_update {w : Fin 4} {b : Fin 64} {x : BitVec 64} :
    (Function.update a.waitBitMap 0 x w).getLsbD b = true ↔
      if w = 0 then x.getLsbD b = true else (a.waitBitMap w).getLsbD b = true := by
  rw [Function.update_apply]
  split <;> rfl

/-- What the end of a wait clears. -/
theorem finish_bits (h : LowIds a) {k : Nat} (hk : k ∈ a.waitList) (w : Fin 4) (b : Fin 64) :
    ((a.finishWait k).waitBitMap w).getLsbD b = true ↔
      (a.waitBitMap w).getLsbD b = true ∧ a.id k ≠ 64 * w + b := by
  have hlow := h.low k hk
  have hword : (a.finishWait k).waitBitMap =
      Function.update a.waitBitMap 0 (a.waitBitMap 0 &&& ~~~ bitMap (a.id k)) := by
    rw [← mapIndex_low (show a.id k < 64 by omega)]
    rfl
  rw [hword, bits_update]
  by_cases hw : w = 0
  · subst hw
    have hbit := bitMap_low hlow b
    simp only [if_true, BitVec.getLsbD_and, BitVec.getLsbD_not, b.isLt, decide_true,
      Bool.true_and, Bool.and_eq_true, Bool.not_eq_true', Bool.eq_false_iff, ne_eq, hbit,
      Fin.val_zero, Nat.mul_zero, Nat.zero_add]
    exact and_congr_right fun _ => not_congr eq_comm
  · rw [if_neg hw]
    have hpos : 0 < w.val := Nat.pos_of_ne_zero fun h0 => hw (Fin.ext h0)
    exact (and_iff_left (by omega)).symm

theorem finish (h : LowIds a) {k : Nat} (hk : k ∈ a.waitList) : LowIds (a.finishWait k) := by
  refine ⟨h.ids.finish hk, fun l hl => h.low l (List.mem_of_mem_erase hl), fun w b => ?_⟩
  rw [h.finish_bits hk, h.bits]
  show _ ↔ ∃ l ∈ a.waitList.erase k, a.id l = 64 * w + b
  constructor
  · rintro ⟨⟨l, hl, hid⟩, hne⟩
    have hlk : l ≠ k := by
      rintro rfl
      exact hne hid
    exact ⟨l, (List.mem_erase_of_ne hlk).mpr hl, hid⟩
  · rintro ⟨l, hl, hid⟩
    obtain ⟨hlk, hl⟩ := h.ids.nodup.mem_erase_iff.mp hl
    refine ⟨⟨l, hl, hid⟩, fun hk' => hlk ?_⟩
    exact h.ids.unique hl hk (BitVec.eq_of_toNat_eq (hid.trans hk'.symm))

theorem setup (h : LowIds a) {b : Adapter} {k : Nat} {compId : BitVec 8}
    (hk : k ∉ a.waitList) (hfew : a.waitList.length < 31)
    (hsetup : a.nxOsEventWaitSetup k = some (compId, b)) : LowIds b := by
  have hids : b.Ids := h.ids.setup hk hsetup
  obtain ⟨⟨hfree, hlower⟩, rfl⟩ := Adapter.nxOsEventWaitSetup_cases hsetup
  -- some low id is free, and the id given is the lowest
  obtain ⟨i, hi, hifree⟩ := h.exists_free hfew
  have hlow : compId.toNat < 31 := by
    by_contra hge
    rw [hlower i (by omega)] at hifree
    cases hifree
  have hid : ∀ l, Adapter.id ⟨Function.update a.waitBitMap (mapIndex compId.toNat)
      (a.waitBitMap (mapIndex compId.toNat) ||| bitMap compId.toNat),
      Function.update a.waitEvents k ⟨compId, true, false, none⟩, k :: a.waitList⟩ l =
        if l = k then compId.toNat else a.id l := by
    intro l
    simp only [Adapter.id, Function.update_apply]
    split <;> rfl
  refine ⟨hids, fun l hl => ?_, fun w b => ?_⟩
  · rw [hid]
    split
    · exact hlow
    · rename_i hlk
      exact h.low l (List.mem_of_ne_of_mem hlk hl)
  · simp only [hid]
    show (Function.update a.waitBitMap (mapIndex compId.toNat) _ w).getLsbD b = true ↔
      ∃ l ∈ k :: a.waitList, (if l = k then compId.toNat else a.id l) = 64 * w + b
    have hnew : (∃ l ∈ k :: a.waitList, (if l = k then compId.toNat else a.id l) = 64 * w + b) ↔
        compId.toNat = 64 * w + b ∨ (a.waitBitMap w).getLsbD b = true := by
      rw [h.bits]
      constructor
      · rintro ⟨l, hl, hl'⟩
        split at hl'
        · exact Or.inl hl'
        · rename_i hlk
          exact Or.inr ⟨l, List.mem_of_ne_of_mem hlk hl, hl'⟩
      · rintro (hl | ⟨l, hl, hl'⟩)
        · exact ⟨k, List.mem_cons_self, by rw [if_pos rfl]; exact hl⟩
        · have hlk : l ≠ k := fun hlk => hk (hlk ▸ hl)
          exact ⟨l, List.mem_cons_of_mem _ hl, by rw [if_neg hlk]; exact hl'⟩
    rw [hnew, mapIndex_low (show compId.toNat < 64 by omega), bits_update]
    by_cases hw : w = 0
    · subst hw
      have hbit := bitMap_low hlow b
      simp only [if_true, BitVec.getLsbD_or, Bool.or_eq_true, hbit, Fin.val_zero, Nat.mul_zero,
        Nat.zero_add]
      rw [or_comm, eq_comm]
    · rw [if_neg hw]
      have hpos : 0 < w.val := Nat.pos_of_ne_zero fun h0 => hw (Fin.ext h0)
      exact (or_iff_right (by omega)).symm

theorem wakeup (h : LowIds a) (rsp : NicResponse) :
    LowIds (a.nxOsEventWakeupOnResponse rsp).2 := by
  obtain ⟨hlist, hid⟩ := ReqInv.wakeup_ids a rsp
  have hid' : ∀ l, (a.nxOsEventWakeupOnResponse rsp).2.id l = a.id l := fun l =>
    congrArg BitVec.toNat (hid l)
  have hwords : (a.nxOsEventWakeupOnResponse rsp).2.waitBitMap = a.waitBitMap := by
    rcases a.nxOsEventWakeupOnResponse_cases rsp with heq | ⟨k, -, -, -, heq⟩
    · rw [heq]
    · rw [heq]
      rfl
  refine ⟨h.ids.wakeup rsp, ?_, ?_⟩
  · rw [hlist]
    exact fun l hl => hid' l ▸ h.low l hl
  · simp only [hwords, hlist, hid']
    exact h.bits

/-- The allocator does what it is for. -/
theorem allocated (h : LowIds a) : Allocated a := by
  refine ⟨fun k hk l hl => h.ids.unique hk hl, h.bits, fun k hk => h.finish_bits hk, ?_⟩
  -- it never fails, as the id 31 is free
  intro k hnone
  have hfind : a.findCompId = none := Option.map_eq_none_iff.mp hnone
  have h31 := List.find?_eq_none.mp hfind 31 (List.mem_range.mpr (by decide))
  exact absurd h.free_sign h31

/-- A setup with 31 entries on the list gives the id 31. -/
theorem setup_many (h : LowIds a) (hmany : ¬ a.waitList.length < 31) (k : Nat) :
    ∃ b, a.nxOsEventWaitSetup k = some (31, b) ∧ b.waitList = k :: a.waitList ∧
      (∀ l ∈ b.waitList, l ≠ k → b.id l = a.id l) ∧ b.id k = 31 ∧
      (b.waitBitMap 0).getLsbD 32 = true := by
  have hfind : a.findCompId = some 31 :=
    Adapter.findCompId_eq_some.mpr ⟨by decide, h.free_sign, h.none_free hmany⟩
  refine ⟨_, by rw [Adapter.nxOsEventWaitSetup, hfind]; rfl, rfl, fun l hl hlk => ?_, ?_, ?_⟩
  · simp only [Adapter.id, Function.update_of_ne hlk]
  · simp only [Adapter.id, Function.update_self]
    rfl
  · show (Function.update a.waitBitMap 0 (a.waitBitMap 0 ||| bitMap 31) 0).getLsbD 32 = true
    have hbit : (bitMap 31).getLsbD 32 = true := by decide
    rw [Function.update_self, BitVec.getLsbD_or, hbit, Bool.or_true]

end LowIds

/-! ## Runs -/

/-- The invariant of the runs all of whose steps meet the condition. -/
structure LowRun (st : ReqState) : Prop where
  inv : ReqInv st
  low : LowIds st.adapter

namespace LowRun
variable {st st' : ReqState}

/-- **Every step** that meets the condition keeps the invariant. -/
theorem step (h : LowRun st) {a : ReqAction} (hfew : FewWaiters st a)
    (hstep : reqMachine.next st a = some st') : LowRun st' := by
  refine ⟨h.inv.step hstep, ?_⟩
  cases a with
  | call k args =>
    obtain ⟨hk, ⟨-, rfl⟩ | ⟨compId, a, hsetup, rfl⟩⟩ := ReqState.callStep_cases hstep
    · exact h.low
    · exact h.low.setup (fun hmem => h.inv.called k hmem hk) hfew hsetup
  | send k refused =>
    obtain ⟨req, -, rfl | rfl⟩ := ReqState.sendStep_cases hstep
    · exact h.low
    · exact h.low
  | wait k =>
    obtain ⟨left, pc, -, -, -, rfl⟩ | ⟨rv, hk, rfl⟩ := ReqState.waitStep_cases hstep
    · exact h.low
    · exact h.low.finish (h.inv.listed k (by rw [hk]; rfl))
  | answer place opcode word =>
    obtain ⟨r, -, rfl⟩ := ReqState.answerStep_cases hstep
    exact h.low.wakeup _

/-- A setup with 31 entries on the list sets bits that belong to no entry. -/
theorem needs (h : LowRun st) {a : ReqAction} (hstep : reqMachine.next st a = some st')
    (hgood : Allocated st'.adapter) : FewWaiters st a := by
  cases a with
  | call k args =>
    by_contra hmany
    obtain ⟨b, hb, hlist, hold, hnew, hbit⟩ := h.low.setup_many hmany k
    obtain ⟨hk, ⟨hnone, -⟩ | ⟨compId, a, hsetup, rfl⟩⟩ := ReqState.callStep_cases hstep
    · rw [hb] at hnone
      cases hnone
    · obtain ⟨-, rfl⟩ := Prod.mk.inj (Option.some.inj (hb.symm.trans hsetup))
      obtain ⟨l, hl, hid⟩ := (hgood.bits 0 32).mp hbit
      replace hid : b.id l = 32 := hid
      replace hl : l ∈ b.waitList := hl
      by_cases hlk : l = k
      · rw [hlk, hnew] at hid
        omega
      · rw [hold l hl hlk] at hid
        have hlow := h.low.low l (List.mem_of_ne_of_mem hlk (hlist ▸ hl))
        omega
  | _ => trivial

theorem init : LowRun initialReq := by
  refine ⟨Matched.init.inv, Matched.init.inv.ids, fun k hk => absurd hk List.not_mem_nil, ?_⟩
  intro w b
  constructor
  · intro hset
    exact absurd hset (by simp [initialReq])
  · rintro ⟨k, hk, -⟩
    exact absurd hk List.not_mem_nil

end LowRun

/-- **The allocator does what it is for** throughout a run just if no wait in it is set up while
31 others are outstanding, whoever makes the calls and in whatever order they end. -/
theorem allocated_iff {l : List ReqAction} {st : ReqState}
    (h : reqMachine.run initialReq l = some st) :
    (∀ u, reqMachine.Visits initialReq l u → Allocated u.adapter) ↔
      ∀ u a, reqMachine.Takes initialReq l u a → FewWaiters u a :=
  Machine.visits_iff_takes (K := LowRun) (fun _ hK => hK.low.allocated)
    (fun _ _ _ hK hP hn => hK.step hP hn) (fun _ _ _ hK hn hI => hK.needs hn hI) LowRun.init h

/-- Calls that all wait. -/
def waitingRun (n : Nat) : List ReqAction := (List.range n).map fun k => .call k promiscuous

/-- As many as the condition allows: 31 are on the list, and all is well. -/
theorem allocated_iff_few :
    ∃ st, reqMachine.run initialReq (waitingRun 31) = some st ∧ st.adapter.waitList.length = 31 ∧
      ∀ u, reqMachine.Visits initialReq (waitingRun 31) u → Allocated u.adapter := by
  have hrun : ((reqMachine.guard FewWaiters).run initialReq (waitingRun 31)).map
      (fun st => st.adapter.waitList.length) = some 31 := by
    decide +kernel
  obtain ⟨st, hst, hlength⟩ := Option.map_eq_some_iff.mp hrun
  have hst' := Machine.run_of_guard hst
  exact ⟨st, hst', hlength, (allocated_iff hst').mpr fun _ _ ht => Machine.takes_of_guard hst ht⟩

/-- With 32 entries a bit is set that is the bit of none of them. -/
theorem bit_unowned :
    ∃ st, reqMachine.run initialReq (waitingRun 32) = some st ∧ ¬ Allocated st.adapter ∧
      st.adapter.waitList.map st.adapter.id = (List.range 32).reverse ∧
      (st.adapter.waitBitMap 0).getLsbD 32 = true := by
  have hrun : (reqMachine.run initialReq (waitingRun 32)).map
      (fun st => (st.adapter.waitList.map st.adapter.id, (st.adapter.waitBitMap 0).getLsbD 32)) =
        some ((List.range 32).reverse, true) := by
    decide +kernel
  obtain ⟨st, hst, h⟩ := Option.map_eq_some_iff.mp hrun
  obtain ⟨hids, hbit⟩ := Prod.mk.inj h
  refine ⟨st, hst, fun hgood => ?_, hids, hbit⟩
  obtain ⟨k, hk, hid⟩ := (hgood.bits 0 32).mp hbit
  have hmem : st.adapter.id k ∈ (List.range 32).reverse := hids ▸ List.mem_map_of_mem hk
  rw [hid] at hmem
  exact absurd hmem (by decide)

end Req
end NxNic

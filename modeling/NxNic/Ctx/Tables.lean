import Mathlib.Data.Fintype.EquivFin
import NxNic.Ctx.Destroy
import NxNic.Ctx.Recreation

/-! # The two models of the table of receive contexts

`rx_ctxs` is modelled twice: in the registry (`NxDev`), with the rules and the bits of its
contexts, and in the HAL (`HostNic`), with their states and the default pointers.  Here the two
are one table.

Their states are alike (`Alike`) if they have contexts in the same entries, and the adapter is up
in both or in neither.  **Each step of the registry is a run of the HAL** between states that are
alike: an allocation or a freeing is one of the HAL's or, if it fails, nothing; a rule is nothing;
and a reset of the firmware is a detach, an attach and allocations.  So every run of the registry
that does not go astray is followed by one of the HAL (`tables_alike`).

The loop over the contexts that a detach destroys is in both models.  In states that are alike the
one loop ends just if the other does (`Alike.detach_isSome`): the hole in which
`destroy_stays_at_hole` finds the one is where the reset hangs in the other.
-/
namespace NxNic
namespace Ctx
variable {k : Nat}

/-- The tables have contexts in the same entries; the registry's count is their number, and each
of its contexts is in its own entry. -/
structure SameTable (e : NxDev k) (d : HostNic k) : Prop where
  entries : ∀ i, (d.rxCtxs i).isSome = (e.rxCtxs i).isSome
  count : e.activeRxCtxs = e.live.card
  placed : e.Placed

/-- **The two models are in the same state**, as far as both have one.  Without an attach there is
no transmit context. -/
structure Alike (w : CtxWorld k) (d : HostNic k) : Prop extends SameTable w.dev d where
  up : w.isUp = true ↔ d.isUp ≠ .down
  tx : d.isUp = .down → d.txCtx = none

/-- The HAL gets from one state to another without a change of `is_up` or of the transmit
context. -/
structure Reaches (d t : HostNic k) : Prop where
  leads : (halMachine k false).Leads (fun _ => True) d t
  isUp : t.isUp = d.isUp
  txCtx : t.txCtx = d.txCtx

theorem Reaches.refl (d : HostNic k) : Reaches d d := ⟨.refl, rfl, rfl⟩

theorem Reaches.trans {d t u : HostNic k} (h : Reaches d t) (h' : Reaches t u) : Reaches d u :=
  ⟨h.leads.trans h'.leads, h'.isUp.trans h.isUp, h'.txCtx.trans h.txCtx⟩

section
variable {e e' : NxDev k} {d : HostNic k} {w : CtxWorld k} {i : Fin (k + 1)}

/-! ## The number of contexts -/

theorem SameTable.active (h : SameTable e d) : d.activeRxCtxs = e.activeRxCtxs := by
  have hnodup : ((List.finRange (k + 1)).filter fun i => (d.rxCtxs i).isSome).Nodup :=
    (List.nodup_finRange (k + 1)).filter _
  rw [h.count, HostNic.activeRxCtxs, List.countP_eq_length_filter,
    ← List.toFinset_card_of_nodup hnodup]
  congr 1
  ext i
  rw [List.mem_toFinset, List.mem_filter, NxDev.mem_live, h.entries]
  exact and_iff_right (List.mem_finRange i)

theorem SameTable.packed_iff (h : SameTable e d) : d.Packed ↔ e.Packed := by
  simp only [HostNic.Packed, NxDev.Packed, h.active, h.entries]

theorem SameTable.same (h : SameTable e d) (hsame : NxDev.Same e e') : SameTable e' d where
  entries i := (h.entries i).trans (hsame.isSome i).symm
  count := by rw [hsame.active, hsame.live, h.count]
  placed := hsame.placed h.placed

/-! ## A new context -/

/-- There is room in memory for another context. -/
theorem exists_fresh (d : HostNic k) : ∃ addr, d.Fresh addr := by
  obtain ⟨addr, hnew⟩ :=
    Infinite.exists_notMem_finset (Finset.univ.image fun i => (d.rxAddr i).getD 0)
  refine ⟨addr, fun i hi => hnew (Finset.mem_image.mpr ⟨i, Finset.mem_univ i, ?_⟩)⟩
  rw [hi]
  rfl

/-- The plan of a creation that succeeds. -/
def madePlan (i : Fin (k + 1)) (addr : Nat) : RxPlan k :=
  .ctx i addr (.command none (some nxHostCtxStateActive))

theorem createRx_madePlan {addr : Nat} (hnew : d.Vacant i addr) :
    d.nxNicCreateRxCtx false (madePlan i addr) =
      some (some i, d.rxMade i addr nxHostCtxStateActive) := by
  have hfree : ¬((d.rxCtxs i).isSome = true ∨ ¬d.Fresh addr) := by
    rw [hnew.entry, not_or, not_not]
    exact ⟨Bool.false_ne_true, hnew.fresh⟩
  rw [madePlan, HostNic.nxNicCreateRxCtx]
  dsimp only
  rw [if_neg hfree, HostNic.unmNicNewRxContextPrepare, if_neg Bool.false_ne_true]
  dsimp only
  rw [HostNic.rxMade_rxAlloc]

/-- **A context** that the registry has created has its like in the HAL. -/
theorem SameTable.created (h : SameTable e d) (hc : NxDev.Created e e' i) :
    ∃ addr, d.Vacant i addr ∧ SameTable e' (d.rxMade i addr nxHostCtxStateActive) := by
  obtain ⟨addr, hfresh⟩ := exists_fresh d
  have hnone : d.rxCtxs i = none := by
    rw [← Option.not_isSome_iff_eq_none, h.entries, hc.isOpen.1]
    exact Bool.false_ne_true
  refine ⟨addr, ⟨hnone, hfresh⟩, fun j => ?_, ?_, hc.placed h.placed⟩
  · rw [hc.isSome, HostNic.rxMade_rxCtxs]
    by_cases hj : j = i
    · subst hj
      rw [Function.update_self, decide_eq_true rfl, Bool.or_true]
      rfl
    · rw [Function.update_of_ne hj, h.entries, decide_eq_false hj, Bool.or_false]
  · rw [hc.active, hc.card_live, h.count]

theorem SameTable.reaches_created (h : SameTable e d) (hc : NxDev.Created e e' i) :
    ∃ t, Reaches d t ∧ SameTable e' t := by
  obtain ⟨addr, hnew, hsame⟩ := h.created hc
  have hnext : (halMachine k false).next d (.alloc (madePlan i addr)) =
      some (d.rxMade i addr nxHostCtxStateActive) := by
    show (d.nxNicCreateRxCtx false (madePlan i addr)).map Prod.snd = _
    rw [createRx_madePlan hnew]
    rfl
  exact ⟨_, ⟨.step trivial hnext, rfl, rfl⟩, hsame⟩

/-! ## The operations -/

/-- **An allocation**. -/
theorem SameTable.alloc (hk : k < 32) (h : SameTable e d) (o : AllocOutcome) :
    ∃ t, Reaches d t ∧ SameTable (e.nxNicMultictxAllocRxCtx o).2 t := by
  rcases e.alloc_cases hk o with
    ⟨-, halloc⟩ | ⟨-, i, e', hcreated, -, -, ⟨-, halloc, -⟩ | ⟨-, halloc, -⟩⟩
  · rw [halloc]
    exact ⟨d, .refl d, h⟩
  · rw [halloc]
    exact h.reaches_created hcreated
  · rw [halloc]
    exact h.reaches_created hcreated

/-- A round of `nx_reset_netq_rx_queues`. -/
theorem SameTable.resetRound (hk : k < 32) (h : SameTable e d) (o : AllocOutcome) :
    ∃ t, Reaches d t ∧ SameTable (e.resetRound o) t := by
  rcases e.resetRound_cases hk o with ⟨-, hround⟩ | ⟨-, i, hcreated⟩
  · rw [hround]
    exact ⟨d, .refl d, h⟩
  · exact h.reaches_created hcreated

theorem SameTable.resetQueues (hk : k < 32) (h : SameTable e d) {outs : List AllocOutcome}
    (hreset : e.nxResetNetqRxQueues outs = some e') : ∃ t, Reaches d t ∧ SameTable e' t := by
  obtain ⟨r, hloop, rfl⟩ := Option.map_eq_some_iff.mp hreset
  have hstart : SameTable ({ e with rxCtxsState := ~~~e.rxCtxsState } : NxDev k) d :=
    ⟨h.entries, h.count, h.placed⟩
  have hround : ∀ r, ∀ o ∈ outs, (∃ t, Reaches d t ∧ SameTable r t) →
      ∃ t, Reaches d t ∧ SameTable (r.resetRound o) t := by
    rintro r o - ⟨t, ht, hr⟩
    obtain ⟨u, hu, hsame⟩ := hr.resetRound hk o
    exact ⟨u, ht.trans hu, hsame⟩
  obtain ⟨t, hreaches, hsame⟩ := NxDev.resetLoop_keeps
    (I := fun r => ∃ t, Reaches d t ∧ SameTable r t) hround ⟨d, .refl d, hstart⟩ hloop
  exact ⟨t, hreaches, hsame.entries, hsame.count, hsame.placed⟩

/-- **Freeing a context**. -/
theorem SameTable.free (h : SameTable e d) {id : Int} {beyond ok : Bool}
    (hfree : e.nxNicMultictxFreeRxCtx id beyond = .returned ok e') :
    ∃ t, Reaches d t ∧ SameTable e' t := by
  rw [NxDev.nxNicMultictxFreeRxCtx] at hfree
  split at hfree
  · obtain ⟨-, rfl⟩ := NxDev.Result.returned.inj hfree
    exact ⟨d, .refl d, h⟩
  · cases hentry : e.entry id beyond with
    | foreign =>
      rw [hentry] at hfree
      cases hfree
    | null =>
      rw [hentry] at hfree
      obtain ⟨-, rfl⟩ := NxDev.Result.returned.inj hfree
      exact ⟨d, .refl d, h⟩
    | ctx i c =>
      rw [hentry] at hfree
      obtain ⟨-, rfl⟩ := NxDev.Result.returned.inj hfree
      have hc := NxDev.entry_eq_ctx hentry
      have hfreed := NxDev.freed_free h.placed h.count hc
      obtain ⟨c', hc'⟩ : ∃ c', d.rxCtxs i = some c' := by
        rw [← Option.isSome_iff_exists, h.entries, hc]
        rfl
      have hdestroyed := HostNic.destroyRx_same d c'
      have hnext : (halMachine k false).next d (.free i) =
          some ((d.nxFwCmdDestroyRxCtx c').rxFree i) := by
        show some (d.nxNicMultictxFreeRxCtx i) = _
        rw [HostNic.nxNicMultictxFreeRxCtx, hc']
      refine ⟨_, ⟨.step trivial hnext, hdestroyed.isUp, hdestroyed.txCtx⟩, fun j => ?_,
        hfreed.active, hfreed.placed⟩
      show _ = ((e.nxFwCmdCreateRxCtxFree c).rxCtxs j).isSome
      rw [HostNic.rxFree_rxCtxs, hfreed.table, hdestroyed.rxCtxs]
      by_cases hj : j = i
      · rw [hj, Function.update_self, Function.update_self]
        rfl
      · rw [Function.update_of_ne hj, Function.update_of_ne hj, h.entries]

/-! ## A reset of the firmware -/

/-- The HAL's loop ends just where the contexts are in the first entries. -/
theorem destroyRx_isSome_iff (d : HostNic k) :
    d.unmNicNewRxContextDestroy.isSome = true ↔ d.Packed := by
  constructor
  · intro hsome i hi
    obtain ⟨t, ht⟩ := Option.isSome_iff_exists.mp hsome
    exact HostNic.destroyRxLoop_live ht i (Bits.mem_take_finRange.mpr hi)
  · intro hpacked
    exact HostNic.destroyRxLoop_isSome fun i hi => hpacked i (Bits.mem_take_finRange.mp hi)

/-- **The detach ends in the one model just if it ends in the other.** -/
theorem Alike.detach_isSome (h : Alike w d) :
    (w.dev.unmNicDetach false w.isUp).isSome = (d.unmNicDetach false).isSome := by
  rw [Bool.eq_iff_iff, Option.isSome_iff_exists]
  simp only [NxDev.detach_eq_some, exists_and_left, exists_eq, and_true]
  rw [HostNic.unmNicDetach, Option.isSome_map]
  by_cases hdown : d.isUp = .down
  · rw [if_pos hdown]
    exact iff_of_true (fun hup => absurd hdown (h.up.mp hup)) rfl
  · rw [if_neg hdown, HostNic.unmNicFreeRingContextInFw, if_neg Bool.false_ne_true,
      Option.isSome_map, destroyRx_isSome_iff, h.packed_iff]
    exact ⟨fun hpacked => hpacked (h.up.mpr hdown) trivial, fun hpacked _ _ => hpacked⟩

/-- **The detach** leaves nothing in either table. -/
theorem Alike.detached (h : Alike w d) (hdetach : w.dev.unmNicDetach false w.isUp = some e) :
    ∃ t, d.unmNicDetach false = some t ∧ t.isUp = .down ∧ t.txCtx = none ∧
      SameTable e t ∧ ∀ i, t.rxCtxs i = none := by
  have hends := h.detach_isSome
  rw [hdetach] at hends
  obtain ⟨t, ht⟩ := Option.isSome_iff_exists.mp hends.symm
  obtain ⟨-, rfl⟩ := NxDev.detach_eq_some.mp hdetach
  have hgone := NxDev.detached h.placed h.count
  have hempty : ∀ i, w.dev.unmNicFreeRingContext.rxCtxs i = none := fun i => by rw [hgone]
  have hlive : w.dev.unmNicFreeRingContext.live = ∅ := by
    refine Finset.eq_empty_of_forall_notMem fun i hi => ?_
    rw [NxDev.mem_live, hempty] at hi
    exact absurd hi Bool.false_ne_true
  have htable : ∀ t : HostNic k, (∀ i, t.rxCtxs i = none) →
      SameTable w.dev.unmNicFreeRingContext t := by
    intro t hnone
    refine ⟨fun i => ?_, ?_, fun i c hc => ?_⟩
    · exact (congrArg Option.isSome (hnone i)).trans (congrArg Option.isSome (hempty i)).symm
    · rw [hlive, hgone]
      rfl
    · rw [hempty] at hc
      cases hc
  refine ⟨t, ht, ?_⟩
  rw [HostNic.unmNicDetach] at ht
  obtain ⟨u, hu, rfl⟩ := Option.map_eq_some_iff.mp ht
  refine ⟨rfl, ?_, htable _ fun _ => rfl, fun _ => rfl⟩
  show u.txCtx = none
  by_cases hdown : d.isUp = .down
  · rw [if_pos hdown] at hu
    exact Option.some.inj hu ▸ h.tx hdown
  · rw [if_neg hdown, HostNic.unmNicFreeRingContextInFw, if_neg Bool.false_ne_true] at hu
    obtain ⟨v, -, rfl⟩ := Option.map_eq_some_iff.mp hu
    exact (HostNic.destroyTx_rest v).1

theorem up_ne_down : IsUp.adapterUpMagic ≠ IsUp.down := fun h => IsUp.noConfusion h

/-- The attach in which a receive context is created in the first entry and all else succeeds. -/
def upPlan (k addr : Nat) : AttachPlan k :=
  ⟨false, false, madePlan (firstId k) addr, false, .command 0 (some nxHostCtxStateActive), false,
    false⟩

theorem attach_upPlan {addr : Nat} (hdown : d.isUp = .down) (htx : d.txCtx = none)
    (hnew : d.Vacant (firstId k) addr) :
    d.unmNicAttach false (upPlan k addr) =
      some { (d.rxMade (firstId k) addr nxHostCtxStateActive).txMade 0 nxHostCtxStateActive with
        isUp := .adapterUpMagic } := by
  have hstart : ¬(d.isUp = .adapterUpMagic ∨ (upPlan k addr).earlyFails = true) := by
    rw [hdown]
    exact not_or.mpr ⟨up_ne_down.symm, Bool.false_ne_true⟩
  have hmade : (((d.rxMade (firstId k) addr nxHostCtxStateActive).txMade 0
      nxHostCtxStateActive).rxCtxs (firstId k)).isNone = false := by
    show (Function.update d.rxCtxs (firstId k) _ (firstId k)).isNone = false
    rw [Function.update_self]
    rfl
  have hblocks : ¬(upPlan k addr).blocksFail = true := Bool.false_ne_true
  have hpexq : ¬(upPlan k addr).pexqFails = true := Bool.false_ne_true
  rw [HostNic.unmNicAttach, if_neg hstart, if_neg hblocks]
  rw [show (upPlan k addr).rx = madePlan (firstId k) addr from rfl, createRx_madePlan hnew]
  dsimp only
  have hprepare : (d.rxMade (firstId k) addr nxHostCtxStateActive).unmNicNewTxContextPrepare
      (upPlan k addr).tx =
        (true, (d.rxMade (firstId k) addr nxHostCtxStateActive).txMade 0 nxHostCtxStateActive) := by
    have hnone : ¬(d.rxMade (firstId k) addr nxHostCtxStateActive).txCtx.isSome = true := by
      rw [show (d.rxMade (firstId k) addr nxHostCtxStateActive).txCtx = none from htx]
      exact Bool.false_ne_true
    rw [show (upPlan k addr).tx = .command 0 (some nxHostCtxStateActive) from rfl,
      HostNic.unmNicNewTxContextPrepare.eq_def, if_neg hnone]
  have hbufs : ¬(upPlan k addr).bufsFail = true := Bool.false_ne_true
  have hirq : ¬(upPlan k addr).irqFails = true := Bool.false_ne_true
  rw [HostNic.attachMade, if_neg Bool.false_ne_true, if_neg hpexq, hprepare]
  dsimp only
  rw [HostNic.attachRest, if_neg hbufs, hmade, if_neg Bool.false_ne_true, if_neg hirq]

/-- **The attach** after a detach. -/
theorem SameTable.attach (h : SameTable e d) (hdown : d.isUp = .down) (htx : d.txCtx = none)
    (hempty : ∀ i, d.rxCtxs i = none) {isUp : Bool} (hattach : e.attach = some (isUp, e')) :
    ∃ t, (halMachine k false).Leads (fun _ => True) d t ∧ SameTable e' t ∧
      (isUp = true ↔ t.isUp ≠ .down) ∧ (t.isUp = .down → t.txCtx = none) := by
  rw [NxDev.attach] at hattach
  cases hfound : e.findOpenRxId with
  | none =>
    -- no context can be had, and the attach frees what there is: nothing
    rw [NxDev.create_fails (.inr (NxDev.findOpenRxId_eq_none.mp hfound))] at hattach
    obtain ⟨rfl, rfl⟩ := Prod.mk.inj (Option.some.inj hattach)
    have hstart : ¬(d.isUp = .adapterUpMagic ∨ false = true) := by
      rw [hdown]
      exact not_or.mpr ⟨up_ne_down.symm, Bool.false_ne_true⟩
    have hnext : (halMachine k false).next d
        (.attach ⟨false, false, .noCtx, false, .noMem, false, false⟩) =
          some d.unmNicFreeRingContext := by
      show d.unmNicAttach false _ = _
      rw [HostNic.unmNicAttach, if_neg hstart, if_neg Bool.false_ne_true]
      rfl
    refine ⟨_, .step trivial hnext, ⟨fun i => ?_, h.count, h.placed⟩,
      iff_of_false Bool.false_ne_true fun hup => hup hdown, fun _ => htx⟩
    rw [← h.entries, hempty]
    rfl
  | some i =>
    rw [NxDev.create_succeeds hfound] at hattach
    obtain ⟨hi, hattach⟩ := Option.ite_none_right_eq_some.mp hattach
    obtain ⟨rfl, rfl⟩ := Prod.mk.inj (Option.some.inj hattach)
    obtain rfl : i = firstId k := Fin.ext hi
    obtain ⟨addr, hnew, hsame⟩ := h.created (NxDev.created_alloc hfound)
    have hnext : (halMachine k false).next d (.attach (upPlan k addr)) = some _ :=
      attach_upPlan hdown htx hnew
    exact ⟨_, .step trivial hnext, ⟨hsame.entries, hsame.count, hsame.placed⟩,
      iff_of_true rfl up_ne_down, fun h => absurd h up_ne_down⟩

/-- **A reset** of the firmware that does not go astray. -/
theorem Alike.reset (hk : k < 32) (h : Alike w d) {attached : Bool} {outs : List AllocOutcome}
    {u : CtxWorld k} (hu : w.reset false attached outs = some u) (hastray : u.astray = false) :
    ∃ t, (halMachine k false).Leads (fun _ => True) d t ∧ Alike u t := by
  obtain ⟨e, hdetach, hu⟩ := Option.bind_eq_some_iff.mp hu
  obtain ⟨d₁, hd₁, hdown, htx, hsame, hempty⟩ := h.detached hdetach
  have hfirst : (halMachine k false).Leads (fun _ => True) d d₁ :=
    .step (a := .detach) trivial hd₁
  rw [CtxWorld.netxenNicAttachAllPorts] at hu
  cases hattach : (if attached then e.attach else some (false, e)) with
  | none =>
    rw [hattach] at hu
    obtain rfl := Option.some.inj hu
    cases hastray
  | some r =>
    obtain ⟨isUp, e₂⟩ := r
    rw [hattach] at hu
    obtain ⟨e₃, hreset, rfl⟩ := Option.map_eq_some_iff.mp hu
    have hsecond : ∃ d₂, (halMachine k false).Leads (fun _ => True) d₁ d₂ ∧ SameTable e₂ d₂ ∧
        (isUp = true ↔ d₂.isUp ≠ .down) ∧ (d₂.isUp = .down → d₂.txCtx = none) := by
      cases attached with
      | true => exact hsame.attach hdown htx hempty hattach
      | false =>
        obtain ⟨rfl, rfl⟩ := Prod.mk.inj (Option.some.inj hattach)
        exact ⟨d₁, .refl, hsame, iff_of_false Bool.false_ne_true fun hup => hup hdown,
          fun _ => htx⟩
    obtain ⟨d₂, hleads, hsame₂, hup₂, htx₂⟩ := hsecond
    obtain ⟨d₃, hreaches, hsame₃⟩ := hsame₂.resetQueues hk hreset
    refine ⟨d₃, (hfirst.trans hleads).trans hreaches.leads, { hsame₃ with up := ?_, tx := ?_ }⟩
    · rw [hreaches.isUp]
      exact hup₂
    · rw [hreaches.isUp, hreaches.txCtx]
      exact htx₂

end

/-! ## Runs -/

/-- A step of the registry that leaves `is_up` alone is matched if its table is. -/
theorem Alike.reached {w u : CtxWorld k} {d t : HostNic k} (h : Alike w d) (hreaches : Reaches d t)
    (hsame : SameTable u.dev t) (hup : u.isUp = w.isUp) : Alike u t where
  toSameTable := hsame
  up := by
    rw [hup, hreaches.isUp]
    exact h.up
  tx := by
    rw [hreaches.isUp, hreaches.txCtx]
    exact h.tx

/-- **One step** of the registry. -/
theorem Alike.next (hk : k < 32) {w u : CtxWorld k} {d : HostNic k} (h : Alike w d)
    {a : CtxAction} (hnext : (ctxMachine k).next w a = some u) (hastray : u.astray = false) :
    ∃ t, (halMachine k false).Leads (fun _ => True) d t ∧ Alike u t := by
  obtain ⟨-, hnext⟩ := Option.ite_none_left_eq_some.mp hnext
  -- a call on rules leaves the places of the contexts
  have hrule : ∀ {id : Int} {beyond : Bool} {r : NxDev.Result k},
      NxDev.RuleResult w.dev id beyond r → some (w.takes r) = some u →
      ∃ t, (halMachine k false).Leads (fun _ => True) d t ∧ Alike u t := by
    intro id beyond r hr hu
    obtain rfl := Option.some.inj hu
    cases r with
    | astray => cases hastray
    | returned ok e =>
      exact ⟨d, .refl, h.reached (.refl d) (h.toSameTable.same (hr.2 ok e rfl)) rfl⟩
  cases a with
  | alloc o =>
    obtain ⟨t, hreaches, hsame⟩ := h.toSameTable.alloc hk o
    refine ⟨t, hreaches.leads, ?_⟩
    obtain rfl := Option.some.inj hnext
    rw [CtxWorld.alloc]
    cases halloc : w.dev.nxNicMultictxAllocRxCtx o with
    | mk i e =>
      rw [halloc] at hsame
      cases i with
      | none => exact h.reached hreaches hsame rfl
      | some i => exact h.reached hreaches hsame rfl
  | free id beyond =>
    obtain rfl := Option.some.inj hnext
    cases hfree : w.dev.nxNicMultictxFreeRxCtx id beyond with
    | astray =>
      rw [hfree] at hastray
      cases hastray
    | returned ok e =>
      obtain ⟨t, hreaches, hsame⟩ := h.toSameTable.free hfree
      exact ⟨t, hreaches.leads, h.reached hreaches hsame rfl⟩
  | setRule id beyond mac taken => exact hrule (NxDev.setRxRule_result ..) hnext
  | removeRule id beyond ruleId taken => exact hrule (NxDev.removeRxRule_result ..) hnext
  | reset attached outs => exact h.reset hk hnext hastray

/-- The registry and the HAL are alike after `nx_os_dev_alloc` and the attach. -/
theorem alike_init (attached : Bool) (saved : Fin (k + 1) → RxRule) :
    ∃ d, (halMachine k false).Leads (fun _ => True) (.initial k) d ∧
      Alike (.init attached saved) d := by
  obtain ⟨hreg, hplaced⟩ := CtxWorld.kept_init attached saved
  have hcount := hreg.consistent.active
  cases attached with
  | false =>
    exact ⟨.initial k, .refl, ⟨fun _ => rfl, hcount, hplaced⟩,
      iff_of_false Bool.false_ne_true fun hup => hup rfl, fun _ => rfl⟩
  | true =>
    have hnew : (HostNic.initial k).Vacant (firstId k) 1 := ⟨rfl, fun i hi => by cases hi⟩
    have hnext : (halMachine k false).next (.initial k) (.attach (upPlan k 1)) = some _ :=
      attach_upPlan rfl rfl hnew
    refine ⟨_, .step trivial hnext, ⟨fun i => ?_, hcount, hplaced⟩, iff_of_true rfl up_ne_down,
      fun h => absurd h up_ne_down⟩
    by_cases hi : i = firstId k
    · subst hi
      rfl
    · have hhal : Function.update (HostNic.initial k).rxCtxs (firstId k)
          (some ⟨1, nxHostCtxStateActive⟩) i = none := Function.update_of_ne hi _ _
      have hregistry : (CtxWorld.init true saved).dev.rxCtxs i = none := NxDev.alloc_of_ne _ hi
      exact (congrArg Option.isSome hhal).trans (congrArg Option.isSome hregistry).symm

/-- **The registry runs on the HAL's table**: whatever the registry does, unless it goes astray, the
HAL can do, with contexts in the same entries. -/
theorem tables_alike (hk : k < 32) {attached : Bool} {saved : Fin (k + 1) → RxRule}
    {l : List CtxAction} {w : CtxWorld k}
    (h : (ctxMachine k).run (.init attached saved) l = some w) (hw : w.astray = false) :
    ∃ d, (halMachine k false).Leads (fun _ => True) (.initial k) d ∧ Alike w d := by
  obtain ⟨d₀, hstart, halike⟩ := alike_init attached saved
  have hstep : ∀ w a u d, (w.astray = false → Alike w d) → (ctxMachine k).next w a = some u →
      ∃ t, (halMachine k false).Leads (fun _ => True) d t ∧ (u.astray = false → Alike u t) := by
    intro w a u d hwd hnext
    obtain ⟨hgoes, -⟩ := Option.ite_none_left_eq_some.mp hnext
    have hwd := hwd (Bool.not_eq_true _ ▸ hgoes)
    by_cases hu : u.astray = false
    · obtain ⟨t, hleads, ht⟩ := hwd.next hk hnext hu
      exact ⟨t, hleads, fun _ => ht⟩
    · exact ⟨d, .refl, fun h => absurd h hu⟩
  obtain ⟨d, hleads, hd⟩ := (ctxMachine k).run_simulates hstep (fun _ => halike) h
  exact ⟨d, hstart.trans hleads, hd hw⟩

end Ctx
end NxNic

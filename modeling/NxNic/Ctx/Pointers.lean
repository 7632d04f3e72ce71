import NxNic.Ctx.Defaults

/-! # The default contexts exist

`default_rx_ctx` and `default_tx_ctx` are set when a context is made and cleared on some of the
paths that free one.  The state is the `HostNic` of `Ctx/Defaults`, in which a context
has an address, so that a pointer can outlive what it points to; a step is an attach, a detach, the
death of the firmware, or a receive context allocated or freed for a queue.

`PointersValid` is the property: a default pointer is `NULL` or that of a context in the table.

It holds as long as no context is freed that the pointer is still set to.  With the firmware 4.0
this needs that the context is destroyed first, and that `nx_fw_cmd_destroy_rx_ctx` takes the state
that the firmware has given it, for above `NX_HOST_CTX_STATE_MAX` it returns early; with 3.4
nothing clears the pointers.  `KeepsAttach` and `KeepsDetach` say what that is for each point at
which a call can fail.

What runs keep is `Kept`, which adds to the property that no two contexts share an address.  What
`nx_nic_create_rx_ctx` can do is said once, in `Created`, and each way out of an attach is
compared with it; `defaults_valid_iff` is the result over runs.
-/
namespace NxNic
namespace Ctx

namespace HostNic
variable {k : Nat} (d : HostNic k)

/-- **The property**: each default pointer is `NULL` or that of a context in the table. -/
structure PointersValid : Prop where
  rx : ∀ a ∈ d.defaultRxCtx, ∃ i, d.rxAddr i = some a
  tx : ∀ a ∈ d.defaultTxCtx, ∃ c ∈ d.txCtx, c.addr = a

/-! ## The conditions -/

/-- The default receive context, if there is one, can be destroyed in its state. -/
def RxCleared : Prop :=
  ∀ a ∈ d.defaultRxCtx, ∃ i, ∃ c ∈ d.rxCtxs i, c.addr = a ∧ c.state ≤ nxHostCtxStateMax

def TxCleared : Prop :=
  ∀ a ∈ d.defaultTxCtx, ∃ c ∈ d.txCtx, c.addr = a ∧ c.state ≤ nxHostCtxStateMax

end HostNic

/-- The firmware is asked for the context. -/
def RxPlan.InFw {k : Nat} : RxPlan k → Prop
  | .ctx _ _ (.command _ _) => True
  | _ => False

/-- The state that the firmware 4.0 returns for the context. -/
def RxPlan.state {k : Nat} : RxPlan k → Option (BitVec 32)
  | .ctx _ _ (.command _ state) => state
  | _ => none

theorem RxPlan.inFw_of_state {k : Nat} {plan : RxPlan k} {state : BitVec 32}
    (h : plan.state = some state) : plan.InFw := by
  cases plan with
  | noCtx => cases h
  | ctx i addr outcome =>
    cases outcome with
    | ringsFail => cases h
    | noDma => cases h
    | command tx s => trivial

def TxPlan.state : TxPlan → Option (BitVec 32)
  | .command _ state => state
  | _ => none

namespace HostNic
variable {k : Nat} (d : HostNic k)

/-- The default receive context once the plan's context is made can be destroyed: it is the one
there is, or else the plan's. -/
def RxClearedWith (plan : RxPlan k) : Prop :=
  d.RxCleared ∧ (d.defaultRxCtx = none → ∀ s ∈ plan.state, s ≤ nxHostCtxStateMax)

/-- `unm_nic_free_ring_context_in_fw` clears the default pointers, or they are clear. -/
def Clears (fwV34 : Bool) : Prop :=
  if fwV34 then d.defaultRxCtx = none ∧ d.defaultTxCtx = none else d.RxCleared ∧ d.TxCleared

/-- The condition on an attach with the firmware 3.4, when a receive context is made in entry
`i`. -/
def KeepsV34 (plan : AttachPlan k) (i : Fin (k + 1)) : Prop :=
  (i.val ≠ 0 → d.defaultRxCtx = none ∧ ¬plan.rx.InFw) ∧
    (i.val = 0 → plan.bufsFail = true ∨ plan.irqFails = true →
      d.defaultRxCtx = none ∧ d.defaultTxCtx = none ∧ ¬plan.rx.InFw)

/-- The condition on an attach with the firmware 4.0, when a receive context is made: by what
fails after it. -/
def KeepsV40 (plan : AttachPlan k) : Prop :=
  if plan.pexqFails then d.defaultRxCtx = none ∧ ¬plan.rx.InFw
  else if (d.unmNicNewTxContextPrepare plan.tx).1 = false then d.RxClearedWith plan.rx
  else if plan.bufsFail = true ∨ plan.irqFails = true then
    d.RxClearedWith plan.rx ∧ ∀ s ∈ plan.tx.state, s ≤ nxHostCtxStateMax
  else True

/-- The condition on an attach that has got so far, by what `nx_nic_create_rx_ctx` returns. -/
def KeepsCreated (fwV34 : Bool) (plan : AttachPlan k) :
    Option (Option (Fin (k + 1)) × HostNic k) → Prop
  | none => True
  | some (none, _) => d.defaultRxCtx = none
  | some (some i, _) => if fwV34 then d.KeepsV34 plan i else d.KeepsV40 plan

/-- **The condition on an attach**: one that fails after it has begun to allocate frees the
receive contexts. -/
def KeepsAttach (fwV34 : Bool) (plan : AttachPlan k) : Prop :=
  d.isUp = .adapterUpMagic ∨ plan.earlyFails = true ∨
    if plan.blocksFail then d.defaultRxCtx = none
    else d.KeepsCreated fwV34 plan (d.nxNicCreateRxCtx fwV34 plan.rx)

/-- **The condition on a detach**: contexts are destroyed first only when the adapter is up, and
only by the firmware 4.0. -/
def KeepsDetach (fwV34 : Bool) : Prop :=
  if d.isUp = .down then d.defaultRxCtx = none else d.Clears fwV34

end HostNic

/-- **The condition** on an operation. -/
def HalAction.Keeps {k : Nat} (fwV34 : Bool) (d : HostNic k) : HalAction k → Prop
  | .attach plan => d.KeepsAttach fwV34 plan
  | .detach => d.KeepsDetach fwV34
  | .free i =>
    ∀ c ∈ d.rxCtxs i, d.defaultRxCtx = some c.addr → c.state ≤ nxHostCtxStateMax
  | _ => True

namespace HostNic
variable {k : Nat} {d t : HostNic k}

/-! ## Destroying -/

/-- No two receive contexts are at one address. -/
def Apart (d : HostNic k) : Prop := ∀ i j a, d.rxAddr i = some a → d.rxAddr j = some a → i = j

/-- The pointers are valid, and no two contexts are at one address. -/
structure Kept (d : HostNic k) : Prop extends d.PointersValid where
  apart : d.Apart

/-- Two states differ in the default receive context only. -/
structure SameButRx (d t : HostNic k) : Prop where
  rxCtxs : t.rxCtxs = d.rxCtxs
  txCtx : t.txCtx = d.txCtx
  defaultTxCtx : t.defaultTxCtx = d.defaultTxCtx
  isUp : t.isUp = d.isUp

theorem SameButRx.refl (d : HostNic k) : SameButRx d d := ⟨rfl, rfl, rfl, rfl⟩

theorem SameButRx.trans {u : HostNic k} (h : SameButRx d t) (h' : SameButRx t u) :
    SameButRx d u :=
  ⟨h'.rxCtxs.trans h.rxCtxs, h'.txCtx.trans h.txCtx, h'.defaultTxCtx.trans h.defaultTxCtx,
    h'.isUp.trans h.isUp⟩

theorem destroyRx_same (d : HostNic k) (c : HostCtx) : SameButRx d (d.nxFwCmdDestroyRxCtx c) := by
  rw [nxFwCmdDestroyRxCtx]
  split
  · exact .refl d
  · split
    · exact ⟨rfl, rfl, rfl, rfl⟩
    · exact .refl d

/-- Destroying a context leaves the default pointer `NULL` just if it was, or was this context's
and the state is one that is taken. -/
theorem destroyRx_default (d : HostNic k) (c : HostCtx) :
    (d.nxFwCmdDestroyRxCtx c).defaultRxCtx =
      if d.defaultRxCtx = some c.addr ∧ c.state ≤ nxHostCtxStateMax then none
      else d.defaultRxCtx := by
  rw [nxFwCmdDestroyRxCtx]
  by_cases hmax : nxHostCtxStateMax < c.state
  · rw [if_pos hmax, if_neg fun h => absurd hmax (BitVec.not_lt.mpr h.2)]
  · have hle : c.state ≤ nxHostCtxStateMax := BitVec.not_lt.mp hmax
    rw [if_neg hmax]
    by_cases hdefault : d.defaultRxCtx = some c.addr
    · rw [if_pos hdefault, if_pos ⟨hdefault, hle⟩]
    · rw [if_neg hdefault, if_neg fun h => hdefault h.1]

theorem destroyRxLoop_same {l : List (Fin (k + 1))} (h : destroyRxLoop l d = some t) :
    SameButRx d t := by
  induction l generalizing d with
  | nil => exact Option.some.inj h ▸ .refl d
  | cons i rest ih =>
    rw [destroyRxLoop] at h
    split at h
    · cases h
    · exact (destroyRx_same d _).trans (ih h)

/-- The loop clears the default pointer just if one of its entries holds the context, in a state
that is taken. -/
theorem destroyRxLoop_default {l : List (Fin (k + 1))} (h : destroyRxLoop l d = some t) :
    t.defaultRxCtx = none ↔ ∀ a ∈ d.defaultRxCtx, ∃ i ∈ l, ∃ c ∈ d.rxCtxs i,
      c.addr = a ∧ c.state ≤ nxHostCtxStateMax := by
  induction l generalizing d with
  | nil =>
    obtain rfl := Option.some.inj h
    refine ⟨fun hnone a ha => absurd (hnone.symm.trans ha) nofun, fun hall => ?_⟩
    refine Option.eq_none_iff_forall_not_mem.mpr fun a ha => ?_
    obtain ⟨i, hi, -⟩ := hall a ha
    exact absurd hi List.not_mem_nil
  | cons i rest ih =>
    rw [destroyRxLoop] at h
    split at h
    · cases h
    · rename_i c hc
      have hsame := destroyRx_same d c
      rw [ih h, destroyRx_default, hsame.rxCtxs]
      by_cases hclears : d.defaultRxCtx = some c.addr ∧ c.state ≤ nxHostCtxStateMax
      · rw [if_pos hclears]
        refine iff_of_true nofun fun a ha => ?_
        obtain rfl := Option.some.inj (hclears.1.symm.trans ha)
        exact ⟨i, List.mem_cons_self, c, hc, rfl, hclears.2⟩
      · rw [if_neg hclears]
        constructor
        · intro hall a ha
          obtain ⟨j, hj, hrest⟩ := hall a ha
          exact ⟨j, List.mem_cons_of_mem i hj, hrest⟩
        · intro hall a ha
          obtain ⟨j, hj, c', hc', haddr, hstate⟩ := hall a ha
          rcases List.mem_cons.mp hj with rfl | hj
          · obtain rfl := Option.some.inj (hc.symm.trans hc')
            exact absurd ⟨haddr ▸ ha, hstate⟩ hclears
          · exact ⟨j, hj, c', hc', haddr, hstate⟩

/-- A loop that ends has found no entry `NULL`. -/
theorem destroyRxLoop_live {l : List (Fin (k + 1))} (h : destroyRxLoop l d = some t) :
    ∀ i ∈ l, (d.rxCtxs i).isSome = true := by
  induction l generalizing d with
  | nil => exact fun i hi => absurd hi List.not_mem_nil
  | cons i rest ih =>
    rw [destroyRxLoop] at h
    split at h
    · cases h
    · rename_i c hc
      intro j hj
      rcases List.mem_cons.mp hj with rfl | hj
      · rw [hc]
        rfl
      · exact (destroyRx_same d c).rxCtxs ▸ ih h j hj

theorem destroyRxLoop_isSome {l : List (Fin (k + 1))}
    (h : ∀ i ∈ l, (d.rxCtxs i).isSome = true) : (destroyRxLoop l d).isSome = true := by
  induction l generalizing d with
  | nil => rfl
  | cons i rest ih =>
    obtain ⟨c, hc⟩ := Option.isSome_iff_exists.mp (h i List.mem_cons_self)
    rw [destroyRxLoop, hc]
    refine ih fun j hj => ?_
    rw [(destroyRx_same d c).rxCtxs]
    exact h j (List.mem_cons_of_mem i hj)

/-- Where the first entries are as many as there are that meet `p` and all meet it, no other
does. -/
theorem mem_take_countP {α : Type} {p : α → Bool} {l : List α}
    (h : ∀ a ∈ l.take (l.countP p), p a = true) {a : α} (ha : a ∈ l) (hp : p a = true) :
    a ∈ l.take (l.countP p) := by
  have hsplit := List.take_append_drop (l.countP p) l
  have hfirst : (l.take (l.countP p)).countP p = l.countP p := by
    rw [List.countP_eq_length.mpr h, List.length_take, Nat.min_eq_left List.countP_le_length]
  have hrest : (l.drop (l.countP p)).countP p = 0 := by
    have hcount := congrArg (List.countP p) hsplit
    rw [List.countP_append, hfirst] at hcount
    omega
  rw [← hsplit] at ha
  rcases List.mem_append.mp ha with ha | ha
  · exact ha
  · exact absurd hp (List.countP_eq_zero.mp hrest a ha)

/-- `unm_nic_new_rx_context_destroy` clears the default pointer just if it can be. -/
theorem destroyAll_default (h : d.unmNicNewRxContextDestroy = some t) :
    t.defaultRxCtx = none ↔ d.RxCleared := by
  have hlive := destroyRxLoop_live h
  rw [destroyRxLoop_default h]
  refine forall_congr' fun a => imp_congr_right fun _ => ?_
  constructor
  · intro hin
    obtain ⟨i, -, hctx⟩ := hin
    exact ⟨i, hctx⟩
  · intro hin
    obtain ⟨i, c, hc, hrest⟩ := hin
    refine ⟨i, mem_take_countP hlive (List.mem_finRange i) ?_, c, hc, hrest⟩
    rw [Option.mem_def.mp hc]
    rfl

/-! ## Freeing -/

/-- Once the receive contexts are freed, the pointers are valid just if the one to a receive
context is clear. -/
theorem freeRing_valid (htx : ∀ a ∈ d.defaultTxCtx, ∃ c ∈ d.txCtx, c.addr = a) :
    d.unmNicFreeRingContext.PointersValid ↔ d.defaultRxCtx = none := by
  constructor
  · intro hvalid
    refine Option.eq_none_iff_forall_not_mem.mpr fun a ha => ?_
    obtain ⟨i, hi⟩ := hvalid.rx a ha
    exact absurd hi nofun
  · intro hnone
    exact ⟨fun a ha => absurd (hnone.symm.trans ha) nofun, htx⟩

theorem freeRing_apart (d : HostNic k) : d.unmNicFreeRingContext.Apart :=
  fun _ _ _ hi => absurd hi nofun

/-- Without a transmit context, the valid pointer to it is clear. -/
theorem defaultTx_none (htx : ∀ a ∈ d.defaultTxCtx, ∃ c ∈ d.txCtx, c.addr = a)
    (hnone : d.txCtx = none) : d.defaultTxCtx = none := by
  refine Option.eq_none_iff_forall_not_mem.mpr fun a ha => ?_
  obtain ⟨c, hc, -⟩ := htx a ha
  exact absurd (hnone.symm.trans hc) nofun

/-- `unm_nic_new_tx_context_destroy` frees the transmit context, and leaves the rest. -/
theorem destroyTx_rest (d : HostNic k) :
    d.unmNicNewTxContextDestroy.txCtx = none ∧
      d.unmNicNewTxContextDestroy.defaultRxCtx = d.defaultRxCtx := by
  rw [unmNicNewTxContextDestroy]
  split
  · rename_i hnone
    exact ⟨hnone, rfl⟩
  · rename_i c _
    refine ⟨rfl, ?_⟩
    show (d.nxFwCmdDestroyTxCtx c).defaultRxCtx = d.defaultRxCtx
    rw [nxFwCmdDestroyTxCtx]
    split
    · rfl
    · split <;> rfl

theorem destroyTx_default (htx : ∀ a ∈ d.defaultTxCtx, ∃ c ∈ d.txCtx, c.addr = a) :
    d.unmNicNewTxContextDestroy.defaultTxCtx = none ↔ d.TxCleared := by
  rw [unmNicNewTxContextDestroy]
  split
  · rename_i hnone
    have hdefault : d.defaultTxCtx = none := defaultTx_none htx hnone
    exact iff_of_true hdefault fun a ha => absurd (hdefault.symm.trans ha) nofun
  · rename_i c hc
    show (d.nxFwCmdDestroyTxCtx c).defaultTxCtx = none ↔ _
    rw [nxFwCmdDestroyTxCtx]
    by_cases hmax : nxHostCtxStateMax < c.state
    · rw [if_pos hmax]
      constructor
      · exact fun hnone a ha => absurd (hnone.symm.trans ha) nofun
      · intro hcleared
        refine Option.eq_none_iff_forall_not_mem.mpr fun a ha => ?_
        obtain ⟨c', hc', -, hle⟩ := hcleared a ha
        obtain rfl := Option.some.inj (hc.symm.trans hc')
        exact absurd hmax (BitVec.not_lt.mpr hle)
    · rw [if_neg hmax]
      split
      · rename_i hdefault
        refine iff_of_true rfl fun a ha => ?_
        obtain rfl := Option.some.inj (hdefault.symm.trans ha)
        exact ⟨c, hc, rfl, BitVec.not_lt.mp hmax⟩
      · rename_i hdefault
        have hnone : d.defaultTxCtx = none := by
          refine Option.eq_none_iff_forall_not_mem.mpr fun a ha => ?_
          obtain ⟨c', hc', haddr⟩ := htx a ha
          obtain rfl := Option.some.inj (hc.symm.trans hc')
          exact hdefault (haddr ▸ ha)
        exact iff_of_true hnone fun a ha => absurd (hnone.symm.trans ha) nofun

/-- **Freeing with the firmware 4.0**: the contexts are destroyed first. -/
theorem freeInFw_v40 (hd : d.Kept) (h : d.unmNicFreeRingContextInFw false = some t) :
    t.unmNicFreeRingContext.PointersValid ↔ d.RxCleared ∧ d.TxCleared := by
  rw [unmNicFreeRingContextInFw, if_neg Bool.false_ne_true] at h
  obtain ⟨u, hu, rfl⟩ := Option.map_eq_some_iff.mp h
  have hsame := destroyRxLoop_same hu
  have htx : ∀ a ∈ u.defaultTxCtx, ∃ c ∈ u.txCtx, c.addr = a := by
    rw [hsame.defaultTxCtx, hsame.txCtx]
    exact hd.tx
  have hcleared : u.TxCleared ↔ d.TxCleared := by
    rw [TxCleared, TxCleared, hsame.defaultTxCtx, hsame.txCtx]
  obtain ⟨hnone, hrx⟩ := destroyTx_rest u
  rw [← destroyAll_default hu, ← hcleared, ← destroyTx_default htx, ← hrx]
  constructor
  · intro hvalid
    have htxNone : u.unmNicNewTxContextDestroy.defaultTxCtx = none :=
      defaultTx_none hvalid.tx hnone
    refine ⟨(freeRing_valid fun a ha => ?_).mp hvalid, htxNone⟩
    exact absurd (htxNone.symm.trans ha) nofun
  · intro hboth
    refine (freeRing_valid fun a ha => ?_).mpr hboth.1
    exact absurd (hboth.2.symm.trans ha) nofun

/-- **Freeing with the firmware 3.4**: nothing is destroyed. -/
theorem freeInFw_v34 (h : d.unmNicFreeRingContextInFw true = some t) :
    t.unmNicFreeRingContext.PointersValid ↔ d.defaultRxCtx = none ∧ d.defaultTxCtx = none := by
  rw [unmNicFreeRingContextInFw, if_pos rfl] at h
  obtain rfl := Option.some.inj h
  constructor
  · intro hvalid
    have htxNone : d.defaultTxCtx = none := defaultTx_none (d := d.txFree) hvalid.tx rfl
    refine ⟨(freeRing_valid (d := d.txFree) fun a ha => ?_).mp hvalid, htxNone⟩
    exact absurd (htxNone.symm.trans ha) nofun
  · intro hboth
    refine (freeRing_valid (d := d.txFree) fun a ha => ?_).mpr hboth.1
    exact absurd (hboth.2.symm.trans ha) nofun

/-! ## Making -/

theorem rxAddr_update {i : Fin (k + 1)} {c : HostCtx} (h : t.rxCtxs = Function.update d.rxCtxs i c)
    (j : Fin (k + 1)) : t.rxAddr j = if j = i then some c.addr else d.rxAddr j := by
  rw [rxAddr, h]
  by_cases hj : j = i
  · rw [if_pos hj, hj, Function.update_self]
    rfl
  · rw [if_neg hj, Function.update_of_ne hj, rxAddr]

/-- The entry is free, and the address that of no context. -/
structure Vacant (d : HostNic k) (i : Fin (k + 1)) (addr : Nat) : Prop where
  entry : d.rxCtxs i = none
  fresh : d.Fresh addr

theorem Kept.rxAlloc {i : Fin (k + 1)} {addr : Nat} (h : d.Kept) (hnew : d.Vacant i addr) :
    (d.rxAlloc i addr).Kept := by
  have haddr := rxAddr_update (d := d) (t := d.rxAlloc i addr) rfl
  refine ⟨⟨fun a ha => ?_, h.tx⟩, fun j j' a hj hj' => ?_⟩
  · obtain ⟨j, hj⟩ := h.rx a ha
    refine ⟨j, ?_⟩
    rw [haddr, if_neg, hj]
    rintro rfl
    rw [HostNic.rxAddr, hnew.entry] at hj
    exact absurd hj nofun
  · rw [haddr] at hj hj'
    split at hj <;> split at hj'
    · rename_i hi hi'
      exact hi.trans hi'.symm
    · exact absurd (hj'.trans hj.symm) (hnew.fresh j')
    · exact absurd (hj.trans hj'.symm) (hnew.fresh j)
    · exact h.apart j j' a hj hj'

/-- A context in its entry goes to another state; it is the default one if there was none. -/
theorem Kept.rxMade {i : Fin (k + 1)} {addr : Nat} (state : BitVec 32) (h : d.Kept)
    (hi : d.rxAddr i = some addr) : (d.rxMade i addr state).Kept := by
  have haddr (j : Fin (k + 1)) : (d.rxMade i addr state).rxAddr j = d.rxAddr j := by
    rw [rxAddr_update (d := d) (t := d.rxMade i addr state) rfl]
    split
    · rename_i hj
      rw [hj, hi]
    · rfl
  refine ⟨⟨fun a ha => ?_, h.tx⟩, fun j j' a hj hj' => ?_⟩
  · have hget : d.defaultRxCtx.getD addr = a := Option.some.inj ha
    cases hdefault : d.defaultRxCtx with
    | none =>
      rw [hdefault] at hget
      exact ⟨i, (haddr i).trans (hget ▸ hi)⟩
    | some b =>
      rw [hdefault] at hget
      obtain ⟨j, hj⟩ := h.rx b hdefault
      exact ⟨j, (haddr j).trans (hget ▸ hj)⟩
  · rw [haddr] at hj hj'
    exact h.apart j j' a hj hj'

theorem Kept.txMade {addr : Nat} (state : BitVec 32) (h : d.Kept)
    (haddr : ∀ c ∈ d.txCtx, c.addr = addr) : (d.txMade addr state).Kept := by
  refine ⟨⟨h.rx, fun a ha => ⟨_, rfl, ?_⟩⟩, h.apart⟩
  have hget : d.defaultTxCtx.getD addr = a := Option.some.inj ha
  cases hdefault : d.defaultTxCtx with
  | none =>
    rw [hdefault] at hget
    exact hget
  | some b =>
    rw [hdefault] at hget
    obtain ⟨c, hc, hb⟩ := h.tx b hdefault
    exact (haddr c hc).symm.trans (hb.trans hget)

theorem Kept.txAlloc {c : HostCtx} (h : d.Kept) (hnone : d.txCtx = none) :
    ({ d with txCtx := some c } : HostNic k).Kept := by
  have hdefault := defaultTx_none h.tx hnone
  exact ⟨⟨h.rx, fun a ha => absurd (hdefault.symm.trans ha) nofun⟩, h.apart⟩

/-- `unm_nic_v34_context_prepare` allocates a transmit context, or does nothing. -/
theorem prepareV34_cases (d : HostNic k) (tx : Option Nat) :
    (d.unmNicV34ContextPrepare tx = d ∧ ∀ i addr,
      (d.rxAlloc i addr).unmNicV34ContextPrepare tx = d.rxAlloc i addr) ∨
    d.txCtx = none ∧ ∃ c, d.unmNicV34ContextPrepare tx = { d with txCtx := some c } ∧ ∀ i addr,
      (d.rxAlloc i addr).unmNicV34ContextPrepare tx =
        { d.rxAlloc i addr with txCtx := some c } := by
  cases htx : d.txCtx with
  | some c => exact .inl (by simp [unmNicV34ContextPrepare, rxAlloc, htx])
  | none =>
    cases tx with
    | none => exact .inl (by simp [unmNicV34ContextPrepare, rxAlloc, htx])
    | some addr =>
      exact .inr ⟨rfl, ⟨addr, nxHostCtxStateAllocated⟩,
        by simp [unmNicV34ContextPrepare, rxAlloc, htx]⟩

theorem Kept.prepareV34 (h : d.Kept) (tx : Option Nat) : (d.unmNicV34ContextPrepare tx).Kept := by
  rcases prepareV34_cases d tx with ⟨hsame, -⟩ | ⟨hnone, c, halloc, -⟩
  · rw [hsame]
    exact h
  · rw [halloc]
    exact h.txAlloc hnone

theorem rxMade_rxCtxs (d : HostNic k) (i : Fin (k + 1)) (addr : Nat) (state : BitVec 32) :
    (d.rxMade i addr state).rxCtxs = Function.update d.rxCtxs i (some ⟨addr, state⟩) := rfl

theorem rxFree_rxCtxs (d : HostNic k) (i : Fin (k + 1)) :
    (d.rxFree i).rxCtxs = Function.update d.rxCtxs i none := rfl

/-- What `nx_nic_create_rx_ctx` can do. -/
inductive Created (fwV34 : Bool) (d : HostNic k) (plan : RxPlan k) :
    Option (Fin (k + 1)) → HostNic k → Prop where
  | nothing : Created fwV34 d plan none d
  | noTaker (tx : Option Nat) (hv34 : fwV34 = true) :
    Created fwV34 d plan none (d.unmNicV34ContextPrepare tx)
  | allocated {i : Fin (k + 1)} {addr : Nat} (hplan : ¬plan.InFw) (hnew : d.Vacant i addr) :
    Created fwV34 d plan (some i) (d.rxAlloc i addr)
  | made {i : Fin (k + 1)} {addr : Nat} {state : BitVec 32} (hv40 : fwV34 = false)
    (hplan : plan.InFw) (hstate : plan.state = some state) (hnew : d.Vacant i addr) :
    Created fwV34 d plan (some i) (d.rxMade i addr state)
  | madeV34 {e : HostNic k} {i : Fin (k + 1)} {addr : Nat} {tx : Option Nat} {rx tx' : HostCtx}
    (hv34 : fwV34 = true) (hplan : plan.InFw) (hnew : d.Vacant i addr)
    (he : e = (d.rxAlloc i addr).unmNicV34ContextPrepare tx)
    (hrx : e.rxCtxs (firstId k) = some rx)
    (htx : e.txCtx = some tx') :
    Created fwV34 d plan (some i)
      ((e.rxMade (firstId k) rx.addr nxHostCtxStateActive).txMade tx'.addr nxHostCtxStateActive)

theorem rxFree_rxAlloc {i : Fin (k + 1)} (addr : Nat) (h : d.rxCtxs i = none) :
    (d.rxAlloc i addr).rxFree i = d := by
  rw [rxFree, rxAlloc, Function.update_idem, ← h, Function.update_eq_self]

theorem rxFree_prepareV34 {i : Fin (k + 1)} (addr : Nat) (tx : Option Nat)
    (h : d.rxCtxs i = none) :
    ((d.rxAlloc i addr).unmNicV34ContextPrepare tx).rxFree i = d.unmNicV34ContextPrepare tx := by
  have hfree := rxFree_rxAlloc addr h
  rcases prepareV34_cases d tx with ⟨hsame, hsame'⟩ | ⟨-, c, halloc, halloc'⟩
  · rw [hsame, hsame' i addr, hfree]
  · rw [halloc, halloc' i addr]
    exact congrArg (fun e : HostNic k => { e with txCtx := some c }) hfree

theorem rxMade_rxAlloc (d : HostNic k) (i : Fin (k + 1)) (addr : Nat) (state : BitVec 32) :
    (d.rxAlloc i addr).rxMade i addr state = d.rxMade i addr state := by
  rw [rxMade, rxMade, rxAlloc, Function.update_idem]

/-- The 3.4 command changes nothing unless it is taken, with both contexts there. -/
theorem createV34_cases {taken made : Bool} (h : d.nxFwCmdV34CreateCtx taken = some (made, t)) :
    (made = false ∧ t = d) ∨
      (made = true ∧ ∃ rx tx, d.rxCtxs (firstId k) = some rx ∧ d.txCtx = some tx ∧
        t = (d.rxMade (firstId k) rx.addr nxHostCtxStateActive).txMade tx.addr
          nxHostCtxStateActive) := by
  rw [nxFwCmdV34CreateCtx.eq_def] at h
  split at h
  · obtain ⟨rfl, rfl⟩ := Prod.mk.inj (Option.some.inj h)
    exact .inl ⟨rfl, rfl⟩
  · rename_i rx hrx
    split at h
    · obtain ⟨rfl, rfl⟩ := Prod.mk.inj (Option.some.inj h)
      exact .inl ⟨rfl, rfl⟩
    · split at h
      · cases h
      · rename_i tx htx
        split at h
        · obtain ⟨rfl, rfl⟩ := Prod.mk.inj (Option.some.inj h)
          exact .inr ⟨rfl, rx, tx, hrx, htx, rfl⟩
        · obtain ⟨rfl, rfl⟩ := Prod.mk.inj (Option.some.inj h)
          exact .inl ⟨rfl, rfl⟩

theorem createRx_cases {fwV34 : Bool} {plan : RxPlan k} {r : Option (Fin (k + 1))}
    (h : d.nxNicCreateRxCtx fwV34 plan = some (r, t)) : Created fwV34 d plan r t := by
  rw [nxNicCreateRxCtx.eq_def] at h
  cases plan with
  | noCtx =>
    obtain ⟨rfl, rfl⟩ := Prod.mk.inj (Option.some.inj h)
    exact .nothing
  | ctx i addr outcome =>
    dsimp only at h
    split at h
    · cases h
    · rename_i hnew
      obtain ⟨hentry, hfresh⟩ := not_or.mp hnew
      have hvacant : d.Vacant i addr :=
        ⟨Option.not_isSome_iff_eq_none.mp hentry, not_not.mp hfresh⟩
      cases outcome with
      | ringsFail =>
        obtain ⟨rfl, rfl⟩ := Prod.mk.inj (Option.some.inj h)
        rw [rxFree_rxAlloc addr hvacant.entry]
        exact .nothing
      | noDma =>
        obtain ⟨rfl, rfl⟩ := Prod.mk.inj (Option.some.inj h)
        exact .allocated not_false hvacant
      | command tx state =>
        dsimp only at h
        cases fwV34 with
        | true =>
          rw [unmNicNewRxContextPrepare.eq_def, if_pos rfl] at h
          split at h
          · cases h
          · rename_i e he
            obtain ⟨rfl, rfl⟩ := Prod.mk.inj (Option.some.inj h)
            obtain ⟨hfalse, -⟩ | ⟨-, rx, tx', hrx, htx, rfl⟩ := createV34_cases he
            · cases hfalse
            · exact .madeV34 rfl trivial hvacant rfl hrx htx
          · rename_i e he
            obtain ⟨rfl, rfl⟩ := Prod.mk.inj (Option.some.inj h)
            obtain ⟨-, rfl⟩ | ⟨htrue, -⟩ := createV34_cases he
            · rw [rxFree_prepareV34 addr tx hvacant.entry]
              exact .noTaker tx rfl
            · cases htrue
        | false =>
          rw [unmNicNewRxContextPrepare.eq_def, if_neg Bool.false_ne_true] at h
          cases state with
          | none =>
            obtain ⟨rfl, rfl⟩ := Prod.mk.inj (Option.some.inj h)
            rw [rxFree_rxAlloc addr hvacant.entry]
            exact .nothing
          | some s =>
            obtain ⟨rfl, rfl⟩ := Prod.mk.inj (Option.some.inj h)
            rw [rxMade_rxAlloc]
            exact .made rfl trivial rfl hvacant

/-! ## What a new receive context is worth -/

theorem Created.kept {fwV34 : Bool} {plan : RxPlan k} {r : Option (Fin (k + 1))}
    (hd : d.Kept) (h : Created fwV34 d plan r t) : t.Kept := by
  cases h with
  | nothing => exact hd
  | noTaker tx hv34 => exact hd.prepareV34 tx
  | allocated hplan hnew => exact hd.rxAlloc hnew
  | made hv40 hplan hstate hnew =>
    rw [← rxMade_rxAlloc]
    refine (hd.rxAlloc hnew).rxMade _ ?_
    rw [rxAddr_update (d := d) rfl, if_pos rfl]
  | madeV34 hv34 hplan hnew he hrx htx =>
    have hkept := he ▸ (hd.rxAlloc hnew).prepareV34 _
    refine (hkept.rxMade _ (congrArg (Option.map HostCtx.addr) hrx)).txMade _ fun c hc => ?_
    obtain rfl := Option.some.inj (htx.symm.trans hc)
    rfl

/-- An allocation that fails leaves the default receive context. -/
theorem Created.failed {fwV34 : Bool} {plan : RxPlan k} (h : Created fwV34 d plan none t) :
    t.defaultRxCtx = d.defaultRxCtx := by
  cases h with
  | nothing => rfl
  | noTaker tx hv34 =>
    rcases prepareV34_cases d tx with ⟨hsame, -⟩ | ⟨-, c, halloc, -⟩
    · rw [hsame]
    · rw [halloc]

/-- After one that succeeds there is no default receive context just if there was none and the
firmware was not asked. -/
theorem Created.default_none {fwV34 : Bool} {plan : RxPlan k} {i : Fin (k + 1)}
    (h : Created fwV34 d plan (some i) t) :
    t.defaultRxCtx = none ↔ d.defaultRxCtx = none ∧ ¬plan.InFw := by
  cases h with
  | allocated hplan hnew => exact (and_iff_left hplan).symm
  | made hv40 hplan hstate hnew => exact iff_of_false nofun fun h => h.2 hplan
  | madeV34 hv34 hplan hnew he hrx htx => exact iff_of_false nofun fun h => h.2 hplan

/-- With the firmware 3.4 the same goes for both pointers at once. -/
theorem Created.defaults_none {plan : RxPlan k} {i : Fin (k + 1)}
    (h : Created true d plan (some i) t) :
    t.defaultRxCtx = none ∧ t.defaultTxCtx = none ↔
      d.defaultRxCtx = none ∧ d.defaultTxCtx = none ∧ ¬plan.InFw := by
  cases h with
  | allocated hplan hnew => exact and_congr_right fun _ => (and_iff_left hplan).symm
  | made hv40 hplan hstate hnew => cases hv40
  | madeV34 hv34 hplan hnew he hrx htx =>
    exact iff_of_false (fun h => absurd h.1 nofun) fun h => h.2.2 hplan

/-- With the firmware 4.0 the transmit context is left alone. -/
theorem Created.tx_same {plan : RxPlan k} {r : Option (Fin (k + 1))}
    (h : Created false d plan r t) : t.txCtx = d.txCtx ∧ t.defaultTxCtx = d.defaultTxCtx := by
  cases h with
  | nothing => exact ⟨rfl, rfl⟩
  | noTaker tx hv34 => cases hv34
  | allocated hplan hnew => exact ⟨rfl, rfl⟩
  | made hv40 hplan hstate hnew => exact ⟨rfl, rfl⟩
  | madeV34 hv34 hplan hnew he hrx htx => cases hv34

/-- A context put into a vacant entry is not the one at an address held before. -/
theorem Vacant.held_iff {i : Fin (k + 1)} {c : HostCtx} {a : Nat} (hnew : d.Vacant i c.addr)
    (h : t.rxCtxs = Function.update d.rxCtxs i c) (hheld : ∃ j, d.rxAddr j = some a) :
    (∃ j, ∃ c' ∈ t.rxCtxs j, c'.addr = a ∧ c'.state ≤ nxHostCtxStateMax) ↔
      ∃ j, ∃ c' ∈ d.rxCtxs j, c'.addr = a ∧ c'.state ≤ nxHostCtxStateMax := by
  refine exists_congr fun j => ?_
  by_cases hj : j = i
  · refine iff_of_false ?_ ?_
    · rintro ⟨c', hc', rfl, -⟩
      rw [h, hj, Function.update_self] at hc'
      obtain ⟨j', hj'⟩ := hheld
      exact hnew.fresh j' (hj'.trans (congrArg (some ∘ HostCtx.addr) (Option.some.inj hc').symm))
    · rintro ⟨c', hc', -⟩
      rw [hj, hnew.entry] at hc'
      exact absurd hc' nofun
  · rw [h, Function.update_of_ne hj]

/-- With the firmware 4.0 the default receive context can be destroyed after the allocation just
under the plan's condition. -/
theorem Created.rxCleared {plan : RxPlan k} {i : Fin (k + 1)} (hd : d.Kept)
    (h : Created false d plan (some i) t) : t.RxCleared ↔ d.RxClearedWith plan := by
  cases h with
  | allocated hplan hnew =>
    have hsame : (d.rxAlloc i _).RxCleared ↔ d.RxCleared :=
      forall_congr' fun a => forall_congr' fun ha => hnew.held_iff rfl (hd.rx a ha)
    refine hsame.trans (and_iff_left fun _ s hs => ?_).symm
    exact absurd (RxPlan.inFw_of_state hs) hplan
  | @made _ addr state hv40 hplan hstate hnew =>
    cases hdefault : d.defaultRxCtx with
    | none =>
      have hown : (d.rxMade i addr state).defaultRxCtx = some addr := by
        rw [HostNic.rxMade, hdefault]
        rfl
      have hstate' (s : BitVec 32) : s ∈ plan.state ↔ state = s := by
        rw [hstate, Option.mem_some]
      rw [RxCleared, hown, RxClearedWith]
      constructor
      · intro hmade
        refine ⟨fun a ha => absurd (hdefault.symm.trans ha) nofun, fun _ s hs => ?_⟩
        obtain ⟨j, c, hc, haddr, hle⟩ := hmade addr rfl
        obtain rfl := (hstate' s).mp hs
        have hj : j = i := by
          by_contra hj
          rw [rxMade_rxCtxs, Function.update_of_ne hj] at hc
          refine hnew.fresh j ?_
          rw [HostNic.rxAddr, Option.mem_def.mp hc, Option.map_some, haddr]
        rw [rxMade_rxCtxs, hj, Function.update_self] at hc
        obtain rfl := Option.some.inj hc
        exact hle
      · intro hboth a ha
        obtain rfl := Option.some.inj ha
        exact ⟨i, _, Function.update_self .., rfl, hboth.2 hdefault state ((hstate' _).mpr rfl)⟩
    | some b =>
      have hown : (d.rxMade i addr state).defaultRxCtx = some b := by
        rw [HostNic.rxMade, hdefault]
        rfl
      have hsame : (d.rxMade i addr state).RxCleared ↔ d.RxCleared := by
        rw [RxCleared, RxCleared, hown, hdefault]
        refine forall_congr' fun a => forall_congr' fun ha => hnew.held_iff rfl (hd.rx a ?_)
        rw [hdefault]
        exact ha
      refine hsame.trans (and_iff_left fun hnone => ?_).symm
      exact absurd (hdefault.symm.trans hnone) nofun
  | madeV34 hv34 hplan hnew he hrx htx => cases hv34

/-! ## Attach and detach -/

/-- `unm_nic_free_ring_context_in_fw` before `unm_nic_free_ring_context`. -/
theorem freeInFw_valid {fwV34 : Bool} (hd : d.Kept)
    (h : d.unmNicFreeRingContextInFw fwV34 = some t) :
    t.unmNicFreeRingContext.PointersValid ↔ d.Clears fwV34 := by
  cases fwV34 with
  | true => exact freeInFw_v34 h
  | false => exact freeInFw_v40 hd h

theorem attachRest_valid {fwV34 bufsFail irqFails : Bool} (hd : d.Kept)
    (h : d.attachRest fwV34 bufsFail irqFails = some t) :
    t.Apart ∧ (t.PointersValid ↔ (bufsFail = true ∨ irqFails = true → d.Clears fwV34)) := by
  rw [attachRest.eq_def] at h
  split at h
  · rename_i hbufs
    obtain ⟨u, hu, rfl⟩ := Option.map_eq_some_iff.mp h
    exact ⟨freeRing_apart u, (freeInFw_valid hd hu).trans (imp_iff_right (.inl hbufs)).symm⟩
  · rename_i hbufs
    split at h
    · cases h
    · split at h
      · rename_i hirq
        obtain ⟨u, hu, rfl⟩ := Option.map_eq_some_iff.mp h
        exact ⟨freeRing_apart u, (freeInFw_valid hd hu).trans (imp_iff_right (.inr hirq)).symm⟩
      · rename_i hirq
        obtain rfl := Option.some.inj h
        refine ⟨hd.apart, iff_of_true ⟨hd.rx, hd.tx⟩ fun hfails => ?_⟩
        exact absurd hfails (not_or.mpr ⟨hbufs, hirq⟩)

theorem attachMade_v34 {plan : AttachPlan k} {i : Fin (k + 1)} {e : HostNic k} (hd : d.Kept)
    (hmade : Created true d plan.rx (some i) e) (h : e.attachMade true plan i = some t) :
    t.Apart ∧ (t.PointersValid ↔ d.KeepsV34 plan i) := by
  have he := hmade.kept hd
  rw [attachMade.eq_def, if_pos rfl] at h
  split at h
  · rename_i hi
    obtain rfl := Option.some.inj h
    refine ⟨freeRing_apart e, (freeRing_valid he.tx).trans (hmade.default_none.trans ?_)⟩
    exact ⟨fun hnone => ⟨fun _ => hnone, fun hzero => absurd hzero hi⟩, fun hkeeps => hkeeps.1 hi⟩
  · rename_i hi
    obtain ⟨hapart, hvalid⟩ := attachRest_valid he h
    refine ⟨hapart, hvalid.trans ((imp_congr_right fun _ => hmade.defaults_none).trans ?_)⟩
    exact ⟨fun hrest => ⟨fun hne => absurd hne hi, fun _ => hrest⟩,
      fun hkeeps => hkeeps.2 (not_not.mp hi)⟩

/-- `unm_nic_new_tx_context_prepare` fails or succeeds whatever the receive contexts. -/
theorem prepareTx_made (htx : t.txCtx = d.txCtx) (plan : TxPlan) :
    (t.unmNicNewTxContextPrepare plan).1 = (d.unmNicNewTxContextPrepare plan).1 := by
  rw [unmNicNewTxContextPrepare.eq_def, unmNicNewTxContextPrepare.eq_def, htx]
  split
  · rfl
  · split <;> rfl

theorem prepareTx_false {plan : TxPlan} (h : d.unmNicNewTxContextPrepare plan = (false, t)) :
    t = d := by
  rw [unmNicNewTxContextPrepare.eq_def] at h
  split at h
  · exact (Prod.mk.inj h).2.symm
  · split at h
    · exact (Prod.mk.inj h).2.symm
    · cases h
    · exact (Prod.mk.inj h).2.symm
    · cases h

/-- A transmit context that is made is the default one, and can be destroyed as its state
says. -/
theorem prepareTx_true {plan : TxPlan} (hd : d.Kept)
    (h : d.unmNicNewTxContextPrepare plan = (true, t)) :
    t.Kept ∧ (t.RxCleared ↔ d.RxCleared) ∧
      (t.TxCleared ↔ ∀ s ∈ plan.state, s ≤ nxHostCtxStateMax) := by
  rw [unmNicNewTxContextPrepare.eq_def] at h
  split at h
  · cases h
  · rename_i hnone
    have hnone : d.txCtx = none := Option.not_isSome_iff_eq_none.mp hnone
    have hdefault := defaultTx_none hd.tx hnone
    split at h
    · cases h
    · obtain rfl := (Prod.mk.inj h).2
      refine ⟨hd.txAlloc hnone, Iff.rfl, iff_of_true ?_ fun s hs => absurd hs nofun⟩
      exact fun a ha => absurd (hdefault.symm.trans ha) nofun
    · cases h
    · rename_i addr state
      obtain rfl := (Prod.mk.inj h).2
      have hown : (d.txMade addr state).defaultTxCtx = some addr := by
        rw [HostNic.txMade, hdefault]
        rfl
      refine ⟨hd.txMade state fun c hc => absurd (hnone.symm.trans hc) nofun, Iff.rfl, ?_⟩
      rw [TxCleared, hown]
      constructor
      · intro hcleared s hs
        obtain rfl := Option.some.inj hs
        obtain ⟨c, hc, -, hle⟩ := hcleared addr rfl
        obtain rfl := Option.some.inj hc
        exact hle
      · intro hle a ha
        obtain rfl := Option.some.inj ha
        exact ⟨_, rfl, rfl, hle state rfl⟩

theorem attachMade_v40 {plan : AttachPlan k} {i : Fin (k + 1)} {e : HostNic k} (hd : d.Kept)
    (hmade : Created false d plan.rx (some i) e) (h : e.attachMade false plan i = some t) :
    t.Apart ∧ (t.PointersValid ↔ d.KeepsV40 plan) := by
  have he := hmade.kept hd
  have hprepared := prepareTx_made hmade.tx_same.1 plan.tx
  rw [attachMade.eq_def, if_neg Bool.false_ne_true] at h
  rw [KeepsV40]
  split at h
  · rename_i hpexq
    obtain rfl := Option.some.inj h
    rw [if_pos hpexq]
    exact ⟨freeRing_apart e, (freeRing_valid he.tx).trans hmade.default_none⟩
  · rename_i hpexq
    rw [if_neg hpexq, ← hprepared]
    split at h
    · rename_i u hu
      obtain rfl := prepareTx_false hu
      obtain ⟨v, hv, rfl⟩ := Option.map_eq_some_iff.mp h
      rw [if_pos (congrArg Prod.fst hu)]
      have htx : ∀ a ∈ v.defaultTxCtx, ∃ c ∈ v.txCtx, c.addr = a := by
        rw [(destroyRxLoop_same hv).defaultTxCtx, (destroyRxLoop_same hv).txCtx]
        exact he.tx
      refine ⟨freeRing_apart v, (freeRing_valid htx).trans ?_⟩
      exact (destroyAll_default hv).trans (hmade.rxCleared hd)
    · rename_i u hu
      obtain ⟨hkept, hrx, htx⟩ := prepareTx_true he hu
      rw [if_neg fun hfalse => Bool.false_ne_true (hfalse.symm.trans (congrArg Prod.fst hu))]
      obtain ⟨hapart, hvalid⟩ := attachRest_valid hkept h
      refine ⟨hapart, hvalid.trans ?_⟩
      have hclears : u.Clears false ↔
          d.RxClearedWith plan.rx ∧ ∀ s ∈ plan.tx.state, s ≤ nxHostCtxStateMax :=
        and_congr (hrx.trans (hmade.rxCleared hd)) htx
      split
      · rename_i hfails
        exact (imp_iff_right hfails).trans hclears
      · rename_i hfails
        exact iff_of_true (fun h => absurd h hfails) trivial

/-- **An attach**. -/
theorem attach_valid {fwV34 : Bool} {plan : AttachPlan k} (hd : d.Kept)
    (h : d.unmNicAttach fwV34 plan = some t) :
    t.Apart ∧ (t.PointersValid ↔ d.KeepsAttach fwV34 plan) := by
  rw [unmNicAttach.eq_def] at h
  split at h
  · rename_i hearly
    obtain rfl := Option.some.inj h
    exact ⟨hd.apart, iff_of_true hd.toPointersValid (hearly.imp_right .inl)⟩
  · rename_i hearly
    obtain ⟨hup, hfirst⟩ := not_or.mp hearly
    have hkeeps {p : Prop} :
        (d.isUp = .adapterUpMagic ∨ plan.earlyFails = true ∨ p) ↔ p := by
      rw [or_iff_right hup, or_iff_right hfirst]
    rw [KeepsAttach, hkeeps]
    split at h
    · rename_i hblocks
      obtain rfl := Option.some.inj h
      rw [if_pos hblocks]
      exact ⟨freeRing_apart d, freeRing_valid hd.tx⟩
    · rename_i hblocks
      rw [if_neg hblocks]
      split at h
      · cases h
      · rename_i e he
        obtain rfl := Option.some.inj h
        have hcreated := createRx_cases he
        rw [he, KeepsCreated, ← hcreated.failed]
        exact ⟨freeRing_apart e, freeRing_valid (hcreated.kept hd).tx⟩
      · rename_i i e he
        have hcreated := createRx_cases he
        rw [he, KeepsCreated]
        cases fwV34 with
        | true => exact attachMade_v34 hd hcreated h
        | false => exact attachMade_v40 hd hcreated h

/-- **A detach**. -/
theorem detach_valid {fwV34 : Bool} (hd : d.Kept) (h : d.unmNicDetach fwV34 = some t) :
    t.Apart ∧ (t.PointersValid ↔ d.KeepsDetach fwV34) := by
  rw [unmNicDetach] at h
  obtain ⟨u, hu, rfl⟩ := Option.map_eq_some_iff.mp h
  have hup : ({ u.unmNicFreeRingContext with isUp := .down } : HostNic k).PointersValid ↔
      u.unmNicFreeRingContext.PointersValid := ⟨fun h => ⟨h.rx, h.tx⟩, fun h => ⟨h.rx, h.tx⟩⟩
  refine ⟨freeRing_apart u, hup.trans ?_⟩
  rw [KeepsDetach]
  split at hu
  · rename_i hdown
    obtain rfl := Option.some.inj hu
    rw [if_pos hdown]
    exact freeRing_valid hd.tx
  · rename_i hdown
    rw [if_neg hdown]
    exact freeInFw_valid hd hu

/-- **Freeing one context**: it is destroyed first. -/
theorem freeOne_valid {i : Fin (k + 1)} (hd : d.Kept) :
    (d.nxNicMultictxFreeRxCtx i).Apart ∧ ((d.nxNicMultictxFreeRxCtx i).PointersValid ↔
      ∀ c ∈ d.rxCtxs i, d.defaultRxCtx = some c.addr → c.state ≤ nxHostCtxStateMax) := by
  rw [nxNicMultictxFreeRxCtx]
  split
  · rename_i hnone
    refine ⟨hd.apart, iff_of_true hd.toPointersValid fun c hc => ?_⟩
    exact absurd (hnone.symm.trans hc) nofun
  · rename_i c hc
    have hi : d.rxAddr i = some c.addr := congrArg (Option.map HostCtx.addr) hc
    have hsame := destroyRx_same d c
    have hdefault := destroyRx_default d c
    have hfreed : ((d.nxFwCmdDestroyRxCtx c).rxFree i).rxAddr i = none := by
      rw [HostNic.rxAddr, rxFree_rxCtxs, Function.update_self]
      rfl
    have hother {j : Fin (k + 1)} (hj : j ≠ i) :
        ((d.nxFwCmdDestroyRxCtx c).rxFree i).rxAddr j = d.rxAddr j := by
      rw [HostNic.rxAddr, rxFree_rxCtxs, Function.update_of_ne hj, hsame.rxCtxs, HostNic.rxAddr]
    have heither {j : Fin (k + 1)} {a : Nat}
        (hj : ((d.nxFwCmdDestroyRxCtx c).rxFree i).rxAddr j = some a) :
        j ≠ i ∧ d.rxAddr j = some a := by
      have hne : j ≠ i := by
        rintro rfl
        exact absurd (hfreed.symm.trans hj) nofun
      exact ⟨hne, (hother hne).symm.trans hj⟩
    refine ⟨fun j j' a hj hj' => hd.apart j j' a (heither hj).2 (heither hj').2, ?_⟩
    constructor
    · intro hvalid c' hc' hown
      obtain rfl := Option.some.inj (hc.symm.trans hc')
      by_contra hle
      rw [if_neg fun h => hle h.2] at hdefault
      obtain ⟨j, hj⟩ := hvalid.rx c.addr (hdefault.trans hown)
      exact (heither hj).1 (hd.apart j i c.addr (heither hj).2 hi)
    · intro hle
      refine ⟨fun a ha => ?_, fun a ha => ?_⟩
      · have hown : (d.nxFwCmdDestroyRxCtx c).defaultRxCtx = some a := ha
        rw [hdefault] at hown
        split at hown
        · cases hown
        · rename_i hkept
          obtain ⟨j, hj⟩ := hd.rx a hown
          refine ⟨j, (hother ?_).trans hj⟩
          rintro rfl
          obtain rfl := Option.some.inj (hi.symm.trans hj)
          exact hkept ⟨hown, hle c hc hown⟩
      · obtain ⟨c', hc', haddr⟩ := hd.tx a (hsame.defaultTxCtx.symm.trans ha)
        exact ⟨c', hsame.txCtx.trans hc', haddr⟩

/-- **The step lemma**. -/
theorem exact_next {fwV34 : Bool} {a : HalAction k} (hd : d.Kept)
    (h : (halMachine k fwV34).next d a = some t) :
    t.Apart ∧ (t.PointersValid ↔ a.Keeps fwV34 d) := by
  cases a with
  | attach plan => exact attach_valid hd h
  | detach => exact detach_valid hd h
  | die =>
    obtain rfl := Option.some.inj h
    exact ⟨hd.apart, iff_of_true ⟨hd.rx, hd.tx⟩ trivial⟩
  | alloc plan =>
    obtain ⟨⟨r, u⟩, hu, rfl⟩ := Option.map_eq_some_iff.mp h
    have hkept := (createRx_cases hu).kept hd
    exact ⟨hkept.apart, iff_of_true hkept.toPointersValid trivial⟩
  | free i =>
    obtain rfl := Option.some.inj h
    exact freeOne_valid hd

theorem kept_initial (k : Nat) : (initial k).Kept :=
  ⟨⟨fun _ ha => absurd ha nofun, fun _ ha => absurd ha nofun⟩, fun _ _ _ hi => absurd hi nofun⟩

/-! ## Deciding the condition -/

instance decidableRxCleared : Decidable d.RxCleared :=
  inferInstanceAs (Decidable (∀ a ∈ d.defaultRxCtx, ∃ i, ∃ c ∈ d.rxCtxs i,
    c.addr = a ∧ c.state ≤ nxHostCtxStateMax))

instance decidableTxCleared : Decidable d.TxCleared :=
  inferInstanceAs (Decidable (∀ a ∈ d.defaultTxCtx, ∃ c ∈ d.txCtx,
    c.addr = a ∧ c.state ≤ nxHostCtxStateMax))

instance decidableInFw : ∀ plan : RxPlan k, Decidable plan.InFw
  | .noCtx => .isFalse not_false
  | .ctx _ _ .ringsFail => .isFalse not_false
  | .ctx _ _ .noDma => .isFalse not_false
  | .ctx _ _ (.command _ _) => .isTrue trivial

instance decidableRxClearedWith (plan : RxPlan k) : Decidable (d.RxClearedWith plan) :=
  inferInstanceAs (Decidable (_ ∧ (_ → ∀ s ∈ plan.state, s ≤ nxHostCtxStateMax)))

instance decidableClears (fwV34 : Bool) : Decidable (d.Clears fwV34) :=
  inferInstanceAs (Decidable (if fwV34 then _ ∧ _ else _ ∧ _))

instance decidableKeepsV34 (plan : AttachPlan k) (i : Fin (k + 1)) :
    Decidable (d.KeepsV34 plan i) :=
  inferInstanceAs (Decidable ((_ → _ ∧ ¬_) ∧ (_ → _ → _ ∧ _ ∧ ¬_)))

instance decidableKeepsV40 (plan : AttachPlan k) : Decidable (d.KeepsV40 plan) :=
  inferInstanceAs (Decidable (if plan.pexqFails then _ ∧ ¬_
    else if (d.unmNicNewTxContextPrepare plan.tx).1 = false then _
    else if plan.bufsFail = true ∨ plan.irqFails = true then
      _ ∧ ∀ s ∈ plan.tx.state, s ≤ nxHostCtxStateMax
    else True))

instance decidableKeepsCreated (fwV34 : Bool) (plan : AttachPlan k) :
    ∀ r, Decidable (d.KeepsCreated fwV34 plan r)
  | none => .isTrue trivial
  | some (none, _) => inferInstanceAs (Decidable (_ = none))
  | some (some _, _) => inferInstanceAs (Decidable (if fwV34 then _ else _))

instance decidableKeepsAttach (fwV34 : Bool) (plan : AttachPlan k) :
    Decidable (d.KeepsAttach fwV34 plan) :=
  inferInstanceAs (Decidable (_ ∨ _ ∨ if plan.blocksFail then _ else _))

instance decidableKeepsDetach (fwV34 : Bool) : Decidable (d.KeepsDetach fwV34) :=
  inferInstanceAs (Decidable (if d.isUp = .down then _ else _))

end HostNic
instance decidableKeeps {k : Nat} (fwV34 : Bool) (d : HostNic k) :
    ∀ a : HalAction k, Decidable (a.Keeps fwV34 d)
  | .attach plan => inferInstanceAs (Decidable (d.KeepsAttach fwV34 plan))
  | .detach => inferInstanceAs (Decidable (d.KeepsDetach fwV34))
  | .die => .isTrue trivial
  | .alloc _ => .isTrue trivial
  | .free i => inferInstanceAs (Decidable (∀ c ∈ d.rxCtxs i,
      d.defaultRxCtx = some c.addr → c.state ≤ nxHostCtxStateMax))

/-- **The default contexts exist**: in a run both pointers are valid throughout just if all the
steps of the run meet the condition.  The number of entries, the firmware and what fails in each
attach are arbitrary. -/
theorem defaults_valid_iff (k : Nat) (fwV34 : Bool) {l : List (HalAction k)} {t : HostNic k}
    (h : (halMachine k fwV34).run (.initial k) l = some t) :
    (∀ u, (halMachine k fwV34).Visits (.initial k) l u → u.PointersValid) ↔
      ∀ u a, (halMachine k fwV34).Takes (.initial k) l u a → a.Keeps fwV34 u :=
  (halMachine k fwV34).visits_iff_takes (K := HostNic.Kept) (fun _ hs => hs.toPointersValid)
    (fun _ _ _ hs hp hnext =>
      have hexact := HostNic.exact_next hs hnext
      ⟨hexact.2.mpr hp, hexact.1⟩)
    (fun _ _ _ hs hnext hu => (HostNic.exact_next hs hnext).2.mp hu) (HostNic.kept_initial k) h

/-- An attach in which everything succeeds, with a receive context in the first entry. -/
def attachPlan (k rx tx : Nat) : AttachPlan k :=
  ⟨false, false, .ctx (firstId k) rx (.command none (some nxHostCtxStateActive)), false,
    .command tx (some nxHostCtxStateActive), false, false⟩

/-- A second receive context comes and goes while the adapter is up; after a detach it is
attached again. -/
def contextsRun : List (HalAction 1) :=
  [.attach (attachPlan 1 100 200), .alloc (.ctx 1 300 (.command none (some nxHostCtxStateActive))),
    .free 1, .detach, .attach (attachPlan 1 400 500)]

/-- In that run the pointers are those of the second attach, and valid in each state before. -/
theorem defaults_valid_iff_contexts :
    ∃ t, (halMachine 1 false).run (.initial 1) contextsRun = some t ∧
      (t.defaultRxCtx, t.defaultTxCtx) = (some 400, some 500) ∧
      ∀ u, (halMachine 1 false).Visits (.initial 1) contextsRun u → u.PointersValid := by
  have hrun : (((halMachine 1 false).guard fun d a => a.Keeps false d).run (.initial 1)
      contextsRun).map (fun t => (t.defaultRxCtx, t.defaultTxCtx)) = some (some 400, some 500) := by
    decide +kernel
  obtain ⟨t, ht, hends⟩ := Option.map_eq_some_iff.mp hrun
  have ht' := Machine.run_of_guard ht
  exact ⟨t, ht', hends,
    (defaults_valid_iff 1 false ht').mpr fun _ _ htakes => Machine.takes_of_guard ht htakes⟩

/-- The memory of the "pexq" cannot be had. -/
def pexqFailsRun : List (HalAction 0) := [.attach { attachPlan 0 100 200 with pexqFails := true }]

/-- The receive context of the failed attach is freed and the default pointer still names it. -/
theorem failed_attach_dangles :
    ∃ t, (halMachine 0 false).run (.initial 0) pexqFailsRun = some t ∧
      (t.defaultRxCtx, t.rxAddr 0) = (some 100, none) ∧ ¬t.PointersValid := by
  have hrun : ((halMachine 0 false).run (.initial 0) pexqFailsRun).map
      (fun t => (t.defaultRxCtx, t.rxAddr 0)) = some (some 100, none) := by
    decide +kernel
  obtain ⟨t, ht, hends⟩ := Option.map_eq_some_iff.mp hrun
  refine ⟨t, ht, hends, fun hvalid => ?_⟩
  obtain ⟨hdefault, hnone⟩ := Prod.mk.inj hends
  obtain ⟨i, hi⟩ := hvalid.rx 100 hdefault
  obtain rfl : i = 0 := Fin.fin_one_eq_zero i
  exact absurd (hnone.symm.trans hi) nofun

end Ctx
end NxNic

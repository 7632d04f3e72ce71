import NxNic.Ctx.Registry
import NxNic.Lib.Machine

/-! # When the registry of receive contexts is consistent

The table, the bits and the count are kept by different functions.  An allocation that fails
in `nx_register_irq` leaves its context in the table, without its bit, and a reset
gives back all the bits, whether or not their contexts could be created.

The state of the runs is here (`CtxWorld`): the device with its table and the saved rules, whether
the adapter is up, the device before and after each allocation that was refused, and whether a
call has gone astray, past the table, after which nothing more is said.  A step (`ctxMachine`) is
an allocation, a freeing, a rule set or removed, or a reset; one whose detach does not end has no
state after it.  Each operation has its lemma about what it does to the table, the bits and the
count.
-/
namespace NxNic
namespace Ctx

/-- The registry, whether the adapter is up, what calls have come to, and the device before and
after each allocation that has returned -1. -/
structure CtxWorld (k : Nat) where
  dev : NxDev k
  isUp : Bool
  astray : Bool
  refused : List (NxDev k × NxDev k)

inductive CtxAction where
  | alloc (o : AllocOutcome)
  | free (id : Int) (beyond : Bool)
  | setRule (id : Int) (beyond : Bool) (mac : BitVec 48) (taken : Bool)
  | removeRule (id : Int) (beyond : Bool) (ruleId : Nat) (taken : Bool)
  /-- The detach, the attach if `attached`, and `nx_reset_netq_rx_queues`. -/
  | reset (attached : Bool) (outs : List AllocOutcome)

namespace CtxWorld
variable {k : Nat} (w : CtxWorld k)

def alloc (o : AllocOutcome) : CtxWorld k :=
  match w.dev.nxNicMultictxAllocRxCtx o with
  | (some _, d) => { w with dev := d }
  | (none, d) => { w with dev := d, refused := w.refused ++ [(w.dev, d)] }

def takes : NxDev.Result k → CtxWorld k
  | .returned _ d => { w with dev := d }
  | .astray => { w with astray := true }

/-- `netxen_nic_attach_all_ports`, of a port that `unm_nic_detach` has left with `d`. -/
def netxenNicAttachAllPorts (d : NxDev k) (attached : Bool) (outs : List AllocOutcome) :
    Option (CtxWorld k) :=
  match if attached then d.attach else some (false, d) with
  | none => some { w with astray := true }
  | some (isUp, d) =>
    (d.nxResetNetqRxQueues outs).map fun d => { w with dev := d, isUp := isUp }

/-- A reset of the firmware; `none` where the detach never ends, or `outs` is not as long as the
loop of `nx_reset_netq_rx_queues`. -/
def reset (fwV34 attached : Bool) (outs : List AllocOutcome) : Option (CtxWorld k) :=
  (w.dev.unmNicDetach fwV34 w.isUp).bind fun d => w.netxenNicAttachAllPorts d attached outs

end CtxWorld

/-- Calls of the operations in any order, with a firmware from 4.0 on; there is nothing more once
one has gone astray. -/
def ctxMachine (k : Nat) : Machine (CtxWorld k) CtxAction where
  next w a :=
    if w.astray then none
    else
      match a with
      | .alloc o => some (w.alloc o)
      | .free id beyond => some (w.takes (w.dev.nxNicMultictxFreeRxCtx id beyond))
      | .setRule id beyond mac taken =>
        some (w.takes (w.dev.nxNicMultictxSetRxRule id beyond mac taken))
      | .removeRule id beyond ruleId taken =>
        some (w.takes (w.dev.nxNicMultictxRemoveRxRule id beyond ruleId taken))
      | .reset attached outs => w.reset false attached outs

/-- After `nx_os_dev_alloc` and, if `attached`, `unm_nic_attach`; `saved_rules` is memory as it was
found. -/
def CtxWorld.init {k : Nat} (attached : Bool) (saved : Fin (k + 1) → RxRule) : CtxWorld k where
  dev :=
    let d : NxDev k := ⟨fun _ => none, saved, 0, 0⟩
    if attached then d.nxFwCmdCreateRxCtxAlloc 0 else d
  isUp := attached
  astray := false
  refused := []

namespace NxDev
variable {k : Nat}

/-- The indices of the contexts in the table. -/
def live (d : NxDev k) : Finset (Fin (k + 1)) := {i | (d.rxCtxs i).isSome}

/-- **The registry is consistent**: the bits from 1 on and the count are those of the table. -/
structure Consistent (d : NxDev k) : Prop where
  bits : ∀ i : Nat, 1 ≤ i →
    (d.rxCtxsState.getLsbD i = true ↔ ∃ h : i < k + 1, (d.rxCtxs ⟨i, h⟩).isSome)
  active : d.activeRxCtxs = d.live.card

/-- Each context knows its place. -/
def Placed (d : NxDev k) : Prop := ∀ i c, d.rxCtxs i = some c → c.thisId = i

/-- The index can be given to a new context. -/
def Open (d : NxDev k) (i : Fin (k + 1)) : Prop :=
  d.rxCtxs i = none ∧ d.rxCtxsState.getLsbD i = false

instance (d : NxDev k) (i : Fin (k + 1)) : Decidable (d.Open i) :=
  inferInstanceAs (Decidable (_ ∧ _))

variable {d d' d'' : NxDev k} {i j : Fin (k + 1)}

theorem mem_live : i ∈ d.live ↔ (d.rxCtxs i).isSome = true := by
  rw [live, Finset.mem_filter_univ]

/-! ## What the operations change -/

/-- What the operations on rules leave as it is. -/
structure Same (d d' : NxDev k) : Prop where
  places : ∀ i, (d'.rxCtxs i).map RxCtx.thisId = (d.rxCtxs i).map RxCtx.thisId
  state : d'.rxCtxsState = d.rxCtxsState
  active : d'.activeRxCtxs = d.activeRxCtxs

theorem same_refl (d : NxDev k) : Same d d := ⟨fun _ => rfl, rfl, rfl⟩

theorem isSome_eq_of_map {c c' : Option (RxCtx k)}
    (h : c'.map RxCtx.thisId = c.map RxCtx.thisId) : c'.isSome = c.isSome := by
  rw [← Option.isSome_map, h, Option.isSome_map]

theorem Same.isSome (h : Same d d') (i : Fin (k + 1)) :
    (d'.rxCtxs i).isSome = (d.rxCtxs i).isSome := isSome_eq_of_map (h.places i)

theorem Same.live (h : Same d d') : d'.live = d.live := by
  ext i
  rw [mem_live, mem_live, h.isSome]

theorem Same.placed (h : Same d d') (hd : d.Placed) : d'.Placed := by
  intro i c hc
  have hmap := h.places i
  rw [hc, Option.map_some] at hmap
  obtain ⟨c₀, hc₀, hid⟩ := Option.map_eq_some_iff.mp hmap.symm
  exact hid.symm.trans (hd i c₀ hc₀)

theorem Same.consistent (h : Same d d') (hd : d.Consistent) : d'.Consistent where
  bits i hi := by
    rw [h.state, hd.bits i hi]
    exact exists_congr fun hlt => by rw [h.isSome]
  active := by rw [h.active, h.live, hd.active]

/-- A context of the table is replaced by one that keeps its place. -/
theorem same_update {c c' : RxCtx k} (hc : d.rxCtxs i = some c) (hid : c'.thisId = c.thisId)
    (saved : Fin (k + 1) → RxRule) :
    Same d { d with rxCtxs := Function.update d.rxCtxs i (some c'), savedRules := saved } where
  places j := by
    by_cases hj : j = i
    · subst hj
      show (Function.update d.rxCtxs j (some c') j).map _ = _
      rw [Function.update_self, hc, Option.map_some, Option.map_some, hid]
    · exact congrArg _ (Function.update_of_ne hj ..)
  state := rfl
  active := rfl

theorem entry_eq_ctx {id : Int} {beyond : Bool} {c : RxCtx k}
    (h : d.entry id beyond = .ctx i c) : d.rxCtxs i = some c := by
  rw [entry] at h
  split at h
  · split at h
    · rename_i hc
      obtain ⟨rfl, rfl⟩ := Entry.ctx.inj h
      exact hc
    · exact absurd h nofun
  · split at h <;> exact absurd h nofun

theorem entry_of_lt (i : Fin (k + 1)) (beyond : Bool) :
    d.entry i beyond = match d.rxCtxs i with | some c => .ctx i c | none => .null := by
  rw [entry, dif_pos ⟨Int.natCast_nonneg _, i.isLt⟩]
  rfl

theorem entry_live {c : RxCtx k} (hc : d.rxCtxs i = some c) (beyond : Bool) :
    d.entry i beyond = .ctx i c := by
  rw [entry_of_lt, hc]

/-- The caller's id takes the call outside the table, to a word that is not `NULL`. -/
def Strays (k : Nat) (id : Int) (beyond : Bool) : Prop :=
  id ≤ k + 1 ∧ ¬(0 ≤ id ∧ id.toNat < k + 1) ∧ beyond = true

theorem entry_foreign {id : Int} {beyond : Bool} (hid : ¬(k + 1 : Int) < id) :
    d.entry id beyond = .foreign ↔ Strays k id beyond := by
  rw [entry, Strays]
  split
  · rename_i hin
    refine iff_of_false ?_ fun h => h.2.1 hin
    split <;> nofun
  · rename_i hout
    cases beyond
    · exact iff_of_false nofun fun h => absurd h.2.2 nofun
    · exact iff_of_true rfl ⟨by omega, hout, rfl⟩

theorem not_strays_of_entry {id : Int} {beyond : Bool} (hid : ¬(k + 1 : Int) < id)
    (hentry : d.entry id beyond ≠ .foreign) : ¬Strays k id beyond :=
  mt (entry_foreign hid).mpr hentry

/-- What a call that sets or removes a rule comes to. -/
def RuleResult (d : NxDev k) (id : Int) (beyond : Bool) (r : Result k) : Prop :=
  (r = .astray ↔ Strays k id beyond) ∧ ∀ ok d', r = .returned ok d' → Same d d'

theorem ruleResult_returned {id : Int} {beyond ok : Bool} (hstrays : ¬Strays k id beyond)
    (hsame : Same d d') : RuleResult d id beyond (.returned ok d') :=
  ⟨iff_of_false nofun hstrays, fun _ _ h => by
    obtain ⟨-, rfl⟩ := Result.returned.inj h
    exact hsame⟩

theorem setRxRule_result (d : NxDev k) (id : Int) (beyond : Bool) (mac : BitVec 48)
    (taken : Bool) :
    RuleResult d id beyond (d.nxNicMultictxSetRxRule id beyond mac taken) := by
  rw [nxNicMultictxSetRxRule]
  split
  · rename_i hid
    exact ruleResult_returned (fun h => absurd h.1 (by omega)) (same_refl d)
  · rename_i hid
    cases hentry : d.entry id beyond with
    | foreign => exact ⟨iff_of_true rfl ((entry_foreign hid).mp hentry), nofun⟩
    | null =>
      exact ruleResult_returned (not_strays_of_entry hid (by rw [hentry]; nofun)) (same_refl d)
    | ctx i c =>
      have hstrays := not_strays_of_entry hid (by rw [hentry]; nofun)
      have hc := entry_eq_ctx hentry
      dsimp only
      split
      · exact ruleResult_returned hstrays (same_refl d)
      · split
        · exact ruleResult_returned hstrays (same_refl d)
        · split
          · exact ruleResult_returned hstrays (same_update hc (by rfl) _)
          · exact ruleResult_returned hstrays (same_update hc (by rfl) d.savedRules)

theorem removeRxRule_result (d : NxDev k) (id : Int) (beyond : Bool) (ruleId : Nat)
    (taken : Bool) :
    RuleResult d id beyond (d.nxNicMultictxRemoveRxRule id beyond ruleId taken) := by
  rw [nxNicMultictxRemoveRxRule]
  split
  · rename_i hid
    exact ruleResult_returned (fun h => absurd h.1 (by omega)) (same_refl d)
  · rename_i hid
    cases hentry : d.entry id beyond with
    | foreign => exact ⟨iff_of_true rfl ((entry_foreign hid).mp hentry), nofun⟩
    | null =>
      exact ruleResult_returned (not_strays_of_entry hid (by rw [hentry]; nofun)) (same_refl d)
    | ctx i c =>
      have hstrays := not_strays_of_entry hid (by rw [hentry]; nofun)
      have hc := entry_eq_ctx hentry
      dsimp only
      split
      · exact ruleResult_returned hstrays (same_refl d)
      · split
        · exact ruleResult_returned hstrays (same_refl d)
        · split
          · exact ruleResult_returned hstrays (same_update hc (by rfl) d.savedRules)
          · exact ruleResult_returned hstrays (same_refl d)

/-- A context has been created at the lowest open index. -/
structure Created (d d' : NxDev k) (i : Fin (k + 1)) : Prop where
  isOpen : d.Open i
  lowest : ∀ j, j < i → ¬d.Open j
  new : (d'.rxCtxs i).map RxCtx.thisId = some i
  others : ∀ j, j ≠ i → (d'.rxCtxs j).map RxCtx.thisId = (d.rxCtxs j).map RxCtx.thisId
  bits : ∀ j : Nat, j ≠ i → d'.rxCtxsState.getLsbD j = d.rxCtxsState.getLsbD j
  active : d'.activeRxCtxs = d.activeRxCtxs + 1

theorem Created.same (h : Created d d' i) (hsame : Same d' d'') : Created d d'' i where
  isOpen := h.isOpen
  lowest := h.lowest
  new := (hsame.places i).trans h.new
  others j hj := (hsame.places j).trans (h.others j hj)
  bits j hj := hsame.state ▸ h.bits j hj
  active := hsame.active.trans h.active

theorem Created.isSome (h : Created d d' i) (j : Fin (k + 1)) :
    (d'.rxCtxs j).isSome = ((d.rxCtxs j).isSome || decide (j = i)) := by
  by_cases hj : j = i
  · subst hj
    rw [← Option.isSome_map (f := RxCtx.thisId), h.new]
    simp
  · rw [isSome_eq_of_map (h.others j hj)]
    simp [hj]

theorem Created.placed (h : Created d d' i) (hd : d.Placed) : d'.Placed := by
  intro j c hc
  by_cases hj : j = i
  · subst hj
    have hnew := h.new
    rw [hc] at hnew
    exact Option.some.inj hnew
  · have hmap := h.others j hj
    rw [hc, Option.map_some] at hmap
    obtain ⟨c₀, hc₀, hid⟩ := Option.map_eq_some_iff.mp hmap.symm
    exact hid.symm.trans (hd j c₀ hc₀)

theorem Created.live (h : Created d d' i) : d'.live = insert i d.live := by
  ext j
  rw [Finset.mem_insert, mem_live, mem_live, h.isSome]
  simp [or_comm]

theorem Created.card_live (h : Created d d' i) : d'.live.card = d.live.card + 1 := by
  rw [h.live, Finset.card_insert_of_notMem]
  rw [mem_live, h.isOpen.1]
  exact Bool.false_ne_true

theorem findOpenRxId_eq_some :
    d.findOpenRxId = some i ↔ d.Open i ∧ ∀ j, j < i → ¬d.Open j := by
  rw [findOpenRxId, Fin.find?_eq_some_iff]
  simp [Open]

theorem findOpenRxId_eq_none : d.findOpenRxId = none ↔ ∀ i, ¬d.Open i := by
  rw [findOpenRxId, Fin.find?_eq_none_iff]
  simp [Open]

/-- A creation that fails leaves the device as it was. -/
theorem create_fails {failed : Option CreateStep} (h : failed ≠ none ∨ ∀ i, ¬d.Open i) :
    d.nxNicCreateRxCtx failed = (none, d) := by
  cases hopen : d.findOpenRxId with
  | none => simp only [nxNicCreateRxCtx, hopen]
  | some i =>
    obtain ⟨⟨hnull, -⟩, -⟩ := findOpenRxId_eq_some.mp hopen
    have hback : (d.nxFwCmdCreateRxCtxAlloc i).nxFwCmdCreateRxCtxFree (blank i) = d := by
      rw [nxFwCmdCreateRxCtxFree, if_neg]
      · have htable : Function.update (Function.update d.rxCtxs i (some (blank i))) i none =
            d.rxCtxs := by rw [Function.update_idem, ← hnull, Function.update_eq_self]
        show ({ d with
          rxCtxs := Function.update (Function.update d.rxCtxs i _) i none } : NxDev k) = d
        rw [htable]
      · rw [not_or, not_not]
        exact ⟨Function.update_self .., Nat.not_lt.mpr (Nat.le_add_left 1 _)⟩
    cases failed with
    | none =>
      obtain ⟨hisOpen, -⟩ := findOpenRxId_eq_some.mp hopen
      exact absurd hisOpen (h.resolve_left (fun hne => hne rfl) i)
    | some step =>
      cases step with
      | contextMem => simp only [nxNicCreateRxCtx, hopen]
      | _ => simp only [nxNicCreateRxCtx, hopen, hback]

theorem alloc_self (d : NxDev k) (i : Fin (k + 1)) :
    (d.nxFwCmdCreateRxCtxAlloc i).rxCtxs i = some (blank i) := by
  show Function.update d.rxCtxs i (some (blank i)) i = _
  rw [Function.update_self]

theorem alloc_of_ne (d : NxDev k) (h : j ≠ i) :
    (d.nxFwCmdCreateRxCtxAlloc i).rxCtxs j = d.rxCtxs j := by
  show Function.update d.rxCtxs i (some (blank i)) j = _
  rw [Function.update_of_ne h]

theorem created_alloc (h : d.findOpenRxId = some i) : Created d (d.nxFwCmdCreateRxCtxAlloc i) i :=
  have hfound := findOpenRxId_eq_some.mp h
  { isOpen := hfound.1
    lowest := hfound.2
    new := by
      rw [alloc_self]
      rfl
    others := fun j hj => by rw [alloc_of_ne d hj]
    bits := fun _ _ => rfl
    active := rfl }

theorem create_succeeds (h : d.findOpenRxId = some i) :
    d.nxNicCreateRxCtx none = (some i, d.nxFwCmdCreateRxCtxAlloc i) := by
  simp only [nxNicCreateRxCtx, h]

/-- **An allocation** creates no context and leaves the device as it was, or creates one. -/
theorem alloc_cases (d : NxDev k) (hk : k < 32) (o : AllocOutcome) :
    (o.failed ≠ none ∨ ∀ i, ¬d.Open i) ∧ d.nxNicMultictxAllocRxCtx o = (none, d) ∨
      o.failed = none ∧ ∃ i d', Created d d' i ∧
        d'.rxCtxs = Function.update d.rxCtxs i (some (blank i)) ∧ d'.savedRules = d.savedRules ∧
        (o.irqFails = true ∧ d.nxNicMultictxAllocRxCtx o = (none, d') ∧
            d'.rxCtxsState = d.rxCtxsState ∨
          o.irqFails = false ∧ d.nxNicMultictxAllocRxCtx o = (some i, d') ∧
            d'.rxCtxsState.getLsbD i = true) := by
  by_cases hfails : o.failed ≠ none ∨ ∀ i, ¬d.Open i
  · refine .inl ⟨hfails, ?_⟩
    rw [nxNicMultictxAllocRxCtx, create_fails hfails]
  · obtain ⟨hfailed, hopen⟩ := not_or.mp hfails
    have hfailed := not_not.mp hfailed
    cases hfound : d.findOpenRxId with
    | none => exact absurd (findOpenRxId_eq_none.mp hfound) hopen
    | some i =>
      have hcreated := created_alloc hfound
      refine .inr ⟨hfailed, i, ?_⟩
      rw [nxNicMultictxAllocRxCtx, hfailed, create_succeeds hfound]
      dsimp only
      cases o.irqFails with
      | true => exact ⟨_, hcreated, rfl, rfl, .inl ⟨rfl, rfl, rfl⟩⟩
      | false =>
        have hbit : ∀ j : Nat, (d.rxCtxsState ||| Bits.bit 32 i).getLsbD j =
            (d.rxCtxsState.getLsbD j || decide (j = i)) :=
          Bits.getLsbD_or_bit _ (by omega)
        refine ⟨{ d.nxFwCmdCreateRxCtxAlloc i with
          rxCtxsState := d.rxCtxsState ||| Bits.bit 32 i },
          { hcreated with bits := fun j hj => ?_ }, rfl, rfl, .inr ⟨rfl, rfl, ?_⟩⟩
        · refine (hbit j).trans ?_
          simp [hj]
        · refine (hbit i).trans ?_
          simp

/-- A round of the reset creates a context, unless it fails or there is no open index. -/
theorem resetRound_cases (d : NxDev k) (hk : k < 32) (o : AllocOutcome) :
    (o.failed ≠ none ∨ ∀ i, ¬d.Open i) ∧ d.resetRound o = d ∨
      o.failed = none ∧ ∃ i, Created d (d.resetRound o) i := by
  rcases alloc_cases d hk o with ⟨hfails, halloc⟩ | ⟨hfailed, i, d', hcreated, -, -, hres⟩
  · refine .inl ⟨hfails, ?_⟩
    rw [resetRound, halloc]
  · refine .inr ⟨hfailed, i, ?_⟩
    rcases hres with ⟨-, halloc, -⟩ | ⟨-, halloc, -⟩
    · rw [resetRound, halloc]
      exact hcreated
    · rw [resetRound, halloc]
      dsimp only
      split
      · refine hcreated.same ?_
        have hrule := (setRxRule_result d' i false (d'.savedRules i).mac o.macTaken).2
        rw [replayRule]
        split
        · rename_i hset
          exact hrule _ _ hset
        · exact same_refl d'
      · exact hcreated

/-! ## Freeing -/

/-- A context is freed. -/
theorem free_live (hplaced : d.Placed) (hactive : d.activeRxCtxs = d.live.card) {c : RxCtx k}
    (hc : d.rxCtxs i = some c) :
    d.nxFwCmdCreateRxCtxFree c = { d with
      rxCtxs := Function.update d.rxCtxs i none
      activeRxCtxs := d.activeRxCtxs - 1 } := by
  have hid := hplaced i c hc
  have hmem : i ∈ d.live := mem_live.mpr (by rw [hc]; rfl)
  have hpos : 0 < d.live.card := Finset.card_pos.mpr ⟨i, hmem⟩
  rw [nxFwCmdCreateRxCtxFree, hid, if_neg]
  rw [not_or, not_not]
  exact ⟨hc, by omega⟩

/-- The table without one of its contexts. -/
structure Freed (d d' : NxDev k) (i : Fin (k + 1)) : Prop where
  table : d'.rxCtxs = Function.update d.rxCtxs i none
  active : d'.activeRxCtxs = d'.live.card
  placed : d'.Placed

theorem freed_free (hplaced : d.Placed) (hactive : d.activeRxCtxs = d.live.card) {c : RxCtx k}
    (hc : d.rxCtxs i = some c) : Freed d (d.nxFwCmdCreateRxCtxFree c) i := by
  have hmem : i ∈ d.live := mem_live.mpr (by rw [hc]; rfl)
  rw [free_live hplaced hactive hc]
  refine ⟨rfl, ?_, fun j c' hc' => ?_⟩
  · have hlive : ({ d with
        rxCtxs := Function.update d.rxCtxs i none
        activeRxCtxs := d.activeRxCtxs - 1 } : NxDev k).live = d.live.erase i := by
      ext j
      rw [Finset.mem_erase, mem_live, mem_live]
      by_cases hj : j = i
      · subst hj
        simp
      · simp [hj]
    rw [hlive, Finset.card_erase_of_mem hmem, ← hactive]
  · by_cases hj : j = i
    · subst hj
      exact absurd ((Function.update_self j none d.rxCtxs).symm.trans hc') nofun
    · exact hplaced j c' ((Function.update_of_ne hj none d.rxCtxs).symm.trans hc')

/-- The contexts at the indices of a list are freed. -/
theorem foldl_free (l : List (Fin (k + 1))) (hplaced : d.Placed)
    (hactive : d.activeRxCtxs = d.live.card) :
    (∀ i, (l.foldl freeEntry d).rxCtxs i = if i ∈ l then none else d.rxCtxs i) ∧
      (l.foldl freeEntry d).activeRxCtxs = (l.foldl freeEntry d).live.card ∧
      (l.foldl freeEntry d).rxCtxsState = d.rxCtxsState ∧
      (l.foldl freeEntry d).savedRules = d.savedRules := by
  induction l generalizing d with
  | nil => exact ⟨fun i => (if_neg List.not_mem_nil).symm, hactive, rfl, rfl⟩
  | cons i l ih =>
    rw [List.foldl_cons]
    cases hc : d.rxCtxs i with
    | none =>
      have hentry : d.freeEntry i = d := by rw [freeEntry, hc]
      rw [hentry]
      obtain ⟨htable, hrest⟩ := ih hplaced hactive
      refine ⟨fun j => (htable j).trans ?_, hrest⟩
      by_cases hj : j = i
      · subst hj
        simp [hc]
      · simp [hj]
    | some c =>
      have hfreed := freed_free hplaced hactive hc
      have hfree := free_live hplaced hactive hc
      have hentry : d.freeEntry i = d.nxFwCmdCreateRxCtxFree c := by rw [freeEntry, hc]
      rw [hentry]
      obtain ⟨htable, hactive', hstate, hsaved⟩ := ih hfreed.placed hfreed.active
      refine ⟨fun j => (htable j).trans ?_, hactive', hstate.trans ?_, hsaved.trans ?_⟩
      · rw [hfreed.table]
        by_cases hj : j = i
        · subst hj
          simp
        · simp [hj]
      · rw [hfree]
      · rw [hfree]

/-- **The detach** frees all the contexts, and leaves the bits. -/
theorem detached (hplaced : d.Placed) (hactive : d.activeRxCtxs = d.live.card) :
    d.unmNicFreeRingContext = { d with rxCtxs := fun _ => none, activeRxCtxs := 0 } := by
  obtain ⟨htable, hactive', hstate, hsaved⟩ := foldl_free (List.finRange (k + 1)) hplaced hactive
  have hnone : d.unmNicFreeRingContext.rxCtxs = fun _ => none :=
    funext fun i => (htable i).trans (if_pos (List.mem_finRange i))
  have hzero : d.unmNicFreeRingContext.activeRxCtxs = 0 := by
    refine hactive'.trans (Finset.card_eq_zero.mpr ?_)
    refine Finset.eq_empty_of_forall_notMem fun i hi => ?_
    have hsome : (d.unmNicFreeRingContext.rxCtxs i).isSome = true := mem_live.mp hi
    rw [hnone] at hsome
    exact absurd hsome Bool.false_ne_true
  rw [← hnone, ← hzero, ← hstate, ← hsaved]
  rfl

/-- The contexts are in the first entries. -/
def Packed (d : NxDev k) : Prop :=
  ∀ i : Fin (k + 1), i.val < d.activeRxCtxs → (d.rxCtxs i).isSome = true

instance decidablePacked (d : NxDev k) : Decidable d.Packed :=
  inferInstanceAs (Decidable (∀ _ : Fin (k + 1), _ → _))

theorem destroyLoop_eq_some {l : List (Fin (k + 1))} :
    d.destroyLoop l = some d' ↔ (∀ i ∈ l, (d.rxCtxs i).isSome = true) ∧ d' = d := by
  induction l with
  | nil =>
    rw [destroyLoop, Option.some.injEq, eq_comm]
    exact (and_iff_right fun i hi => absurd hi List.not_mem_nil).symm
  | cons i rest ih =>
    rw [destroyLoop, Option.ite_none_right_eq_some, ih, List.forall_mem_cons, and_assoc]

/-- The loop ends just where the contexts are in the first entries. -/
theorem destroy_eq_some : d.unmNicNewRxContextDestroy = some d' ↔ d.Packed ∧ d' = d := by
  rw [unmNicNewRxContextDestroy, destroyLoop_eq_some]
  simp only [Bits.mem_take_finRange, Packed]

/-- **The detach** ends just where it has nothing to destroy or the contexts are in the first
entries. -/
theorem detach_eq_some {fwV34 isUp : Bool} : d.unmNicDetach fwV34 isUp = some d' ↔
    (isUp = true → fwV34 = false → d.Packed) ∧ d' = d.unmNicFreeRingContext := by
  have hends : ∀ t, (if isUp && !fwV34 then d.unmNicNewRxContextDestroy else some d) = some t ↔
      (isUp = true → fwV34 = false → d.Packed) ∧ t = d := by
    intro t
    cases isUp <;> cases fwV34 <;> simp [destroy_eq_some, eq_comm (a := d)]
  rw [unmNicDetach, Option.map_eq_some_iff]
  constructor
  · rintro ⟨t, ht, rfl⟩
    obtain ⟨hpacked, rfl⟩ := (hends t).mp ht
    exact ⟨hpacked, rfl⟩
  · rintro ⟨hpacked, rfl⟩
    exact ⟨d, (hends d).mpr ⟨hpacked, rfl⟩, rfl⟩

end NxDev
end Ctx
end NxNic

import NxNic.Ctx.Recreation

/-! # Rules of receive contexts over a reset

`nx_nic_multictx_set_rx_rule` keeps a copy of the rule in `saved_rules`, and a reset sets a rule
from there for each context that it creates anew.  Nothing takes a rule out of `saved_rules`: a
context comes back with a rule whether or not it had one, except for the default one, which comes
back without.

The state is a `CtxWorld`, and its steps are the calls with ids in the table, in any order.  They
keep `Ruled`: each context has one rule, whose count is right, and an active rule is the one that
is saved.  A reset begins with the detach, whose loop ends only where no entry below the number of
contexts is `NULL` (`Packed`); then its rounds keep `Replayed`, by which a context that is back
has the saved rule.  `rules_survive_iff` puts the two together, for the reset after any run.
-/
namespace NxNic
namespace Ctx

/-- Nothing fails in an allocation and the rule after it. -/
def AllocOutcome.Succeeds (o : AllocOutcome) : Prop := o = ⟨none, false, true⟩

namespace NxDev

variable {k : Nat} {d d' t : NxDev k} {i j : Fin (k + 1)} {c : RxCtx k} {w : CtxWorld k}

/-- The MAC addresses of the active rules of a context. -/
def activeMacs (d : NxDev k) (i : Fin (k + 1)) : List (BitVec 48) :=
  match d.rxCtxs i with
  | some c => (c.rules.filter RxRule.active).map RxRule.mac
  | none => []

/-- The counts of active rules are right, and within the number of rules. -/
def RulesCounted (d : NxDev k) : Prop :=
  ∀ i c, d.rxCtxs i = some c →
    c.activeRxRules = c.rules.countP RxRule.active ∧ c.activeRxRules ≤ c.rules.length

/-- A set or a remove that returns -1 changes no rule. -/
def RefusalsKeep (d : NxDev k) : Prop :=
  (∀ id beyond mac taken d', d.nxNicMultictxSetRxRule id beyond mac taken = .returned false d' →
    ∀ i, (d'.rxCtxs i).map RxCtx.rules = (d.rxCtxs i).map RxCtx.rules) ∧
  ∀ id beyond ruleId taken d',
    d.nxNicMultictxRemoveRxRule id beyond ruleId taken = .returned false d' →
      ∀ i, (d'.rxCtxs i).map RxCtx.rules = (d.rxCtxs i).map RxCtx.rules

/-- Every context that was live is live, with the rule that it had. -/
def Survives (d t : NxDev k) : Prop :=
  ∀ i, (d.rxCtxs i).isSome →
    (t.rxCtxs i).isSome ∧ ∀ mac, mac ∈ t.activeMacs i ↔ mac ∈ d.activeMacs i

/-- **The condition**: the default context finds its place free, and has no rule; every other
context has its bit and a rule. -/
def AllRuled (d : NxDev k) : Prop :=
  (d.rxCtxsState.getLsbD 0 = false ∨ ∀ i : Fin (k + 1), d.rxCtxsState.getLsbD i = true) ∧
    ∀ i, (d.rxCtxs i).isSome →
      (i.val = 0 → d.activeMacs i = []) ∧
      (i.val ≠ 0 → d.rxCtxsState.getLsbD i = true ∧ d.activeMacs i ≠ [])

instance (d : NxDev k) : Decidable d.AllRuled := inferInstanceAs (Decidable (_ ∧ _))

/-- The context has one rule, and its MAC address is kept in `saved` while it is active. -/
structure OneRule (saved : RxRule) (c : RxCtx k) (r : RxRule) : Prop where
  rules : c.rules = [r]
  id : r.id = 0
  count : c.activeRxRules = if r.active then 1 else 0
  saved : r.active = true → r.mac = saved.mac

/-- What the operations keep. -/
structure Booked (d : NxDev k) : Prop where
  placed : d.Placed
  active : d.activeRxCtxs = d.live.card
  one : ∀ i c, d.rxCtxs i = some c → ∃ r, OneRule (d.savedRules i) c r

theorem Booked.counted (h : d.Booked) : d.RulesCounted := by
  intro i c hc
  obtain ⟨r, hr⟩ := h.one i c hc
  rw [hr.rules, hr.count]
  cases hactive : r.active <;> simp [hactive]

/-! ## Setting and removing a rule -/

theorem numberRule_eq (hc : d.rxCtxs i = some c) {saved r : RxRule} (h : OneRule saved c r) :
    d.numberRule i c 0 = d := by
  have hrules : c.rules.modify 0 (fun r => { r with id := 0 }) = c.rules := by
    rw [h.rules]
    show [{ r with id := 0 }] = [r]
    rw [← h.id]
  rw [numberRule, hrules, ← hc, Function.update_eq_self]

theorem Booked.set_cases (h : d.Booked) (id : Int) (beyond : Bool) (mac : BitVec 48)
    (taken : Bool) :
    d.nxNicMultictxSetRxRule id beyond mac taken = .astray ∨
      d.nxNicMultictxSetRxRule id beyond mac taken = .returned false d ∨
      ∃ i c r, d.rxCtxs i = some c ∧ OneRule (d.savedRules i) c r ∧ r.active = false ∧
        d.nxNicMultictxSetRxRule id beyond mac taken = .returned true (d.addRule i c 0 mac) := by
  rw [nxNicMultictxSetRxRule]
  split
  · exact .inr (.inl rfl)
  · cases hentry : d.entry id beyond with
    | foreign => exact .inl rfl
    | null => exact .inr (.inl rfl)
    | ctx i c =>
      have hc := entry_eq_ctx hentry
      obtain ⟨r, hr⟩ := h.one i c hc
      dsimp only
      rw [hr.count, hr.rules]
      cases hactive : r.active with
      | true => exact .inr (.inl rfl)
      | false =>
        have hfind : [r].findIdx? (fun r => !r.active) = some 0 := by
          rw [List.findIdx?_cons, hactive]
          rfl
        rw [hfind]
        cases taken with
        | false =>
          refine .inr (.inl ?_)
          show Result.returned false (d.numberRule i c 0) = _
          rw [numberRule_eq hc hr]
        | true => exact .inr (.inr ⟨i, c, r, hc, hr, hactive, rfl⟩)

theorem Booked.remove_cases (h : d.Booked) (id : Int) (beyond : Bool) (ruleId : Nat)
    (taken : Bool) :
    d.nxNicMultictxRemoveRxRule id beyond ruleId taken = .astray ∨
      d.nxNicMultictxRemoveRxRule id beyond ruleId taken = .returned false d ∨
      ∃ i c r, d.rxCtxs i = some c ∧ OneRule (d.savedRules i) c r ∧ r.active = true ∧
        d.nxNicMultictxRemoveRxRule id beyond ruleId taken = .returned true (d.dropRule i c 0) := by
  rw [nxNicMultictxRemoveRxRule]
  split
  · exact .inr (.inl rfl)
  · cases hentry : d.entry id beyond with
    | foreign => exact .inl rfl
    | null => exact .inr (.inl rfl)
    | ctx i c =>
      have hc := entry_eq_ctx hentry
      obtain ⟨r, hr⟩ := h.one i c hc
      dsimp only
      rw [hr.rules]
      cases ruleId with
      | succ n => exact .inr (.inl rfl)
      | zero =>
        rw [List.getElem?_cons_zero]
        dsimp only
        cases hactive : r.active with
        | false => exact .inr (.inl rfl)
        | true =>
          cases taken with
          | false => exact .inr (.inl rfl)
          | true => exact .inr (.inr ⟨i, c, r, hc, hr, hactive, rfl⟩)

theorem Booked.refusalsKeep (h : d.Booked) : d.RefusalsKeep := by
  constructor
  · intro id beyond mac taken d' hres i
    rcases h.set_cases id beyond mac taken with heq | heq | ⟨_, _, _, -, -, -, heq⟩
    · exact absurd (heq.symm.trans hres) nofun
    · obtain ⟨-, rfl⟩ := Result.returned.inj (heq.symm.trans hres)
      rfl
    · exact absurd (Result.returned.inj (heq.symm.trans hres)).1 nofun
  · intro id beyond ruleId taken d' hres i
    rcases h.remove_cases id beyond ruleId taken with heq | heq | ⟨_, _, _, -, -, -, heq⟩
    · exact absurd (heq.symm.trans hres) nofun
    · obtain ⟨-, rfl⟩ := Result.returned.inj (heq.symm.trans hres)
      rfl
    · exact absurd (Result.returned.inj (heq.symm.trans hres)).1 nofun

/-- An operation on rules that leaves the other contexts and what is saved for them. -/
theorem Booked.ofRule (h : d.Booked) (hsame : Same d d')
    (hother : ∀ j, j ≠ i → d'.rxCtxs j = d.rxCtxs j ∧ d'.savedRules j = d.savedRules j)
    (hone : ∀ c, d'.rxCtxs i = some c → ∃ r, OneRule (d'.savedRules i) c r) : d'.Booked where
  placed := hsame.placed h.placed
  active := by rw [hsame.active, hsame.live, h.active]
  one j c hc := by
    by_cases hj : j = i
    · subst hj
      exact hone c hc
    · obtain ⟨htable, hsaved⟩ := hother j hj
      rw [hsaved]
      exact h.one j c (htable ▸ hc)

theorem Booked.addRule {r : RxRule} (h : d.Booked) (hc : d.rxCtxs i = some c)
    (hr : OneRule (d.savedRules i) c r) (hactive : r.active = false) (mac : BitVec 48) :
    (d.addRule i c 0 mac).Booked := by
  refine h.ofRule (same_update hc (by rfl) _)
    (fun j hj => ⟨Function.update_of_ne hj .., Function.update_of_ne hj ..⟩) fun c' hc' => ?_
  obtain rfl := Option.some.inj ((Function.update_self i _ d.rxCtxs).symm.trans hc')
  have hcount := hr.count
  rw [hactive, if_neg Bool.false_ne_true] at hcount
  refine ⟨⟨0, true, mac⟩, ?_, rfl, ?_, fun _ => ?_⟩
  · show c.rules.set 0 _ = _
    rw [hr.rules]
    rfl
  · show c.activeRxRules + 1 = 1
    rw [hcount]
  · exact congrArg RxRule.mac (Function.update_self i (⟨0, true, mac⟩ : RxRule) d.savedRules).symm

theorem Booked.dropRule {r : RxRule} (h : d.Booked) (hc : d.rxCtxs i = some c)
    (hr : OneRule (d.savedRules i) c r) (hactive : r.active = true) :
    (d.dropRule i c 0).Booked := by
  refine h.ofRule (same_update hc (by rfl) d.savedRules)
    (fun j hj => ⟨Function.update_of_ne hj .., rfl⟩) fun c' hc' => ?_
  obtain rfl := Option.some.inj ((Function.update_self i _ d.rxCtxs).symm.trans hc')
  have hcount := hr.count
  rw [hactive, if_pos rfl] at hcount
  refine ⟨{ r with active := false }, ?_, hr.id, ?_, nofun⟩
  · show c.rules.modify 0 _ = _
    rw [hr.rules]
    rfl
  · show c.activeRxRules - 1 = 0
    rw [hcount]

/-- A context without a rule. -/
theorem oneRule_blank (saved : RxRule) (i : Fin (k + 1)) : OneRule saved (blank i) ⟨0, false, 0⟩ :=
  ⟨rfl, rfl, rfl, nofun⟩

theorem Booked.alloc (h : d.Booked) (hcreated : Created d d' i)
    (htable : d'.rxCtxs = Function.update d.rxCtxs i (some (blank i)))
    (hsaved : d'.savedRules = d.savedRules) : d'.Booked where
  placed := hcreated.placed h.placed
  active := by rw [hcreated.active, hcreated.card_live, h.active]
  one j c hc := by
    rw [hsaved]
    rw [htable] at hc
    by_cases hj : j = i
    · subst hj
      rw [Function.update_self] at hc
      exact ⟨_, Option.some.inj hc ▸ oneRule_blank _ j⟩
    · rw [Function.update_of_ne hj] at hc
      exact h.one j c hc

theorem Booked.free (h : d.Booked) (hc : d.rxCtxs i = some c) :
    ({ d.nxFwCmdCreateRxCtxFree c with
      rxCtxsState := (d.nxFwCmdCreateRxCtxFree c).rxCtxsState &&& ~~~Bits.bit 32 i } :
        NxDev k).Booked := by
  have hfreed := freed_free h.placed h.active hc
  have hfree := free_live h.placed h.active hc
  refine ⟨hfreed.placed, hfreed.active, fun j c' hc' => ?_⟩
  have hc' : (d.nxFwCmdCreateRxCtxFree c).rxCtxs j = some c' := hc'
  show ∃ r, OneRule ((d.nxFwCmdCreateRxCtxFree c).savedRules j) c' r
  rw [hfreed.table] at hc'
  rw [hfree]
  by_cases hj : j = i
  · subst hj
    rw [Function.update_self] at hc'
    exact absurd hc' nofun
  · rw [Function.update_of_ne hj] at hc'
    exact h.one j c' hc'

/-! ## The reset -/

/-- The rule of a context after a reset. -/
def recreatedRule (d : NxDev k) (i : Fin (k + 1)) : RxRule :=
  if i.val = 0 then ⟨0, false, 0⟩ else ⟨0, true, (d.savedRules i).mac⟩

/-- A round in which nothing fails. -/
theorem resetRound_succeeds (hfound : d.findOpenRxId = some i) {o : AllocOutcome}
    (ho : o.Succeeds) :
    (∃ c, (d.resetRound o).rxCtxs = Function.update d.rxCtxs i (some c) ∧
      c.rules = [d.recreatedRule i]) ∧
    ∀ j, ((d.resetRound o).savedRules j).mac = (d.savedRules j).mac := by
  subst ho
  generalize hd : ({ d.nxFwCmdCreateRxCtxAlloc i with
    rxCtxsState := d.rxCtxsState ||| Bits.bit 32 i } : NxDev k) = e
  have halloc : d.nxNicMultictxAllocRxCtx ⟨none, false, true⟩ = (some i, e) := by
    rw [nxNicMultictxAllocRxCtx, create_succeeds hfound, ← hd]
    rfl
  have htable : e.rxCtxs = Function.update d.rxCtxs i (some (blank i)) := by
    rw [← hd]
    rfl
  have hsaved : e.savedRules = d.savedRules := by
    rw [← hd]
    rfl
  rw [resetRound, halloc]
  by_cases hi : i = 0
  · subst hi
    exact ⟨⟨blank 0, htable, rfl⟩, fun j => by rw [← hsaved]; rfl⟩
  · have hentry : e.entry i false = .ctx i (blank i) :=
      entry_live (by rw [htable, Function.update_self]) false
    have hset : e.nxNicMultictxSetRxRule i false (e.savedRules i).mac true =
        .returned true (e.addRule i (blank i) 0 (e.savedRules i).mac) := by
      rw [nxNicMultictxSetRxRule, if_neg (by omega), hentry]
      rfl
    have hround : (if 0 < i then e.replayRule i true else e) =
        e.addRule i (blank i) 0 (e.savedRules i).mac := by
      rw [if_pos (Fin.pos_iff_ne_zero.mpr hi), replayRule, hset]
    refine ⟨⟨⟨i, 1, [⟨0, true, (e.savedRules i).mac⟩]⟩, (congrArg NxDev.rxCtxs hround).trans ?_,
      ?_⟩, fun j => ?_⟩
    · show Function.update e.rxCtxs i _ = _
      rw [htable, Function.update_idem]
      rfl
    · rw [recreatedRule, if_neg (Fin.val_ne_zero_iff.mpr hi), ← hsaved]
    · refine (congrArg (fun d : NxDev k => (d.savedRules j).mac) hround).trans ?_
      show (Function.update e.savedRules i _ j).mac = _
      rw [hsaved]
      by_cases hj : j = i
      · subst hj
        rw [Function.update_self]
      · rw [Function.update_of_ne hj]

/-- **What the loop keeps** while nothing fails: the contexts that it has created have the rules
of `saved_rules`. -/
structure Replayed (saved : BitVec 32) (d₀ d : NxDev k) : Prop extends Recreating saved d₀ d where
  macs : ∀ i, (d.savedRules i).mac = (d₀.savedRules i).mac
  ruled : ∀ i : Fin (k + 1), saved.getLsbD i = true → ¬d.Open i →
    ∃ c, d.rxCtxs i = some c ∧ c.rules = [d₀.recreatedRule i]
  others : ∀ i : Fin (k + 1), saved.getLsbD i = false → d.rxCtxs i = d₀.rxCtxs i

theorem Replayed.round {saved : BitVec 32} {d₀ : NxDev k} (hk : k < 32)
    (h : Replayed saved d₀ d) {o : AllocOutcome} (ho : o.Succeeds) :
    Replayed saved d₀ (d.resetRound o) := by
  rcases resetRound_cases d hk o with ⟨-, hround⟩ | ⟨-, i, hcreated⟩
  · exact hround.symm ▸ h
  · have hfound : d.findOpenRxId = some i :=
      findOpenRxId_eq_some.mpr ⟨hcreated.isOpen, hcreated.lowest⟩
    obtain ⟨⟨c, htable, hrules⟩, hmacs⟩ := resetRound_succeeds hfound ho
    refine ⟨h.toRecreating.created hcreated, fun j => (hmacs j).trans (h.macs j), ?_, ?_⟩
    · intro j hsaved hopen
      rw [htable]
      by_cases hj : j = i
      · subst hj
        refine ⟨c, Function.update_self .., hrules.trans ?_⟩
        rw [recreatedRule, recreatedRule, h.macs]
      · rw [Function.update_of_ne hj]
        exact h.ruled j hsaved fun hj' => hopen ((hcreated.open_iff j).mpr ⟨hj', hj⟩)
    · intro j hsaved
      have hj : j ≠ i := by
        rintro rfl
        exact absurd ((h.missing j hcreated.isOpen).symm.trans hsaved) nofun
      rw [htable, Function.update_of_ne hj]
      exact h.others j hsaved

/-- A round keeps the rules in order, whatever fails in it. -/
theorem Booked.round (hk : k < 32) (h : d.Booked) (o : AllocOutcome) : (d.resetRound o).Booked := by
  rcases alloc_cases d hk o with
    ⟨-, halloc⟩ | ⟨-, i, d', hcreated, htable, hsaved, ⟨-, halloc, -⟩ | ⟨-, halloc, -⟩⟩
  · rw [resetRound, halloc]
    exact h
  · rw [resetRound, halloc]
    exact h.alloc hcreated htable hsaved
  · have hd' := h.alloc hcreated htable hsaved
    rw [resetRound, halloc]
    dsimp only
    split
    · rw [replayRule]
      rcases hd'.set_cases i false (d'.savedRules i).mac o.macTaken with
        hset | hset | ⟨_, c, r, hc, hr, hactive, hset⟩
      · rw [hset]
        exact hd'
      · rw [hset]
        exact hd'
      · rw [hset]
        exact hd'.addRule hc hr hactive _
    · exact hd'

/-- **The reset** in which nothing fails, from the device that `unm_nic_attach` leaves. -/
theorem Replayed.reset {outs : List AllocOutcome} (hk : k < 32) (h : d.Booked)
    (hbits : ∀ i : Nat, d.rxCtxsState.getLsbD i = true → i < k + 1)
    (hgone : ∀ i : Fin (k + 1), d.rxCtxsState.getLsbD i = true → d.rxCtxs i = none)
    (houts : ∀ o ∈ outs, o.Succeeds) (hreset : d.nxResetNetqRxQueues outs = some t) :
    t.Booked ∧
      (∀ i : Fin (k + 1), d.rxCtxsState.getLsbD i = true →
        ∃ c, t.rxCtxs i = some c ∧ c.rules = [d.recreatedRule i]) ∧
      ∀ i : Fin (k + 1), d.rxCtxsState.getLsbD i = false → t.rxCtxs i = d.rxCtxs i := by
  obtain ⟨r, hloop, rfl, hr, hcount⟩ :=
    nxResetNetqRxQueues_spec hk h.placed h.active hbits hgone hreset
  have hbooked : r.Booked :=
    resetLoop_keeps (I := Booked) (fun _ o _ he => he.round hk o)
      (show d.inverted.Booked from { h with }) hloop
  have hreplayed : Replayed d.rxCtxsState d r :=
    resetLoop_keeps (I := Replayed d.rxCtxsState d) (fun _ o ho he => he.round hk (houts o ho))
      { recreating_inverted hk h.placed h.active hgone with
        macs := fun _ => rfl
        ruled := fun i hsaved hopen => absurd ((open_inverted hk hgone i).mpr hsaved) hopen
        others := fun _ _ => rfl } hloop
  have hnone : ∀ i, ¬r.Open i := by
    have hzero : outs.countP (fun o => o.failed.isSome) = 0 :=
      List.countP_eq_zero.mpr fun o ho => by rw [houts o ho]; exact Bool.false_ne_true
    rw [hzero, Finset.card_eq_zero] at hcount
    exact fun i hi => Finset.notMem_empty i (hcount ▸ mem_openIds.mpr hi)
  exact ⟨{ hbooked with }, fun i hsaved => hreplayed.ruled i hsaved (hnone i), hreplayed.others⟩

end NxDev

/-! ## The rules over whole runs -/

variable {k : Nat} {w u v : CtxWorld k} {a : CtxAction}

/-- A call with a valid id; a reset is none of these calls. -/
def CtxAction.Valid (k : Nat) : CtxAction → Prop
  | .alloc _ => True
  | .free id _ => 0 ≤ id ∧ id < k + 1
  | .setRule id _ _ _ => 0 ≤ id ∧ id < k + 1
  | .removeRule id _ _ _ => 0 ≤ id ∧ id < k + 1
  | .reset _ _ => False

instance (k : Nat) : (a : CtxAction) → Decidable (a.Valid k)
  | .alloc _ => isTrue trivial
  | .free _ _ => inferInstanceAs (Decidable (_ ∧ _))
  | .setRule _ _ _ _ => inferInstanceAs (Decidable (_ ∧ _))
  | .removeRule _ _ _ _ => inferInstanceAs (Decidable (_ ∧ _))
  | .reset _ _ => isFalse id

/-- What such calls keep. -/
structure CtxWorld.Ruled (w : CtxWorld k) : Prop where
  astray : w.astray = false
  booked : w.dev.Booked
  small : ∀ i : Nat, w.dev.rxCtxsState.getLsbD i = true → i < k + 1

theorem not_strays {id : Int} (h : 0 ≤ id ∧ id < k + 1) (beyond : Bool) :
    ¬NxDev.Strays k id beyond := fun hstrays => hstrays.2.1 ⟨h.1, by omega⟩

namespace CtxWorld

theorem Ruled.alloc (hk : k < 32) (h : w.Ruled) (o : AllocOutcome) : (w.alloc o).Ruled := by
  rw [CtxWorld.alloc]
  rcases w.dev.alloc_cases hk o with
    ⟨-, halloc⟩ | ⟨-, i, d, hcreated, htable, hsaved, ⟨-, halloc, -⟩ | ⟨-, halloc, -⟩⟩
  · rw [halloc]
    exact { h with }
  all_goals
    rw [halloc]
    refine { h with booked := h.booked.alloc hcreated htable hsaved, small := fun n hn => ?_ }
    by_cases hni : n = i
    · exact hni ▸ i.isLt
    · exact h.small n ((hcreated.bits n hni).symm.trans hn)

theorem Ruled.free (hk : k < 32) (h : w.Ruled) {id : Int} (beyond : Bool)
    (hid : 0 ≤ id ∧ id < k + 1) : (w.takes (w.dev.nxNicMultictxFreeRxCtx id beyond)).Ruled := by
  rw [NxDev.nxNicMultictxFreeRxCtx]
  split
  · exact { h with }
  · rename_i hle
    cases hentry : w.dev.entry id beyond with
    | foreign => exact absurd ((NxDev.entry_foreign hle).mp hentry) (not_strays hid beyond)
    | null => exact { h with }
    | ctx i c =>
      have hc := NxDev.entry_eq_ctx hentry
      refine { h with booked := h.booked.free hc, small := fun n hn => ?_ }
      have hbit : ((w.dev.nxFwCmdCreateRxCtxFree c).rxCtxsState &&& ~~~Bits.bit 32 i).getLsbD n =
        true := hn
      rw [Bits.getLsbD_and_not_bit _ (by omega), NxDev.free_live h.booked.placed h.booked.active hc,
        Bool.and_eq_true] at hbit
      exact h.small n hbit.1

/-- A call that leaves the bits, with what it comes to. -/
theorem Ruled.takes {id : Int} {beyond : Bool} {r : NxDev.Result k} (h : w.Ruled)
    (hid : 0 ≤ id ∧ id < k + 1) (hr : NxDev.RuleResult w.dev id beyond r)
    (hbooked : ∀ ok d, r = .returned ok d → d.Booked) : (w.takes r).Ruled := by
  cases r with
  | returned ok d =>
    exact { h with
      booked := hbooked ok d rfl
      small := fun n hn => h.small n ((hr.2 ok d rfl).state ▸ hn) }
  | astray => exact absurd (hr.1.mp rfl) (not_strays hid beyond)

theorem Ruled.step (hk : k < 32) (h : w.Ruled) (ha : a.Valid k)
    (hnext : (ctxMachine k).next w a = some u) : u.Ruled := by
  obtain ⟨-, hnext⟩ := Option.ite_none_left_eq_some.mp hnext
  cases a with
  | alloc o => exact Option.some.inj hnext ▸ h.alloc hk o
  | free id beyond => exact Option.some.inj hnext ▸ h.free hk beyond ha
  | setRule id beyond mac taken =>
    refine Option.some.inj hnext ▸ h.takes ha (NxDev.setRxRule_result ..) fun ok d hd => ?_
    rcases h.booked.set_cases id beyond mac taken with heq | heq | ⟨i, c, r, hc, hr, hactive, heq⟩
    · exact absurd (heq.symm.trans hd) nofun
    · exact (NxDev.Result.returned.inj (heq.symm.trans hd)).2 ▸ h.booked
    · exact (NxDev.Result.returned.inj (heq.symm.trans hd)).2 ▸ h.booked.addRule hc hr hactive mac
  | removeRule id beyond ruleId taken =>
    refine Option.some.inj hnext ▸ h.takes ha (NxDev.removeRxRule_result ..) fun ok d hd => ?_
    rcases h.booked.remove_cases id beyond ruleId taken with
      heq | heq | ⟨i, c, r, hc, hr, hactive, heq⟩
    · exact absurd (heq.symm.trans hd) nofun
    · exact (NxDev.Result.returned.inj (heq.symm.trans hd)).2 ▸ h.booked
    · exact (NxDev.Result.returned.inj (heq.symm.trans hd)).2 ▸ h.booked.dropRule hc hr hactive
  | reset attached outs => exact ha.elim

theorem Ruled.init (attached : Bool) (saved : Fin (k + 1) → RxRule) :
    (CtxWorld.init attached saved).Ruled := by
  have hkept := CtxWorld.kept_init attached saved
  have hstate : (CtxWorld.init attached saved).dev.rxCtxsState = 0 := by cases attached <;> rfl
  refine ⟨hkept.astray, ⟨hkept.placed, hkept.consistent.active, fun i c hc => ?_⟩, fun n hn => ?_⟩
  · cases attached with
    | false => exact absurd hc nofun
    | true =>
      by_cases hi : i = 0
      · subst hi
        have hc := (NxDev.alloc_self ⟨fun _ => none, saved, 0, 0⟩ 0).symm.trans hc
        exact ⟨_, Option.some.inj hc ▸ NxDev.oneRule_blank _ 0⟩
      · exact absurd ((NxDev.alloc_of_ne ⟨fun _ => none, saved, 0, 0⟩ hi).symm.trans hc) nofun
  · rw [hstate] at hn
    exact absurd (BitVec.getLsbD_zero.symm.trans hn) nofun

end CtxWorld

namespace NxDev
variable {d t : NxDev k}

theorem activeMacs_of_rules {i : Fin (k + 1)} {c : RxCtx k} {r : RxRule}
    (hc : d.rxCtxs i = some c) (hr : c.rules = [r]) :
    d.activeMacs i = if r.active then [r.mac] else [] := by
  rw [activeMacs, hc]
  dsimp only
  rw [hr]
  cases hactive : r.active <;> simp [hactive]

/-- The contexts survive just under the condition, when those with a bit are there afterwards with
what `saved_rules` says, and the default one without a rule. -/
theorem survives_iff (h : d.Booked)
    (hfree : d.rxCtxsState.getLsbD 0 = false ∨ ∀ i : Fin (k + 1), d.rxCtxsState.getLsbD i = true)
    (hmade : ∀ i : Fin (k + 1), d.rxCtxsState.getLsbD i = true →
      ∃ c, t.rxCtxs i = some c ∧ c.rules = [d.recreatedRule i])
    (hdefault : d.rxCtxsState.getLsbD 0 = false → t.rxCtxs 0 = some (blank 0))
    (hothers : ∀ i : Fin (k + 1), i ≠ 0 → d.rxCtxsState.getLsbD i = false → t.rxCtxs i = none) :
    d.Survives t ↔ d.AllRuled := by
  have hzero : ∃ c, t.rxCtxs 0 = some c ∧ c.rules = [⟨0, false, 0⟩] := by
    rcases hfree with hclear | hall
    · exact ⟨blank 0, hdefault hclear, rfl⟩
    · exact hmade 0 (hall 0)
  rw [Survives, AllRuled, and_iff_right hfree]
  refine forall_congr' fun i => imp_congr_right fun hlive => ?_
  obtain ⟨c, hc⟩ := Option.isSome_iff_exists.mp hlive
  obtain ⟨r, hr⟩ := h.one i c hc
  have hhas := activeMacs_of_rules hc hr.rules
  by_cases hi : i = 0
  · subst hi
    obtain ⟨c₀, hc₀, hrules⟩ := hzero
    rw [activeMacs_of_rules hc₀ hrules, hc₀]
    simp [List.eq_nil_iff_forall_not_mem]
  · have hi' : i.val ≠ 0 := Fin.val_ne_zero_iff.mpr hi
    simp only [hi', false_implies, true_and, ne_eq, not_false_eq_true, forall_const]
    cases hbit : d.rxCtxsState.getLsbD i with
    | false =>
      rw [hothers i hi hbit]
      exact iff_of_false (fun hlost => absurd hlost.1 Bool.false_ne_true)
        fun hlost => absurd hlost.1 Bool.false_ne_true
    | true =>
      obtain ⟨c', hc', hrules⟩ := hmade i hbit
      have hagain : t.activeMacs i = [(d.savedRules i).mac] := by
        rw [activeMacs_of_rules hc' hrules, recreatedRule, if_neg (Fin.val_ne_zero_iff.mpr hi)]
        rfl
      rw [hc', hagain, hhas]
      cases hactive : r.active with
      | false =>
        exact iff_of_false (fun hsame => absurd ((hsame.2 _).mp (List.mem_singleton_self _))
          List.not_mem_nil) fun hsame => hsame.2 rfl
      | true =>
        rw [hr.saved hactive]
        simp

end NxDev

/-- What happens in a reset in which everything succeeds: a round for each bit. -/
def NxDev.allSucceed (d : NxDev k) : List AllocOutcome :=
  List.replicate (Bits.indices d.rxCtxsState).length ⟨none, false, true⟩

/-- **The property at the reset** in which everything succeeds: it ends with the counts right, and
the contexts survive it. -/
def CtxWorld.Restores (w : CtxWorld k) : Prop :=
  ∃ u, w.reset false true w.dev.allSucceed = some u ∧ u.astray = false ∧
    u.dev.RulesCounted ∧ u.dev.RefusalsKeep ∧ w.dev.Survives u.dev

/-- What the attach leaves, and what the rounds make of it. -/
theorem CtxWorld.Ruled.recreated (hk : k < 32) (h : w.Ruled) {d : NxDev k}
    {outs : List AllocOutcome} (hempty : Emptied w.dev d)
    (hfree : w.dev.rxCtxsState.getLsbD 0 = false ∧ d.rxCtxs 0 = some (NxDev.blank 0) ∨
      ∀ i : Fin (k + 1), w.dev.rxCtxsState.getLsbD i = true)
    (houts : ∀ o ∈ outs, o.Succeeds) {t : NxDev k} (hnetq : d.nxResetNetqRxQueues outs = some t) :
    t.Booked ∧ (w.dev.Survives t ↔ w.dev.AllRuled) := by
  have hbooked : d.Booked := by
    refine ⟨hempty.placed, hempty.active, fun i c hc => ?_⟩
    rcases Nat.eq_zero_or_pos i.val with hi | hi
    · obtain rfl : i = 0 := Fin.ext hi
      rcases hfree with ⟨-, hblank⟩ | hall
      · exact ⟨_, Option.some.inj (hblank.symm.trans hc) ▸ NxDev.oneRule_blank _ 0⟩
      · exact absurd ((hempty.first (hall 0)).symm.trans hc).symm (Option.some_ne_none c)
    · exact absurd ((hempty.gone i hi).symm.trans hc).symm (Option.some_ne_none c)
  obtain ⟨ht, hmade, hothers⟩ :=
    NxDev.Replayed.reset hk hbooked (hempty.state ▸ h.small) hempty.of_bit houts hnetq
  have hrule : d.recreatedRule = w.dev.recreatedRule := by
    funext i
    rw [NxDev.recreatedRule, NxDev.recreatedRule, hempty.saved]
  rw [hempty.state] at hmade hothers
  rw [hrule] at hmade
  refine ⟨ht, NxDev.survives_iff h.booked (hfree.imp And.left id) hmade (fun hclear => ?_)
    fun i hi hclear => ?_⟩
  · rcases hfree with ⟨-, hblank⟩ | hall
    · exact (hothers 0 hclear).trans hblank
    · exact absurd (hclear.symm.trans (hall 0)) Bool.false_ne_true
  · exact (hothers i hclear).trans (hempty.gone i (Fin.pos_iff_ne_zero.mpr hi))

/-- **The reset** after the calls keeps the contexts just under the condition, and if the detach
ends. -/
theorem CtxWorld.Ruled.restores_iff (hk : k < 32) (h : w.Ruled) :
    w.Restores ↔ w.dev.AllRuled ∧ (w.isUp = true → w.dev.Packed) := by
  have hdetach : ∀ d, w.dev.unmNicDetach false w.isUp = some d ↔
      (w.isUp = true → w.dev.Packed) ∧ d = w.dev.unmNicFreeRingContext := fun d =>
    NxDev.detach_eq_some.trans (and_congr_left' (forall_congr' fun _ => forall_prop_of_true rfl))
  by_cases hpacked : w.isUp = true → w.dev.Packed
  · have hreset : w.reset false true w.dev.allSucceed =
        w.netxenNicAttachAllPorts w.dev.unmNicFreeRingContext true w.dev.allSucceed := by
      rw [reset, (hdetach _).mpr ⟨hpacked, rfl⟩, Option.bind_some]
    rw [Restores, hreset, and_iff_left hpacked, netxenNicAttachAllPorts]
    rcases attach_cases h.booked.placed h.booked.active true with
      ⟨isUp, d, hattach, hempty, hfree⟩ | ⟨hattach, -, hnot⟩
    · rw [hattach]
      have hlength : w.dev.allSucceed.length = (Bits.indices d.rxCtxsState).length := by
        rw [NxDev.allSucceed, List.length_replicate, hempty.state]
      obtain ⟨r, hloop⟩ := NxDev.resetLoop_ends (d := d.inverted) hlength
      have hnetq : d.nxResetNetqRxQueues w.dev.allSucceed =
          some { r with rxCtxsState := d.rxCtxsState } := congrArg (Option.map _) hloop
      obtain ⟨ht, hiff⟩ := h.recreated hk hempty (hfree rfl)
        (fun o ho => (List.mem_replicate.mp ho).2) hnetq
      dsimp only
      rw [hnetq, ← hiff]
      constructor
      · rintro ⟨u, hu, -, -, -, hsurvives⟩
        obtain rfl := Option.some.inj hu
        exact hsurvives
      · exact fun hsurvives => ⟨_, rfl, h.astray, ht.counted, ht.refusalsKeep, hsurvives⟩
    · rw [hattach]
      refine iff_of_false ?_ fun hall => hnot hall.1
      rintro ⟨u, hu, hastray, -⟩
      obtain rfl := Option.some.inj hu
      exact absurd hastray.symm Bool.false_ne_true
  · refine iff_of_false ?_ fun hall => hpacked hall.2
    rintro ⟨u, hu, -⟩
    obtain ⟨d, hd, -⟩ := Option.bind_eq_some_iff.mp hu
    exact hpacked ((hdetach d).mp hd).1

/-- Two contexts are allocated and have a rule, one of which is removed and set again. -/
def ruledRun : List CtxAction :=
  [.alloc ⟨none, false, true⟩, .alloc ⟨none, false, true⟩, .setRule 1 false 0x020000000001 true,
    .setRule 2 false 0x020000000002 true, .removeRule 2 false 0 true,
    .setRule 2 false 0x020000000003 true]

/-- A run of calls with valid ids that ends with `w`. -/
def validRun (l : List CtxAction) : Option (CtxWorld 15) :=
  ((ctxMachine 15).guard fun _ a => a.Valid 15).run (.init true fun _ => noRule) l

/-- A context that never had a rule, beside one whose rule has been removed. -/
def unruledRun : List CtxAction :=
  [.alloc ⟨none, false, true⟩, .alloc ⟨none, false, true⟩, .setRule 2 false 0x020000000002 true,
    .removeRule 2 false 0 true]

/-- What happens in the reset. -/
def twoRounds : List AllocOutcome := [⟨none, false, true⟩, ⟨none, false, true⟩]

end Ctx
end NxNic

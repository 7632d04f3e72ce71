import NxNic.Ctx.Consistency
import NxNic.Lib.Effects

/-! # The ids that callers give

`nx_nic_multictx_free_rx_ctx`, `nx_nic_multictx_set_rx_rule` and `nx_nic_multictx_remove_rx_rule`
are exported to other modules of the kernel, which give them an id of a context and of a rule, both
of type `int`.  They compare the id of the context with `alloc_rx_ctxs`, from one side, and let
that number itself pass: `rx_ctxs[alloc_rx_ctxs]` is the first word of `tx_ctxs`, and a negative
index is what comes before the table.

Here the three are with what they read.  A `Call` returns a number and a device, and logs as a
`Touch` each word of the table, each rule and each part of a context that it looks at; where what
is read is no pointer to a context the call has gone astray and nothing more is said of it.

The runs are those of the registry (`Ctx/Rules`), with signed ids.  `IdCall.Validates` is the
property of a call in the state in which it is made: what it touches is within the tables, and with
an id that names nothing it returns -1, changes nothing and gives no command.  `IdCall.Ranged` is
the condition, on the ids and the table alone; `ids_validated_iff` ties the two over runs.
-/
namespace NxNic
namespace Ctx
namespace Ids

/-- What a call touches: a word of `rx_ctxs`, a rule of a context that has `numRules` of them,
the interrupts, flows and rings of a context, or the firmware. -/
inductive Touch where
  | rxCtxs (id : Int)
  | rules (numRules : Nat) (ruleId : Int)
  | resources
  | command
deriving DecidableEq

/-- A call returns a number and leaves a device, or follows a pointer that is not one to
a context or a rule. -/
abbrev Call (k : Nat) : Type := Effect Touch Unit (Int × NxDev k)

variable {k : Nat} (d : NxDev k)

/-- `rx_ctxs[ctx_id]`. -/
def rxCtxAt (ctxId : Int) (beyond : Bool) : Effect Touch Unit (Option (Fin (k + 1) × RxCtx k)) :=
  Effect.touch (.rxCtxs ctxId) >>= fun _ =>
    match d.entry ctxId beyond with
    | .ctx i c => pure (some (i, c))
    | .null => pure none
    | .foreign => Effect.crash ()

/-- `nx_nic_multictx_free_rx_ctx`. -/
def nxNicMultictxFreeRxCtx (ctxId : Int) (beyond : Bool) : Call k :=
  if (k + 1 : Int) < ctxId then pure (-1, d)
  else
    rxCtxAt d ctxId beyond >>= fun
    | none => pure (-1, d)
    | some (i, c) => do
      Effect.touch .resources
      Effect.touch .command
      Effect.touch (.rxCtxs c.thisId)
      let d := d.nxFwCmdCreateRxCtxFree c
      pure (0, { d with rxCtxsState := d.rxCtxsState &&& ~~~Bits.bit 32 i })

/-- The loop of `nx_nic_multictx_set_rx_rule` over the rules from `j` on. -/
def findRule (numRules : Nat) : Nat → List RxRule → Effect Touch Unit (Option Nat)
  | _, [] => pure none
  | j, r :: rest =>
    Effect.touch (.rules numRules j) >>= fun _ =>
      if r.active then findRule numRules (j + 1) rest else pure (some j)

/-- `nx_nic_multictx_set_rx_rule`; `taken` says whether `nx_os_pf_add_l2_mac` succeeds. -/
def nxNicMultictxSetRxRule (fwV34 : Bool) (ctxId : Int) (beyond : Bool) (mac : BitVec 48)
    (taken : Bool) : Call k :=
  if fwV34 then pure (-1, d)
  else if (k + 1 : Int) < ctxId then pure (-1, d)
  else
    rxCtxAt d ctxId beyond >>= fun
    | none => pure (-1, d)
    | some (i, c) =>
      if c.rules.length ≤ c.activeRxRules then pure (-1, d)
      else
        findRule c.rules.length 0 c.rules >>= fun
        | none => pure (-1, d)
        | some j =>
          Effect.touch .command >>= fun _ =>
            if taken then pure (j, d.addRule i c j mac) else pure (-1, d.numberRule i c j)

/-- `rules[rule_id]`, where `before` says whether a rule read before the table looks active. -/
def ruleAt (c : RxCtx k) (ruleId : Int) (before : Bool) :
    Effect Touch Unit (Option (Nat × RxRule)) :=
  Effect.touch (.rules c.rules.length ruleId) >>= fun _ =>
    if ruleId < 0 then if before then Effect.crash () else pure none
    else
      match c.rules[ruleId.toNat]? with
      | some r => if r.active then pure (some (ruleId.toNat, r)) else pure none
      | none => pure none

/-- `nx_nic_multictx_remove_rx_rule`; `taken` says whether `nx_os_pf_remove_l2_mac` succeeds. -/
def nxNicMultictxRemoveRxRule (fwV34 : Bool) (ctxId : Int) (beyond : Bool) (ruleId : Int)
    (before taken : Bool) : Call k :=
  if fwV34 then pure (-1, d)
  else if (k + 1 : Int) < ctxId then pure (-1, d)
  else
    rxCtxAt d ctxId beyond >>= fun
    | none => pure (-1, d)
    | some (i, c) =>
      if (c.rules.length : Int) ≤ ruleId then pure (-1, d)
      else
        ruleAt c ruleId before >>= fun
        | none => pure (-1, d)
        | some (j, _) =>
          Effect.touch .command >>= fun _ =>
            if taken then pure (0, d.dropRule i c j) else pure (-1, d)

/-- A call with the ids of its caller, and what it finds. -/
inductive IdCall where
  | free (ctxId : Int) (beyond : Bool)
  | setRule (ctxId : Int) (beyond : Bool) (mac : BitVec 48) (taken : Bool)
  | removeRule (ctxId : Int) (beyond : Bool) (ruleId : Int) (before taken : Bool)

def IdCall.run (fwV34 : Bool) : IdCall → Call k
  | .free ctxId beyond => nxNicMultictxFreeRxCtx d ctxId beyond
  | .setRule ctxId beyond mac taken => nxNicMultictxSetRxRule d fwV34 ctxId beyond mac taken
  | .removeRule ctxId beyond ruleId before taken =>
    nxNicMultictxRemoveRxRule d fwV34 ctxId beyond ruleId before taken

/-- What a call comes to, for the registry. -/
def resultOf : Except Unit (Int × NxDev k) → NxDev.Result k
  | .ok (rc, d) => .returned (decide (rc ≠ -1)) d
  | .error () => .astray

/-- The calls, and what else changes the registry. -/
inductive IdAction where
  | alloc (o : AllocOutcome)
  | call (c : IdCall)
  | reset (attached : Bool) (outs : List AllocOutcome)

/-- The operations in any order, as in `ctxMachine`. -/
def idMachine (k : Nat) (fwV34 : Bool) : Machine (CtxWorld k) IdAction where
  next w
    | .alloc o => (ctxMachine k).next w (.alloc o)
    | .call c =>
      if w.astray then none else some (w.takes (resultOf (c.run w.dev fwV34).exit))
    | .reset attached outs => if w.astray then none else w.reset fwV34 attached outs

/-- A step of `ctxMachine`, with the id of a rule that is not negative. -/
def IdAction.ofCtxAction : CtxAction → IdAction
  | .alloc o => .alloc o
  | .free id beyond => .call (.free id beyond)
  | .setRule id beyond mac taken => .call (.setRule id beyond mac taken)
  | .removeRule id beyond ruleId taken => .call (.removeRule id beyond ruleId false taken)
  | .reset attached outs => .reset attached outs

/-! ## The property -/

/-- What is touched is in the table that it should be in. -/
def Touch.InTable (k : Nat) : Touch → Prop
  | .rxCtxs id => 0 ≤ id ∧ id < k + 1
  | .rules numRules ruleId => 0 ≤ ruleId ∧ ruleId < numRules
  | .resources => True
  | .command => True

instance (k : Nat) : (t : Touch) → Decidable (t.InTable k)
  | .rxCtxs _ => inferInstanceAs (Decidable (_ ∧ _))
  | .rules _ _ => inferInstanceAs (Decidable (_ ∧ _))
  | .resources => inferInstanceAs (Decidable True)
  | .command => inferInstanceAs (Decidable True)

/-- The id is that of a live context. -/
def LiveCtx (ctxId : Int) : Prop :=
  ∃ i : Fin (k + 1), (i : Int) = ctxId ∧ (d.rxCtxs i).isSome = true

/-- The ids are those of an active rule of a live context. -/
def ActiveRule (ctxId ruleId : Int) : Prop :=
  ∃ i c j r, ((i : Fin (k + 1)) : Int) = ctxId ∧ d.rxCtxs i = some c ∧ ((j : Nat) : Int) = ruleId ∧
    c.rules[j]? = some r ∧ r.active = true

/-- The ids of the call name what it is to work on. -/
def IdCall.Names : IdCall → Prop
  | .free ctxId _ => LiveCtx d ctxId
  | .setRule ctxId _ _ _ => LiveCtx d ctxId
  | .removeRule ctxId _ ruleId _ _ => ActiveRule d ctxId ruleId

/-- **The property** of a call: it reads only within the tables, and with an id that names nothing
it returns -1, changes nothing and gives no command. -/
structure IdCall.Validates (fwV34 : Bool) (c : IdCall) : Prop where
  inTable : ∀ t ∈ (c.run d fwV34).touched, t.InTable k
  refuses : ¬c.Names d → (c.run d fwV34).exit = .ok (-1, d) ∧
    .command ∉ (c.run d fwV34).touched ∧ .resources ∉ (c.run d fwV34).touched

/-- **The condition**: the id of the context is neither negative nor the number of entries, and
where it is that of a context, the id of the rule is not negative. -/
def IdCall.Ranged (fwV34 : Bool) : IdCall → Prop
  | .free ctxId _ => 0 ≤ ctxId ∧ ctxId ≠ k + 1
  | .setRule ctxId _ _ _ => fwV34 = true ∨ 0 ≤ ctxId ∧ ctxId ≠ k + 1
  | .removeRule ctxId _ ruleId _ _ =>
    fwV34 = true ∨ (0 ≤ ctxId ∧ ctxId ≠ k + 1 ∧ (LiveCtx d ctxId → 0 ≤ ruleId))

/-! ## The tables -/

section
variable {d} {P : Touch → Prop} {ctxId : Int} {beyond : Bool} {i : Fin (k + 1)} {c : RxCtx k}

theorem ctxId_cases (hneg : 0 ≤ ctxId) (hne : ctxId ≠ k + 1) :
    (k + 1 : Int) < ctxId ∨ ∃ i : Fin (k + 1), (i : Int) = ctxId := by
  by_cases hin : ctxId.toNat < k + 1
  · exact .inr ⟨⟨ctxId.toNat, hin⟩, Int.toNat_of_nonneg hneg⟩
  · exact .inl (by omega)

theorem not_lt_id (i : Fin (k + 1)) : ¬(k + 1 : Int) < i := by omega

theorem wp_rxCtxAt {Q : Option (Fin (k + 1) × RxCtx k) → Prop} :
    (rxCtxAt d i beyond).wp P Q ↔ P (.rxCtxs i) ∧ Q ((d.rxCtxs i).map fun c => (i, c)) := by
  rw [rxCtxAt, Effect.wp_bind, Effect.wp_touch, NxDev.entry_of_lt]
  cases d.rxCtxs i with
  | none => exact and_congr_right fun _ => Effect.wp_pure
  | some c => exact and_congr_right fun _ => Effect.wp_pure

theorem rxCtxs_mem_rxCtxAt : .rxCtxs ctxId ∈ (rxCtxAt d ctxId beyond).touched :=
  Effect.mem_touched_bind (List.mem_singleton_self _)

/-- The loop reads rules of the context. -/
theorem wp_findRule {numRules j : Nat} {l : List RxRule} {Q : Option Nat → Prop}
    (hP : ∀ m, m < j + l.length → P (.rules numRules m))
    (hQ : Q ((l.findIdx? fun r => !r.active).map (· + j))) :
    (findRule numRules j l).wp P Q := by
  induction l generalizing j with
  | nil => exact Effect.wp_pure.mpr hQ
  | cons r rest ih =>
    rw [findRule, Effect.wp_bind, Effect.wp_touch]
    refine ⟨hP j (by simp), ?_⟩
    rw [List.findIdx?_cons] at hQ
    cases hactive : r.active with
    | false =>
      rw [hactive] at hQ
      rw [if_neg Bool.false_ne_true]
      exact Effect.wp_pure.mpr ((Nat.zero_add j) ▸ hQ)
    | true =>
      rw [hactive] at hQ
      rw [if_pos rfl]
      refine ih (fun m hm => hP m (by rw [List.length_cons]; omega)) ?_
      rw [if_neg (by decide), Option.map_map] at hQ
      convert hQ using 3 with m
      show m + (j + 1) = m + 1 + j
      omega

theorem wp_ruleAt {ruleId : Int} {before : Bool} {Q : Option (Nat × RxRule) → Prop}
    (hneg : 0 ≤ ruleId) (hP : P (.rules c.rules.length ruleId))
    (hactive : ∀ r, c.rules[ruleId.toNat]? = some r → r.active = true →
      Q (some (ruleId.toNat, r)))
    (hnone : Q none) : (ruleAt c ruleId before).wp P Q := by
  rw [ruleAt, Effect.wp_bind, Effect.wp_touch, if_neg (not_lt.mpr hneg)]
  refine ⟨hP, ?_⟩
  split
  · rename_i r hr
    split
    · rename_i hr'
      exact Effect.wp_pure.mpr (hactive r hr hr')
    · exact Effect.wp_pure.mpr hnone
  · exact Effect.wp_pure.mpr hnone

end

/-! ## The calls -/

/-- What a call may touch that changes nothing. -/
def Touch.Reads (k : Nat) (t : Touch) : Prop := t.InTable k ∧ t ≠ .command ∧ t ≠ .resources

/-- The call returns -1, and it only reads, within the tables. -/
def Refuses (x : Call k) : Prop := x.wp (Touch.Reads k) (· = (-1, d))

/-- What the call touches is in its table. -/
def Safe (x : Call k) : Prop := x.wp (Touch.InTable k) fun _ => True

variable {d}

theorem Refuses.safe {x : Call k} (h : Refuses d x) : Safe x := by
  obtain ⟨htouched, r, hr, -⟩ := h
  exact ⟨fun t ht => (htouched t ht).1, r, hr, trivial⟩

theorem refuses_pure : Refuses d (pure (-1, d)) := Effect.wp_pure.mpr rfl

theorem validates_of {fwV34 : Bool} {c : IdCall} (hsafe : Safe (c.run d fwV34))
    (hrefuses : ¬c.Names d → Refuses d (c.run d fwV34)) : c.Validates d fwV34 where
  inTable := hsafe.1
  refuses hnames := by
    obtain ⟨htouched, r, hr, hend⟩ := hrefuses hnames
    exact ⟨hr.trans (congrArg _ hend), fun h => (htouched _ h).2.1 rfl,
      fun h => (htouched _ h).2.2 rfl⟩

theorem validates_of_refuses {fwV34 : Bool} {c : IdCall} (h : Refuses d (c.run d fwV34)) :
    c.Validates d fwV34 := validates_of h.safe fun _ => h

theorem reads_rxCtxs (i : Fin (k + 1)) : (Touch.rxCtxs i).Reads k :=
  ⟨⟨Int.natCast_nonneg _, by omega⟩, Touch.noConfusion, Touch.noConfusion⟩

theorem liveCtx_of {i : Fin (k + 1)} (hlive : LiveCtx d i) : ∃ c, d.rxCtxs i = some c := by
  obtain ⟨j, hj, hsome⟩ := hlive
  obtain rfl : j = i := Fin.ext (by omega)
  exact Option.isSome_iff_exists.mp hsome

/-- `nx_nic_multictx_free_rx_ctx` with an id in range. -/
theorem free_validates {ctxId : Int} {beyond fwV34 : Bool} (hneg : 0 ≤ ctxId)
    (hne : ctxId ≠ k + 1) : (IdCall.free ctxId beyond).Validates d fwV34 := by
  rcases ctxId_cases hneg hne with hlt | ⟨i, rfl⟩
  · refine validates_of_refuses ?_
    rw [IdCall.run, nxNicMultictxFreeRxCtx, if_pos hlt]
    exact refuses_pure
  · cases hc : d.rxCtxs i with
    | none =>
      refine validates_of_refuses ?_
      rw [Refuses, IdCall.run, nxNicMultictxFreeRxCtx, if_neg (not_lt_id i), Effect.wp_bind,
        wp_rxCtxAt, hc]
      exact ⟨reads_rxCtxs i, Effect.wp_pure.mpr rfl⟩
    | some c =>
      refine validates_of ?_ fun hnames => absurd ⟨i, rfl, by rw [hc]; rfl⟩ hnames
      rw [Safe, IdCall.run, nxNicMultictxFreeRxCtx, if_neg (not_lt_id i), Effect.wp_bind,
        wp_rxCtxAt, hc]
      refine ⟨(reads_rxCtxs i).1, ?_⟩
      simp only [Option.map_some, Effect.wp_bind, Effect.wp_touch, Effect.wp_pure, and_true]
      exact ⟨trivial, trivial, (reads_rxCtxs c.thisId).1⟩

/-- `nx_nic_multictx_set_rx_rule` with an id in range. -/
theorem setRule_validates {ctxId : Int} {beyond fwV34 taken : Bool} {mac : BitVec 48}
    (hrange : fwV34 = true ∨ 0 ≤ ctxId ∧ ctxId ≠ k + 1) :
    (IdCall.setRule ctxId beyond mac taken).Validates d fwV34 := by
  cases fwV34 with
  | true => exact validates_of_refuses refuses_pure
  | false =>
    obtain ⟨hneg, hne⟩ := hrange.resolve_left Bool.false_ne_true
    rcases ctxId_cases hneg hne with hlt | ⟨i, rfl⟩
    · refine validates_of_refuses ?_
      rw [IdCall.run, nxNicMultictxSetRxRule, if_neg Bool.false_ne_true, if_pos hlt]
      exact refuses_pure
    · cases hc : d.rxCtxs i with
      | none =>
        refine validates_of_refuses ?_
        rw [Refuses, IdCall.run, nxNicMultictxSetRxRule, if_neg Bool.false_ne_true,
          if_neg (not_lt_id i), Effect.wp_bind, wp_rxCtxAt, hc]
        exact ⟨reads_rxCtxs i, Effect.wp_pure.mpr rfl⟩
      | some c =>
        refine validates_of ?_ fun hnames => absurd ⟨i, rfl, by rw [hc]; rfl⟩ hnames
        rw [Safe, IdCall.run, nxNicMultictxSetRxRule, if_neg Bool.false_ne_true,
          if_neg (not_lt_id i), Effect.wp_bind, wp_rxCtxAt, hc]
        refine ⟨(reads_rxCtxs i).1, ?_⟩
        dsimp only [Option.map_some]
        split
        · exact Effect.wp_pure.mpr trivial
        · rw [Effect.wp_bind]
          refine wp_findRule (fun m hm => ⟨Int.natCast_nonneg m, by omega⟩) ?_
          split
          · exact Effect.wp_pure.mpr trivial
          · rw [Effect.wp_bind, Effect.wp_touch]
            refine ⟨trivial, ?_⟩
            split <;> exact Effect.wp_pure.mpr trivial

/-- `nx_nic_multictx_remove_rx_rule` with ids in range. -/
theorem removeRule_validates {ctxId ruleId : Int} {beyond fwV34 before taken : Bool}
    (hrange : fwV34 = true ∨ 0 ≤ ctxId ∧ ctxId ≠ k + 1 ∧ (LiveCtx d ctxId → 0 ≤ ruleId)) :
    (IdCall.removeRule ctxId beyond ruleId before taken).Validates d fwV34 := by
  cases fwV34 with
  | true => exact validates_of_refuses refuses_pure
  | false =>
    obtain ⟨hneg, hne, hrule⟩ := hrange.resolve_left Bool.false_ne_true
    rcases ctxId_cases hneg hne with hlt | ⟨i, rfl⟩
    · refine validates_of_refuses ?_
      rw [IdCall.run, nxNicMultictxRemoveRxRule, if_neg Bool.false_ne_true, if_pos hlt]
      exact refuses_pure
    · cases hc : d.rxCtxs i with
      | none =>
        refine validates_of_refuses ?_
        rw [Refuses, IdCall.run, nxNicMultictxRemoveRxRule, if_neg Bool.false_ne_true,
          if_neg (not_lt_id i), Effect.wp_bind, wp_rxCtxAt, hc]
        exact ⟨reads_rxCtxs i, Effect.wp_pure.mpr rfl⟩
      | some c =>
        have hruleId : 0 ≤ ruleId := hrule ⟨i, rfl, by rw [hc]; rfl⟩
        have hwp (P : Touch → Prop) (Q : Int × NxDev k → Prop) (hctx : P (.rxCtxs i))
            (hrules : ruleId < c.rules.length → P (.rules c.rules.length ruleId))
            (hminus : Q (-1, d))
            (hrest : ∀ r, c.rules[ruleId.toNat]? = some r → r.active = true →
              P .command ∧ Q (0, d.dropRule i c ruleId.toNat)) :
            ((IdCall.removeRule i beyond ruleId before taken).run d false).wp P Q := by
          rw [IdCall.run, nxNicMultictxRemoveRxRule, if_neg Bool.false_ne_true,
            if_neg (not_lt_id i), Effect.wp_bind, wp_rxCtxAt, hc]
          refine ⟨hctx, ?_⟩
          dsimp only [Option.map_some]
          split
          · exact Effect.wp_pure.mpr hminus
          · rename_i hlt
            rw [Effect.wp_bind]
            refine wp_ruleAt hruleId (hrules (not_le.mp hlt)) (fun r hr hactive => ?_)
              (Effect.wp_pure.mpr hminus)
            obtain ⟨hcommand, hend⟩ := hrest r hr hactive
            rw [Effect.wp_bind, Effect.wp_touch]
            refine ⟨hcommand, ?_⟩
            split
            · exact Effect.wp_pure.mpr hend
            · exact Effect.wp_pure.mpr hminus
        refine validates_of ?_ fun hnames => ?_
        · exact hwp _ _ (reads_rxCtxs i).1 (fun hlt => ⟨hruleId, hlt⟩) trivial
            fun _ _ _ => ⟨trivial, trivial⟩
        · refine hwp _ _ (reads_rxCtxs i)
            (fun hlt => ⟨⟨hruleId, hlt⟩, Touch.noConfusion, Touch.noConfusion⟩) rfl
            fun r hr hactive => absurd ?_ hnames
          exact ⟨i, c, ruleId.toNat, r, rfl, hc, Int.toNat_of_nonneg hruleId, hr, hactive⟩

/-! ## Outside of the range -/

theorem not_inTable_ctxId {ctxId : Int} (h : ¬(0 ≤ ctxId ∧ ctxId ≠ k + 1)) :
    ¬(Touch.rxCtxs ctxId).InTable k := fun ⟨hneg, hlt⟩ => h ⟨hneg, hlt.ne⟩

theorem ranged_of_validates {fwV34 : Bool} {c : IdCall} (h : c.Validates d fwV34) :
    c.Ranged d fwV34 := by
  by_contra hout
  cases c with
  | free ctxId beyond =>
    have hle : ¬(k + 1 : Int) < ctxId := fun hlt => hout ⟨by omega, by omega⟩
    refine not_inTable_ctxId hout (h.inTable _ ?_)
    rw [IdCall.run, nxNicMultictxFreeRxCtx, if_neg hle]
    exact Effect.mem_touched_bind rxCtxs_mem_rxCtxAt
  | setRule ctxId beyond mac taken =>
    obtain ⟨hv34, hid⟩ := not_or.mp hout
    have hle : ¬(k + 1 : Int) < ctxId := fun hlt => hid ⟨by omega, by omega⟩
    refine not_inTable_ctxId hid (h.inTable _ ?_)
    rw [IdCall.run, nxNicMultictxSetRxRule, if_neg hv34, if_neg hle]
    exact Effect.mem_touched_bind rxCtxs_mem_rxCtxAt
  | removeRule ctxId beyond ruleId before taken =>
    obtain ⟨hv34, hids⟩ := not_or.mp hout
    by_cases hid : 0 ≤ ctxId ∧ ctxId ≠ k + 1
    · obtain ⟨hlive, hrule⟩ := Classical.not_imp.mp fun hrule => hids ⟨hid.1, hid.2, hrule⟩
      obtain ⟨i, rfl, hsome⟩ := id hlive
      obtain ⟨c, hc⟩ := liveCtx_of hlive
      have hread : (rxCtxAt d i beyond).touched = [.rxCtxs i] ∧
          (rxCtxAt d i beyond).exit = .ok (some (i, c)) := by
        rw [rxCtxAt, NxDev.entry_live hc]
        exact ⟨rfl, rfl⟩
      refine hrule (h.inTable (.rules c.rules.length ruleId) ?_).1
      rw [IdCall.run, nxNicMultictxRemoveRxRule, if_neg hv34, if_neg (not_lt_id i),
        Effect.touched_bind_of_ok hread.2]
      refine List.mem_append_right _ ?_
      dsimp only
      rw [if_neg (by omega)]
      exact Effect.mem_touched_bind (Effect.mem_touched_bind (List.mem_singleton_self _))
    · have hle : ¬(k + 1 : Int) < ctxId := fun hlt => hid ⟨by omega, by omega⟩
      refine not_inTable_ctxId hid (h.inTable _ ?_)
      rw [IdCall.run, nxNicMultictxRemoveRxRule, if_neg hv34, if_neg hle]
      exact Effect.mem_touched_bind rxCtxs_mem_rxCtxAt

theorem validates_iff {fwV34 : Bool} {c : IdCall} :
    c.Validates d fwV34 ↔ c.Ranged d fwV34 := by
  refine ⟨ranged_of_validates, fun hrange => ?_⟩
  cases c with
  | free ctxId beyond => exact free_validates hrange.1 hrange.2
  | setRule ctxId beyond mac taken => exact setRule_validates hrange
  | removeRule ctxId beyond ruleId before taken => exact removeRule_validates hrange

/-! ## The registry -/

section
variable {ctxId : Int} {beyond : Bool}

theorem exit_rxCtxAt {κ : Type} (f : Option (Fin (k + 1) × RxCtx k) → Effect Touch Unit κ) :
    (rxCtxAt d ctxId beyond >>= f).exit =
      match d.entry ctxId beyond with
      | .ctx i c => (f (some (i, c))).exit
      | .null => (f none).exit
      | .foreign => .error () := by
  show ((rxCtxAt d ctxId beyond).bind f).exit = _
  rw [rxCtxAt]
  cases d.entry ctxId beyond <;> rfl

theorem exit_findRule (n : Nat) (l : List RxRule) :
    (findRule n 0 l).exit = .ok (l.findIdx? fun r => !r.active) := by
  have hfind : (findRule n 0 l).wp (fun _ => True)
      (· = (l.findIdx? fun r => !r.active).map (· + 0)) :=
    wp_findRule (fun _ _ => trivial) rfl
  obtain ⟨-, r, hr, hend⟩ := hfind
  rw [hr, hend]
  exact congrArg _ Option.map_id'

theorem exit_ruleAt (c : RxCtx k) (ruleId : Nat) (before : Bool) :
    (ruleAt c ruleId before).exit =
      .ok ((c.rules[ruleId]?.filter RxRule.active).map fun r => (ruleId, r)) := by
  rw [ruleAt, Effect.exit_bind_of_ok rfl, if_neg (not_lt.mpr (Int.natCast_nonneg ruleId)),
    Int.toNat_natCast]
  cases c.rules[ruleId]? with
  | none => rfl
  | some r =>
    dsimp only
    rw [Option.filter_some]
    cases r.active <;> rfl

theorem resultOf_free : resultOf (nxNicMultictxFreeRxCtx d ctxId beyond).exit =
    d.nxNicMultictxFreeRxCtx ctxId beyond := by
  rw [nxNicMultictxFreeRxCtx, NxDev.nxNicMultictxFreeRxCtx]
  split
  · rfl
  · rw [exit_rxCtxAt]
    cases d.entry ctxId beyond <;> rfl

theorem resultOf_setRule {mac : BitVec 48} {taken : Bool} :
    resultOf (nxNicMultictxSetRxRule d false ctxId beyond mac taken).exit =
      d.nxNicMultictxSetRxRule ctxId beyond mac taken := by
  rw [nxNicMultictxSetRxRule, NxDev.nxNicMultictxSetRxRule, if_neg Bool.false_ne_true]
  split
  · rfl
  · rw [exit_rxCtxAt]
    cases d.entry ctxId beyond with
    | foreign => rfl
    | null => rfl
    | ctx i c =>
      dsimp only
      split
      · rfl
      · rw [Effect.exit_bind_of_ok (exit_findRule _ _)]
        cases c.rules.findIdx? fun r => !r.active with
        | none => rfl
        | some j => cases taken <;> rfl

theorem resultOf_removeRule {ruleId : Nat} {before taken : Bool} :
    resultOf (nxNicMultictxRemoveRxRule d false ctxId beyond ruleId before taken).exit =
      d.nxNicMultictxRemoveRxRule ctxId beyond ruleId taken := by
  rw [nxNicMultictxRemoveRxRule, NxDev.nxNicMultictxRemoveRxRule, if_neg Bool.false_ne_true]
  split
  · rfl
  · rw [exit_rxCtxAt]
    cases d.entry ctxId beyond with
    | foreign => rfl
    | null => rfl
    | ctx i c =>
      dsimp only
      split
      · rename_i hle
        rw [List.getElem?_eq_none (Int.ofNat_le.mp hle)]
        rfl
      · rw [Effect.exit_bind_of_ok (exit_ruleAt c ruleId before)]
        cases c.rules[ruleId]? with
        | none => rfl
        | some r =>
          dsimp only
          rw [Option.filter_some]
          cases hactive : r.active with
          | false => rfl
          | true => cases taken <;> rfl

end

/-! ## Runs -/

/-- **The calls are those of the registry**: what they read apart, its runs are runs with them. -/
theorem run_ofCtxAction (w : CtxWorld k) (l : List CtxAction) :
    (idMachine k false).run w (l.map .ofCtxAction) = (ctxMachine k).run w l := by
  refine (idMachine k false).run_map .ofCtxAction (fun w a => ?_) w l
  have hcall (c : IdCall) : (idMachine k false).next w (.call c) =
      if w.astray then none else some (w.takes (resultOf (c.run w.dev false).exit)) := rfl
  cases a with
  | alloc o => rfl
  | free id beyond =>
    rw [IdAction.ofCtxAction, hcall, IdCall.run, resultOf_free]
    rfl
  | setRule id beyond mac taken =>
    rw [IdAction.ofCtxAction, hcall, IdCall.run, resultOf_setRule]
    rfl
  | removeRule id beyond ruleId taken =>
    rw [IdAction.ofCtxAction, hcall, IdCall.run, resultOf_removeRule]
    rfl
  | reset attached outs => rfl

/-- The step is no call, or one that has the property. -/
def IdAction.Validates (fwV34 : Bool) (w : CtxWorld k) : IdAction → Prop
  | .call c => c.Validates w.dev fwV34
  | .alloc _ => True
  | .reset _ _ => True

/-- The step is no call, or one with ids in range. -/
def IdAction.Ranged (fwV34 : Bool) (w : CtxWorld k) : IdAction → Prop
  | .call c => c.Ranged w.dev fwV34
  | .alloc _ => True
  | .reset _ _ => True

/-- **The ids that callers give**: in a run all calls have the property just if the ids of all of
them are in range.  The run may allocate, free and reset as it likes between them, and the calls
may have any ids; so the ids of contexts that were freed long ago are validated as well. -/
theorem ids_validated_iff (numRxQueues : Fin 16) (fwV34 attached : Bool)
    (saved : Fin (numRxQueues + 1) → RxRule) (l : List IdAction) :
    (∀ u a, (idMachine numRxQueues fwV34).Takes (.init attached saved) l u a →
      a.Validates fwV34 u) ↔
      ∀ u a, (idMachine numRxQueues fwV34).Takes (.init attached saved) l u a →
        a.Ranged fwV34 u := by
  refine Machine.takes_iff_takes (K := fun _ => True) (fun u a _ => ?_) (fun _ _ _ _ _ _ => trivial)
    trivial l
  cases a with
  | call c => exact validates_iff
  | alloc o => exact Iff.rfl
  | reset attached outs => exact Iff.rfl

/-- The context past the last one is freed: the id 16 is let pass, and a word of `tx_ctxs` is taken
for a context. -/
theorem free_reads_past_table : ¬∀ (l : List IdAction) u a,
    (idMachine 15 false).Takes (.init true fun _ => ⟨0, false, 0⟩) l u a →
      a.Validates false u := by
  intro hall
  have hcall := hall [.call (.free 16 false)] _ _ ⟨[], [], rfl, rfl⟩
  have hin : (Touch.rxCtxs 16).InTable 15 := hcall.inTable _ (by decide +kernel)
  exact absurd hin.2 (by decide)

end Ids
end Ctx
end NxNic

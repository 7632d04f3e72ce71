import NxNic.Ctx.Pointers
import NxNic.Lib.Bits

/-! # Destroying all receive contexts

The loop of `unm_nic_new_rx_context_destroy`, round by round, over the table of the `HostNic` of
`Ctx/Defaults`.  It counts up to the number of contexts but looks at the entries of the table from
the first on, and an entry without a context does not move it: the counter stays, and the next
round looks at the same entry.

So the loop is a machine of its own, `destroyMachine`, whose state (`DestroyLoop`) is the counter
and the entries for whose contexts the command has been issued.  To end is to reach a state in
which the loop's condition is false (`Halts`), and nothing bounds the number of rounds.

`DestroysAll` is the property: the loop ends, and by then the command has been issued once for each
context of the table.  `Packed` says that the contexts are in the first entries.  The loop
never gets past the first entry without a context (`round_i_le`), so where it ends there is none;
on packed contexts `rounds_packed` follows it round by round to its end.  `destroysAll_iff` adds
the contexts whose state lets `nx_fw_cmd_destroy_rx_ctx` return early.
-/
namespace NxNic
namespace Ctx
variable {k : Nat}

def nxDestroyCtxReset : BitVec 32 := 0
def nxDestroyCtxNoFwcmd : BitVec 32 := 3

/-- `nx_fw_cmd_destroy_rx_ctx` issues its command. -/
def HostCtx.Sends (destroyCmd : BitVec 32) (c : HostCtx) : Prop :=
  c.state ≤ nxHostCtxStateMax ∧ destroyCmd ≠ nxDestroyCtxNoFwcmd

instance decidableSends (destroyCmd : BitVec 32) (c : HostCtx) :
    Decidable (c.Sends destroyCmd) := inferInstanceAs (Decidable (_ ∧ _))

/-- `nx_dev->rx_ctxs[i]`. -/
def HostNic.rxCtxAt (d : HostNic k) (i : Nat) : Option HostCtx :=
  if h : i < k + 1 then d.rxCtxs ⟨i, h⟩ else none

/-- The loop: its counter, and the entries for whose contexts the command has been issued. -/
structure DestroyLoop (k : Nat) where
  i : Nat
  nic : HostNic k
  issued : List Nat

/-- A round of the loop. -/
def DestroyLoop.round (ctxDestroy : BitVec 32) (s : DestroyLoop k) : DestroyLoop k :=
  match s.nic.rxCtxAt s.i with
  | none => s
  | some c =>
    { i := s.i + 1
      nic := s.nic.nxFwCmdDestroyRxCtx c
      issued := if c.Sends ctxDestroy then s.issued ++ [s.i] else s.issued }

/-- The loop of `unm_nic_new_rx_context_destroy`. -/
def destroyMachine (k : Nat) (ctxDestroy : BitVec 32) : Machine (DestroyLoop k) Unit where
  next s _ := if s.i < s.nic.activeRxCtxs then some (s.round ctxDestroy) else none

/-- Before the first round. -/
def HostNic.destroyStart (d : HostNic k) : DestroyLoop k := ⟨0, d, []⟩

/-- **The property**: the loop ends, and by then the command has been issued once for each
context. -/
def HostNic.DestroysAll (d : HostNic k) (ctxDestroy : BitVec 32) : Prop :=
  ∃ t, (destroyMachine k ctxDestroy).Halts d.destroyStart t ∧
    ∀ i c, d.rxCtxs i = some c → t.issued.count i.val = 1

/-- The contexts are in the first entries. -/
def HostNic.Packed (d : HostNic k) : Prop :=
  ∀ i : Fin (k + 1), i.val < d.activeRxCtxs → (d.rxCtxs i).isSome = true

section
variable {d : HostNic k} {ctxDestroy : BitVec 32}

theorem HostNic.rxCtxAt_val (d : HostNic k) (i : Fin (k + 1)) : d.rxCtxAt i = d.rxCtxs i :=
  dif_pos i.isLt

theorem HostNic.activeRxCtxs_le (d : HostNic k) : d.activeRxCtxs ≤ k + 1 :=
  List.countP_le_length.trans (Nat.le_of_eq (List.length_finRange))

theorem HostNic.activeRxCtxs_congr {t : HostNic k} (h : t.rxCtxs = d.rxCtxs) :
    t.activeRxCtxs = d.activeRxCtxs := by
  rw [activeRxCtxs, activeRxCtxs, h]

/-- Packed contexts are in no other entries. -/
theorem HostNic.Packed.lt (h : d.Packed) {i : Fin (k + 1)} (hi : (d.rxCtxs i).isSome = true) :
    i.val < d.activeRxCtxs := by
  have hfirst : ∀ j ∈ (List.finRange (k + 1)).take d.activeRxCtxs,
      (d.rxCtxs j).isSome = true := fun j hj => h j (Bits.mem_take_finRange.mp hj)
  exact Bits.mem_take_finRange.mp (HostNic.mem_take_countP hfirst (List.mem_finRange i) hi)

theorem destroyMachine_next {s u : DestroyLoop k} {a : Unit}
    (h : (destroyMachine k ctxDestroy).next s a = some u) : u = s.round ctxDestroy :=
  (Option.some.inj (Option.ite_none_right_eq_some.mp h).2).symm

/-- What a round does to the table: nothing. -/
theorem DestroyLoop.round_rxCtxs (ctxDestroy : BitVec 32) (s : DestroyLoop k) :
    (s.round ctxDestroy).nic.rxCtxs = s.nic.rxCtxs := by
  rw [round]
  split
  · rfl
  · exact (HostNic.destroyRx_same s.nic _).rxCtxs

/-- The loop does not get past an entry without a context. -/
theorem DestroyLoop.round_i_le {s : DestroyLoop k} {j : Nat} (hi : s.i ≤ j)
    (hj : s.nic.rxCtxAt j = none) : (s.round ctxDestroy).i ≤ j := by
  rw [round]
  split
  · exact hi
  · rename_i c hc
    refine Nat.lt_of_le_of_ne hi fun heq => ?_
    rw [heq, hj] at hc
    exact absurd hc.symm (Option.some_ne_none c)

/-- The command is issued for contexts only that it can be issued for. -/
theorem DestroyLoop.round_issued {s : DestroyLoop k} {j : Nat}
    (hs : j ∈ s.issued → ∀ c ∈ s.nic.rxCtxAt j, c.Sends ctxDestroy)
    (hj : j ∈ (s.round ctxDestroy).issued) : ∀ c ∈ s.nic.rxCtxAt j, c.Sends ctxDestroy := by
  rw [round] at hj
  split at hj
  · exact hs hj
  · rename_i c hc
    dsimp only at hj
    split at hj
    · rename_i hsends
      rcases List.mem_append.mp hj with hj | hj
      · exact hs hj
      · obtain rfl := List.mem_singleton.mp hj
        intro c' hc'
        exact Option.some.inj (hc.symm.trans hc') ▸ hsends
    · exact hs hj

/-- **The loop on packed contexts**, after `n` rounds. -/
theorem rounds_packed (ctxDestroy : BitVec 32) (hpacked : d.Packed) {n : Nat}
    (hn : n ≤ d.activeRxCtxs) :
    ((DestroyLoop.round ctxDestroy)^[n] d.destroyStart).i = n ∧
      ((DestroyLoop.round ctxDestroy)^[n] d.destroyStart).nic.rxCtxs = d.rxCtxs ∧
      ((∀ i, ∀ c ∈ d.rxCtxs i, c.Sends ctxDestroy) →
        ((DestroyLoop.round ctxDestroy)^[n] d.destroyStart).issued = List.range n) := by
  induction n with
  | zero => exact ⟨rfl, rfl, fun _ => rfl⟩
  | succ n ih =>
    obtain ⟨hi, hsame, hissued⟩ := ih (Nat.le_of_succ_le hn)
    have hlt : n < k + 1 := Nat.lt_of_lt_of_le hn d.activeRxCtxs_le
    obtain ⟨c, hc⟩ := Option.isSome_iff_exists.mp (hpacked ⟨n, hlt⟩ hn)
    rw [Function.iterate_succ_apply']
    generalize (DestroyLoop.round ctxDestroy)^[n] d.destroyStart = s at hi hissued hsame ⊢
    have hat : s.nic.rxCtxAt s.i = some c := by
      rw [hi, HostNic.rxCtxAt, dif_pos hlt, hsame, hc]
    rw [DestroyLoop.round, hat]
    refine ⟨congrArg (· + 1) hi, (HostNic.destroyRx_same s.nic c).rxCtxs.trans hsame, ?_⟩
    intro hsends
    dsimp only
    rw [if_pos (hsends _ c hc), hi, hissued hsends]
    exact List.range_succ.symm

theorem halts_packed (hpacked : d.Packed) : (destroyMachine k ctxDestroy).Halts d.destroyStart
    ((DestroyLoop.round ctxDestroy)^[d.activeRxCtxs] d.destroyStart) := by
  refine ⟨List.replicate d.activeRxCtxs (), ?_, fun _ => if_neg ?_⟩
  · refine Machine.run_replicate (destroyMachine k ctxDestroy)
      (f := fun n => (DestroyLoop.round ctxDestroy)^[n] d.destroyStart) fun n hn => ?_
    obtain ⟨hi, hsame, -⟩ := rounds_packed ctxDestroy hpacked (Nat.le_of_lt hn)
    rw [Function.iterate_succ_apply']
    refine if_pos ?_
    rw [hi, HostNic.activeRxCtxs_congr hsame]
    exact hn
  · obtain ⟨hi, hsame, -⟩ :=
      rounds_packed ctxDestroy hpacked (Nat.le_refl d.activeRxCtxs)
    rw [hi, HostNic.activeRxCtxs_congr hsame]
    exact Nat.lt_irrefl _

theorem HostNic.DestroysAll.of_packed (hpacked : d.Packed)
    (hsends : ∀ i, ∀ c ∈ d.rxCtxs i, c.Sends ctxDestroy) : d.DestroysAll ctxDestroy := by
  refine ⟨_, halts_packed hpacked, fun i c hc => ?_⟩
  rw [(rounds_packed ctxDestroy hpacked (Nat.le_refl d.activeRxCtxs)).2.2 hsends]
  refine List.count_eq_one_of_mem List.nodup_range (List.mem_range.mpr (hpacked.lt ?_))
  rw [hc]
  rfl

/-- A loop that ends has no entry without a context before its bound. -/
theorem HostNic.Packed.of_halts {t : DestroyLoop k}
    (h : (destroyMachine k ctxDestroy).Halts d.destroyStart t) : d.Packed := by
  intro i hi
  by_contra hnone
  have hnone : d.rxCtxs i = none := Option.not_isSome_iff_eq_none.mp hnone
  have hstuck := Machine.halts_invariant (destroyMachine k ctxDestroy)
    (I := fun s => s.i ≤ i.val ∧ s.nic.rxCtxs = d.rxCtxs) ?_ ⟨Nat.zero_le _, rfl⟩ h
  · obtain ⟨l, -, hends⟩ := h
    refine absurd (hends ()) ?_
    show (if t.i < t.nic.activeRxCtxs then _ else _) ≠ _
    rw [activeRxCtxs_congr hstuck.2, if_pos (Nat.lt_of_le_of_lt hstuck.1 hi)]
    exact Option.some_ne_none _
  · intro s _ u hs hnext
    obtain rfl := destroyMachine_next hnext
    refine ⟨DestroyLoop.round_i_le hs.1 ?_, (DestroyLoop.round_rxCtxs ctxDestroy s).trans hs.2⟩
    rw [rxCtxAt_val, hs.2, hnone]

/-- The loop ends just where `unmNicNewRxContextDestroy` says that it does. -/
theorem halts_iff_isSome : (∃ t, (destroyMachine k ctxDestroy).Halts d.destroyStart t) ↔
    d.unmNicNewRxContextDestroy.isSome = true := by
  constructor
  · rintro ⟨t, hhalts⟩
    have hpacked := HostNic.Packed.of_halts hhalts
    exact HostNic.destroyRxLoop_isSome fun i hi => hpacked i (Bits.mem_take_finRange.mp hi)
  · intro hsome
    obtain ⟨t, ht⟩ := Option.isSome_iff_exists.mp hsome
    have hlive := HostNic.destroyRxLoop_live ht
    exact ⟨_, halts_packed fun i hi => hlive i (Bits.mem_take_finRange.mpr hi)⟩

end

/-- **The loop ends and destroys every context** just if the contexts are in the first entries and
the command can be issued for each of them.  The table and the states in it are arbitrary; the
runs that lead to a table with a hole are those of `holeRun`, in which a queue is freed. -/
theorem destroysAll_iff (d : HostNic k) (ctxDestroy : BitVec 32) :
    d.DestroysAll ctxDestroy ↔
      d.Packed ∧ ∀ i, ∀ c ∈ d.rxCtxs i, c.Sends ctxDestroy := by
  constructor
  · rintro ⟨t, hhalts, hissued⟩
    refine ⟨.of_halts hhalts, fun i c hc => ?_⟩
    have hsends := Machine.halts_invariant (destroyMachine k ctxDestroy)
      (I := fun s => s.nic.rxCtxs = d.rxCtxs ∧
        (i.val ∈ s.issued → ∀ c ∈ s.nic.rxCtxAt i, c.Sends ctxDestroy)) ?_
      ⟨rfl, fun hi => absurd hi List.not_mem_nil⟩ hhalts
    · have hmem : i.val ∈ t.issued := by
        rw [← List.count_pos_iff, hissued i c hc]
        exact Nat.one_pos
      refine hsends.2 hmem c ?_
      rw [HostNic.rxCtxAt_val, hsends.1]
      exact hc
    · intro s _ u hs hnext
      obtain rfl := destroyMachine_next hnext
      have hsame := DestroyLoop.round_rxCtxs ctxDestroy s
      refine ⟨hsame.trans hs.1, fun hi => ?_⟩
      rw [HostNic.rxCtxAt_val, hsame, ← HostNic.rxCtxAt_val]
      exact DestroyLoop.round_issued hs.2 hi
  · intro h
    exact .of_packed h.1 h.2

/-- Two queues are allocated after the default one, and the first of them is freed. -/
def holeRun : List (HalAction 2) :=
  [.attach (attachPlan 2 100 200), .alloc (.ctx 1 300 (.command none (some nxHostCtxStateActive))),
    .alloc (.ctx 2 400 (.command none (some nxHostCtxStateActive))), .free 1]

/-- After them the loop looks at the second entry for ever, and the third context is never
destroyed. -/
theorem destroy_stays_at_hole : ¬∀ t, (halMachine 2 false).run (.initial 2) holeRun = some t →
    t.DestroysAll nxDestroyCtxReset := by
  intro hall
  have hrun : ((halMachine 2 false).run (.initial 2) holeRun).map
      (fun t => (t.activeRxCtxs, t.rxCtxs 1)) = some (2, none) := by
    decide +kernel
  obtain ⟨t, ht, hends⟩ := Option.map_eq_some_iff.mp hrun
  obtain ⟨hactive, hnone⟩ := Prod.mk.inj hends
  obtain ⟨u, hhalts, -⟩ := hall t ht
  have hlive := HostNic.Packed.of_halts hhalts 1 (by
    rw [hactive]
    exact Nat.one_lt_two)
  rw [hnone] at hlive
  exact Bool.false_ne_true hlive

end Ctx
end NxNic

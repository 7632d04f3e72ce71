import NxNic.Ctx.Consistency

/-! # Contexts created anew after a reset

`nx_reset_netq_rx_queues` makes as many allocations as bits are set, and each takes the lowest
index whose context is still missing.  So all come back if no creation fails, and the highest ones
are missing otherwise, though their bits are given back.

The state is the `CtxWorld` of `Ctx/Rules`: the device with its bits, table and count, and the
rules that are saved across a reset.  A step is an allocation, a free, a rule set or removed, or a
reset as a whole, with the outcomes of its allocations.

`Recreating` is what the loop keeps, in the words of the device with which it began: the indices
still open are those of the contexts still missing, and they are the highest ones.  From it come
what is missing in the end (`Recreating.missing_iff`) and when the registry is consistent again
(`Recreating.consistent_iff`).

`CtxWorld.Registered` is the property of a state: bits, table and count say the same, and a failed
allocation has left them as they were.  `CtxWorld.Proper` is the condition on a step, and
`registered_iff` ties the two over the runs of `ctxMachine`.
-/
namespace NxNic
namespace Ctx
namespace NxDev

variable {k : Nat} {saved : BitVec 32} {d₀ d d' t : NxDev k} {i j : Fin (k + 1)}

/-- The indices that can be given to new contexts. -/
def openIds (d : NxDev k) : Finset (Fin (k + 1)) := {i | d.Open i}

theorem mem_openIds : i ∈ d.openIds ↔ d.Open i := by rw [openIds, Finset.mem_filter_univ]

theorem Created.open_iff (h : Created d d' i) (j : Fin (k + 1)) :
    d'.Open j ↔ d.Open j ∧ j ≠ i := by
  by_cases hj : j = i
  · subst hj
    refine iff_of_false (fun hopen => ?_) fun hopen => hopen.2 rfl
    have hnew := h.new
    rw [hopen.1] at hnew
    exact absurd hnew nofun
  · have hsome := h.isSome j
    rw [decide_eq_false hj, Bool.or_false] at hsome
    rw [Open, Open, h.bits j (Fin.val_ne_of_ne hj), ← Option.not_isSome_iff_eq_none,
      ← Option.not_isSome_iff_eq_none, hsome]
    exact (and_iff_left hj).symm

theorem Created.card_openIds (h : Created d d' i) : d'.openIds.card + 1 = d.openIds.card := by
  have herase : d'.openIds = d.openIds.erase i := by
    ext j
    rw [Finset.mem_erase, mem_openIds, mem_openIds, h.open_iff]
    exact and_comm
  rw [herase]
  exact Finset.card_erase_add_one (mem_openIds.mpr h.isOpen)

/-- **What the loop keeps**, when the bits were `saved` and it began with the device `d₀`: the
open indices are those of the contexts that are still missing, the highest ones. -/
structure Recreating (saved : BitVec 32) (d₀ d : NxDev k) : Prop where
  placed : d.Placed
  active : d.activeRxCtxs = d.live.card
  missing : ∀ i, d.Open i → saved.getLsbD i = true
  made : ∀ i : Fin (k + 1), saved.getLsbD i = true → ¬d.Open i → (d.rxCtxs i).isSome
  kept : ∀ i : Fin (k + 1), saved.getLsbD i = false →
    (d.rxCtxs i).isSome = (d₀.rxCtxs i).isSome
  upper : ∀ i j : Fin (k + 1), d.Open i → i ≤ j → saved.getLsbD j = true → d.Open j

/-- A round that creates a context. -/
theorem Recreating.created (h : Recreating saved d₀ d) (hc : Created d d' i) :
    Recreating saved d₀ d' where
  placed := hc.placed h.placed
  active := by rw [hc.active, hc.card_live, h.active]
  missing j hj := h.missing j ((hc.open_iff j).mp hj).1
  made j hsaved hopen := by
    rw [hc.isSome]
    by_cases hj : j = i
    · simp [hj]
    · rw [h.made j hsaved fun hj' => hopen ((hc.open_iff j).mpr ⟨hj', hj⟩), Bool.true_or]
  kept j hsaved := by
    have hj : j ≠ i := by
      rintro rfl
      exact absurd (h.missing j hc.isOpen) (by rw [hsaved]; exact Bool.false_ne_true)
    rw [hc.isSome, decide_eq_false hj, Bool.or_false]
    exact h.kept j hsaved
  upper j l hopen hle hsaved := by
    obtain ⟨hj, hne⟩ := (hc.open_iff j).mp hopen
    have hlt : i < j := lt_of_le_of_ne (not_lt.mp fun hlt => hc.lowest j hlt hj) hne.symm
    exact (hc.open_iff l).mpr ⟨h.upper j l hj hle hsaved, (hlt.trans_le hle).ne'⟩

/-- **The loop**: there is a context missing for each round that has failed. -/
theorem resetLoop_spec (hk : k < 32) {outs : List AllocOutcome} {num : BitVec 32} {e : Nat}
    (h : Recreating saved d₀ d) (hcard : d.openIds.card = (Bits.indices num).length + e)
    (hloop : resetLoop outs num d = some t) :
    Recreating saved d₀ t ∧ t.openIds.card = e + outs.countP fun o => o.failed.isSome := by
  induction outs generalizing d num e with
  | nil =>
    rw [resetLoop] at hloop
    obtain ⟨hzero, hloop⟩ := Option.ite_none_right_eq_some.mp hloop
    obtain rfl := Option.some.inj hloop
    rw [Bits.indices_eq_nil.mpr hzero, List.length_nil, Nat.zero_add] at hcard
    exact ⟨h, hcard⟩
  | cons o outs ih =>
    rw [resetLoop] at hloop
    obtain ⟨hne, hloop⟩ := Option.ite_none_left_eq_some.mp hloop
    have hlength : (Bits.indices (num &&& (num - 1))).length + 1 = (Bits.indices num).length := by
      have hpos := List.length_pos_iff.mpr (mt Bits.indices_eq_nil.mp hne)
      rw [Bits.indices_and_sub_one hne, List.length_tail]
      omega
    have hsome : ∃ i, d.Open i := by
      obtain ⟨i, hi⟩ := Finset.card_pos.mp (show 0 < d.openIds.card by omega)
      exact ⟨i, mem_openIds.mp hi⟩
    rcases resetRound_cases d hk o with ⟨hfails, hround⟩ | ⟨hfailed, i, hcreated⟩
    · have hfailed := hfails.resolve_right (not_forall_not.mpr hsome)
      rw [hround] at hloop
      obtain ⟨ht, hopen⟩ := ih (e := e + 1) h (by omega) hloop
      refine ⟨ht, hopen.trans ?_⟩
      have hcount : (o :: outs).countP (fun o => o.failed.isSome) =
          outs.countP (fun o => o.failed.isSome) + 1 :=
        List.countP_cons_of_pos (Option.isSome_iff_ne_none.mpr hfailed)
      omega
    · have hopen' := hcreated.card_openIds
      obtain ⟨ht, hopen⟩ := ih (e := e) (h.created hcreated) (by omega) hloop
      refine ⟨ht, hopen.trans ?_⟩
      have hcount : (o :: outs).countP (fun o => o.failed.isSome) =
          outs.countP (fun o => o.failed.isSome) :=
        List.countP_cons_of_neg (by rw [hfailed]; exact Bool.false_ne_true)
      rw [hcount]

/-- The loop ends after a round for each bit. -/
theorem resetLoop_ends {outs : List AllocOutcome} {num : BitVec 32}
    (h : outs.length = (Bits.indices num).length) : ∃ t, resetLoop outs num d = some t := by
  induction outs generalizing d num with
  | nil =>
    have hzero := Bits.indices_eq_nil.mp (List.length_eq_zero_iff.mp h.symm)
    exact ⟨d, by rw [resetLoop, if_pos hzero]⟩
  | cons o outs ih =>
    have hne : num ≠ 0 := fun hzero => by
      rw [Bits.indices_eq_nil.mpr hzero] at h
      exact absurd h nofun
    rw [resetLoop, if_neg hne]
    refine ih ?_
    rw [Bits.indices_and_sub_one hne, List.length_tail, ← h, List.length_cons, Nat.add_sub_cancel]

/-- What every round keeps, the loop keeps. -/
theorem resetLoop_keeps {I : NxDev k → Prop} {outs : List AllocOutcome} {num : BitVec 32}
    (round : ∀ d, ∀ o ∈ outs, I d → I (d.resetRound o)) (h : I d)
    (hloop : resetLoop outs num d = some t) : I t := by
  induction outs generalizing d num with
  | nil =>
    rw [resetLoop] at hloop
    obtain ⟨-, hloop⟩ := Option.ite_none_right_eq_some.mp hloop
    exact Option.some.inj hloop ▸ h
  | cons o outs ih =>
    rw [resetLoop] at hloop
    obtain ⟨-, hloop⟩ := Option.ite_none_left_eq_some.mp hloop
    exact ih (fun d o' ho' => round d o' (List.mem_cons_of_mem o ho'))
      (round d o List.mem_cons_self h) hloop

/-- There are as many bits as indices of the table whose bits are set. -/
theorem length_indices (hbits : ∀ i : Nat, saved.getLsbD i = true → i < k + 1) :
    ({i | saved.getLsbD i = true} : Finset (Fin (k + 1))).card = (Bits.indices saved).length := by
  rw [← List.toFinset_card_of_nodup (Bits.nodup_indices saved)]
  refine Finset.card_bij (fun i _ => i.val) (fun i hi => ?_) (fun _ _ _ _ => Fin.ext)
    fun n hn => ?_
  · exact List.mem_toFinset.mpr (Bits.mem_indices.mpr ((Finset.mem_filter_univ i).mp hi))
  · have hbit := Bits.mem_indices.mp (List.mem_toFinset.mp hn)
    exact ⟨⟨n, hbits n hbit⟩, (Finset.mem_filter_univ _).mpr hbit, rfl⟩

/-- The device with which the loop begins. -/
def inverted (d : NxDev k) : NxDev k := { d with rxCtxsState := ~~~d.rxCtxsState }

theorem open_inverted (hk : k < 32)
    (hgone : ∀ i : Fin (k + 1), d.rxCtxsState.getLsbD i = true → d.rxCtxs i = none)
    (i : Fin (k + 1)) : d.inverted.Open i ↔ d.rxCtxsState.getLsbD i = true := by
  have hlt : i.val < 32 := by omega
  show d.rxCtxs i = none ∧ (~~~d.rxCtxsState).getLsbD i = false ↔ _
  rw [BitVec.getLsbD_not, decide_eq_true hlt, Bool.true_and, Bool.not_eq_false']
  exact ⟨fun h => h.2, fun h => ⟨hgone i h, h⟩⟩

theorem recreating_inverted (hk : k < 32) (hplaced : d.Placed)
    (hactive : d.activeRxCtxs = d.live.card)
    (hgone : ∀ i : Fin (k + 1), d.rxCtxsState.getLsbD i = true → d.rxCtxs i = none) :
    Recreating d.rxCtxsState d d.inverted where
  placed := hplaced
  active := hactive
  missing i hi := (open_inverted hk hgone i).mp hi
  made i hsaved hi := absurd ((open_inverted hk hgone i).mpr hsaved) hi
  kept _ _ := rfl
  upper _ j _ _ hsaved := (open_inverted hk hgone j).mpr hsaved

/-- **`nx_reset_netq_rx_queues`**, called when none of the contexts with a bit is there. -/
theorem nxResetNetqRxQueues_spec (hk : k < 32) {outs : List AllocOutcome}
    (hplaced : d.Placed) (hactive : d.activeRxCtxs = d.live.card)
    (hbits : ∀ i : Nat, d.rxCtxsState.getLsbD i = true → i < k + 1)
    (hgone : ∀ i : Fin (k + 1), d.rxCtxsState.getLsbD i = true → d.rxCtxs i = none)
    (hreset : d.nxResetNetqRxQueues outs = some t) :
    ∃ r, resetLoop outs d.rxCtxsState d.inverted = some r ∧
      t = { r with rxCtxsState := d.rxCtxsState } ∧ Recreating d.rxCtxsState d r ∧
      r.openIds.card = outs.countP fun o => o.failed.isSome := by
  obtain ⟨r, hloop, rfl⟩ := Option.map_eq_some_iff.mp hreset
  have hcard : d.inverted.openIds.card = (Bits.indices d.rxCtxsState).length + 0 :=
    (congrArg Finset.card (Finset.filter_congr fun i _ => open_inverted hk hgone i)).trans
      (length_indices hbits)
  obtain ⟨hr, hcount⟩ :=
    resetLoop_spec hk (recreating_inverted hk hplaced hactive hgone) hcard hloop
  exact ⟨r, hloop, rfl, hr, hcount.trans (Nat.zero_add _)⟩

/-! ## Consistency -/

theorem Consistent.created (h : d.Consistent) (hc : Created d d' i)
    (hbit : d'.rxCtxsState.getLsbD i = true) : d'.Consistent where
  bits n hn := by
    by_cases hni : n = i
    · subst hni
      exact iff_of_true hbit ⟨i.isLt, by rw [hc.isSome]; simp⟩
    · rw [hc.bits n hni, h.bits n hn]
      refine exists_congr fun hlt => ?_
      have hne : (⟨n, hlt⟩ : Fin (k + 1)) ≠ i := fun heq => hni (congrArg Fin.val heq)
      rw [hc.isSome, decide_eq_false hne, Bool.or_false]
  active := by rw [hc.active, hc.card_live, h.active]

/-- A context is freed and its bit is cleared. -/
theorem Consistent.freed (hk : k < 32) (h : d.Consistent) (hplaced : d.Placed) {c : RxCtx k}
    (hc : d.rxCtxs i = some c) :
    ({ d.nxFwCmdCreateRxCtxFree c with
      rxCtxsState := (d.nxFwCmdCreateRxCtxFree c).rxCtxsState &&& ~~~Bits.bit 32 i } :
        NxDev k).Consistent := by
  have hfreed := freed_free hplaced h.active hc
  have hstate : (d.nxFwCmdCreateRxCtxFree c).rxCtxsState = d.rxCtxsState := by
    rw [free_live hplaced h.active hc]
  refine ⟨fun n hn => ?_, hfreed.active⟩
  show ((d.nxFwCmdCreateRxCtxFree c).rxCtxsState &&& ~~~Bits.bit 32 i).getLsbD n = true ↔
    ∃ hlt : n < k + 1, ((d.nxFwCmdCreateRxCtxFree c).rxCtxs ⟨n, hlt⟩).isSome = true
  rw [Bits.getLsbD_and_not_bit _ (by omega), hstate, hfreed.table]
  by_cases hni : n = i
  · subst hni
    simp
  · rw [decide_eq_false hni, Bool.not_false, Bool.and_true, h.bits n hn]
    refine exists_congr fun hlt => ?_
    rw [Function.update_of_ne fun heq => hni (congrArg Fin.val heq)]

/-- The registry is consistent after the reset just if no context from 1 on is missing. -/
theorem Recreating.consistent_iff (h : Recreating saved d₀ d)
    (hbits : ∀ i : Nat, saved.getLsbD i = true → i < k + 1)
    (hgone : ∀ i : Fin (k + 1), 1 ≤ i.val → d₀.rxCtxs i = none) :
    ({ d with rxCtxsState := saved } : NxDev k).Consistent ↔
      ∀ i : Fin (k + 1), 1 ≤ i.val → ¬d.Open i := by
  constructor
  · intro hcons i hi hopen
    obtain ⟨hlt, hsome⟩ := (hcons.bits i hi).mp (h.missing i hopen)
    rw [show d.rxCtxs ⟨i, hlt⟩ = none from hopen.1] at hsome
    exact absurd hsome Bool.false_ne_true
  · intro hnone
    refine ⟨fun n hn => ⟨fun hbit => ?_, fun ⟨hlt, hsome⟩ => ?_⟩, h.active⟩
    · exact ⟨hbits n hbit, h.made ⟨n, hbits n hbit⟩ hbit (hnone _ hn)⟩
    · by_contra hclear
      have hkept := h.kept ⟨n, hlt⟩ (Bool.not_eq_true _ ▸ hclear)
      rw [hgone ⟨n, hlt⟩ hn] at hkept
      exact absurd (hsome.symm.trans hkept) nofun

/-- No context from 1 on is missing just if no round has failed, or there was none to create. -/
theorem Recreating.missing_iff (h : Recreating saved d₀ d) {outs : List AllocOutcome}
    (hcount : d.openIds.card = outs.countP fun o => o.failed.isSome)
    (hbits : ∀ i : Nat, saved.getLsbD i = true → i < k + 1) :
    (∀ i : Fin (k + 1), 1 ≤ i.val → ¬d.Open i) ↔
      (∀ o ∈ outs, o.failed = none) ∨ ∀ i : Nat, 1 ≤ i → saved.getLsbD i = false := by
  have hall : (∀ o ∈ outs, o.failed = none) ↔ ∀ i, ¬d.Open i := by
    rw [show (∀ i, ¬d.Open i) ↔ d.openIds = ∅ by
        rw [Finset.eq_empty_iff_forall_notMem]
        exact forall_congr' fun i => by rw [mem_openIds],
      ← Finset.card_eq_zero, hcount, List.countP_eq_zero]
    simp
  constructor
  · intro hnone
    by_cases hzero : d.Open 0
    · refine .inr fun n hn => ?_
      by_contra hset
      have hbit := Bool.not_eq_false _ ▸ hset
      exact hnone ⟨n, hbits n hbit⟩ hn (h.upper 0 ⟨n, hbits n hbit⟩ hzero (Fin.zero_le _) hbit)
    · refine .inl (hall.mpr fun i hopen => ?_)
      rcases Nat.eq_zero_or_pos i.val with hi | hi
      · exact hzero ((show i = 0 from Fin.ext hi) ▸ hopen)
      · exact hnone i hi hopen
  · rintro (hok | hclear) i hi hopen
    · exact hall.mp hok i hopen
    · exact absurd ((h.missing i hopen).symm.trans (hclear i hi)) nofun

end NxDev

/-! ## The registry over whole runs -/

variable {k : Nat} {w u : CtxWorld k} {a : CtxAction}

/-- **The property**: no call has gone astray, the registry is consistent, and the allocations
that have failed have left its bits and its count as they were. -/
structure CtxWorld.Registered (w : CtxWorld k) : Prop where
  astray : w.astray = false
  consistent : w.dev.Consistent
  refused : ∀ p ∈ w.refused, p.2.rxCtxsState = p.1.rxCtxsState ∧
    p.2.activeRxCtxs = p.1.activeRxCtxs

/-- **The condition**: an allocation does not fail in `nx_register_irq`, an id does not take a
call outside the table, and in a reset all the creations succeed, unless no bit from 1 on is set;
there the default context finds its place free, or none. -/
def CtxWorld.Proper (w : CtxWorld k) : CtxAction → Prop
  | .alloc o => ¬(o.failed = none ∧ o.irqFails = true ∧ ∃ i, w.dev.Open i)
  | .free id beyond => ¬NxDev.Strays k id beyond
  | .setRule id beyond _ _ => ¬NxDev.Strays k id beyond
  | .removeRule id beyond _ _ => ¬NxDev.Strays k id beyond
  | .reset attached outs =>
    (attached = true → w.dev.rxCtxsState.getLsbD 0 = false ∨
      ∀ i : Fin (k + 1), w.dev.rxCtxsState.getLsbD i = true) ∧
    ((∀ o ∈ outs, o.failed = none) ∨ ∀ i : Nat, 1 ≤ i → w.dev.rxCtxsState.getLsbD i = false)

instance (k : Nat) (id : Int) (beyond : Bool) : Decidable (NxDev.Strays k id beyond) :=
  inferInstanceAs (Decidable (_ ∧ _))

/-- The bits of a word are those up to its width. -/
instance decidableClear (x : BitVec 32) : Decidable (∀ i : Nat, 1 ≤ i → x.getLsbD i = false) :=
  decidable_of_iff (∀ i : Fin 32, 1 ≤ i.val → x.getLsbD i = false)
    ⟨fun h i hi => (Nat.lt_or_ge i 32).elim (fun hlt => h ⟨i, hlt⟩ hi) (BitVec.getLsbD_of_ge x i),
      fun h i hi => h i hi⟩

instance (w : CtxWorld k) : (a : CtxAction) → Decidable (w.Proper a)
  | .alloc _ => inferInstanceAs (Decidable (¬(_ ∧ _ ∧ _)))
  | .free _ _ => inferInstanceAs (Decidable (¬_))
  | .setRule _ _ _ _ => inferInstanceAs (Decidable (¬_))
  | .removeRule _ _ _ _ => inferInstanceAs (Decidable (¬_))
  | .reset _ _ => inferInstanceAs (Decidable ((_ → _ ∨ _) ∧ (_ ∨ _)))

namespace CtxWorld

/-- What runs keep. -/
structure Kept (w : CtxWorld k) : Prop extends w.Registered where
  placed : w.dev.Placed

/-- A step to `u` keeps everything under the condition, and needs it. -/
def Exact (w u : CtxWorld k) (a : CtxAction) : Prop :=
  (w.Proper a → u.Kept) ∧ (u.Registered → w.Proper a)

theorem Kept.same {d : NxDev k} (h : w.Kept) (hsame : NxDev.Same w.dev d) :
    ({ w with dev := d } : CtxWorld k).Kept where
  astray := h.astray
  consistent := hsame.consistent h.consistent
  refused := h.refused
  placed := hsame.placed h.placed

theorem exact_alloc (hk : k < 32) (h : w.Kept) (o : AllocOutcome) :
    Exact w (w.alloc o) (.alloc o) := by
  have hrefused : ∀ {d : NxDev k}, d.rxCtxsState = w.dev.rxCtxsState →
      d.activeRxCtxs = w.dev.activeRxCtxs → ∀ p ∈ w.refused ++ [(w.dev, d)],
        p.2.rxCtxsState = p.1.rxCtxsState ∧ p.2.activeRxCtxs = p.1.activeRxCtxs := by
    intro d hstate hactive p hp
    rcases List.mem_append.mp hp with hp | hp
    · exact h.refused p hp
    · obtain rfl := List.mem_singleton.mp hp
      exact ⟨hstate, hactive⟩
  rw [Exact, CtxWorld.alloc]
  rcases w.dev.alloc_cases hk o with
    ⟨hfails, halloc⟩ |
      ⟨hfailed, i, d, hcreated, -, -, ⟨hirq, halloc, -⟩ | ⟨hirq, halloc, hbit⟩⟩
  · rw [halloc]
    refine ⟨fun _ => { h with refused := hrefused rfl rfl }, fun _ hall => ?_⟩
    exact hfails.elim (fun hne => hne hall.1) fun hnone => hnone _ hall.2.2.choose_spec
  · rw [halloc]
    have hproper : ¬w.Proper (.alloc o) := fun hp => hp ⟨hfailed, hirq, i, hcreated.isOpen⟩
    refine ⟨fun hp => absurd hp hproper, fun hu => ?_⟩
    have hsame := (hu.refused (w.dev, d) (List.mem_append_right _ (List.mem_singleton_self _))).2
    exact absurd (hcreated.active.symm.trans hsame) (Nat.succ_ne_self _)
  · rw [halloc]
    refine ⟨fun _ => ?_, fun _ hall => absurd (hirq.symm.trans hall.2.1) Bool.false_ne_true⟩
    exact { h with
      consistent := h.consistent.created hcreated hbit
      placed := hcreated.placed h.placed }

theorem exact_rule {id : Int} {beyond : Bool} {r : NxDev.Result k} (h : w.Kept)
    (hr : NxDev.RuleResult w.dev id beyond r)
    (ha : w.Proper a ↔ ¬NxDev.Strays k id beyond) : Exact w (w.takes r) a := by
  rw [Exact, ha]
  cases r with
  | returned ok d =>
    refine ⟨fun _ => h.same (hr.2 ok d rfl), fun _ hstrays => absurd (hr.1.mpr hstrays) nofun⟩
  | astray =>
    exact ⟨fun hnot => absurd (hr.1.mp rfl) hnot, fun hu => absurd hu.astray nofun⟩

theorem exact_free (hk : k < 32) (h : w.Kept) (id : Int) (beyond : Bool) :
    Exact w (w.takes (w.dev.nxNicMultictxFreeRxCtx id beyond)) (.free id beyond) := by
  rw [NxDev.nxNicMultictxFreeRxCtx]
  split
  · rename_i hid
    exact ⟨fun _ => h.same (NxDev.same_refl _), fun _ hstrays => absurd hstrays.1 (by omega)⟩
  · rename_i hid
    have hforeign : w.dev.entry id beyond = .foreign ↔ NxDev.Strays k id beyond :=
      NxDev.entry_foreign hid
    cases hentry : w.dev.entry id beyond with
    | foreign =>
      exact ⟨fun hnot => absurd (hforeign.mp hentry) hnot, fun hu => absurd hu.astray nofun⟩
    | null =>
      exact ⟨fun _ => h.same (NxDev.same_refl _),
        fun _ hstrays => absurd (hforeign.mpr hstrays) (by rw [hentry]; nofun)⟩
    | ctx i c =>
      have hc := NxDev.entry_eq_ctx hentry
      refine ⟨fun _ => { h with
          consistent := h.consistent.freed hk h.placed hc
          placed := (NxDev.freed_free h.placed h.consistent.active hc).placed },
        fun _ hstrays => absurd (hforeign.mpr hstrays) (by rw [hentry]; nofun)⟩

/-- The device before `nx_reset_netq_rx_queues`: there is at most the default context, and it
has no bit. -/
structure Emptied (d d' : NxDev k) : Prop where
  placed : d'.Placed
  active : d'.activeRxCtxs = d'.live.card
  state : d'.rxCtxsState = d.rxCtxsState
  saved : d'.savedRules = d.savedRules
  gone : ∀ i : Fin (k + 1), 1 ≤ i.val → d'.rxCtxs i = none
  first : d.rxCtxsState.getLsbD 0 = true → d'.rxCtxs 0 = none

/-- Whoever has a bit has no context. -/
theorem Emptied.of_bit {d d' : NxDev k} (h : Emptied d d') (i : Fin (k + 1))
    (hbit : d'.rxCtxsState.getLsbD i = true) : d'.rxCtxs i = none := by
  rcases Nat.eq_zero_or_pos i.val with hi | hi
  · obtain rfl : i = 0 := Fin.ext hi
    exact h.first (h.state ▸ hbit)
  · exact h.gone i hi

/-- **The attach** after the detach: it goes astray just if it creates another context than the
default one. -/
theorem attach_cases (hplaced : w.dev.Placed) (hactive : w.dev.activeRxCtxs = w.dev.live.card)
    (attached : Bool) :
    (∃ isUp d, (if attached then w.dev.unmNicFreeRingContext.attach
        else some (false, w.dev.unmNicFreeRingContext)) = some (isUp, d) ∧ Emptied w.dev d ∧
      (attached = true →
        w.dev.rxCtxsState.getLsbD 0 = false ∧ d.rxCtxs 0 = some (NxDev.blank 0) ∨
        ∀ i : Fin (k + 1), w.dev.rxCtxsState.getLsbD i = true)) ∨
    (if attached then w.dev.unmNicFreeRingContext.attach
        else some (false, w.dev.unmNicFreeRingContext)) = none ∧
      attached = true ∧ ¬(w.dev.rxCtxsState.getLsbD 0 = false ∨
        ∀ i : Fin (k + 1), w.dev.rxCtxsState.getLsbD i = true) := by
  rw [NxDev.detached hplaced hactive]
  generalize hd : ({ w.dev with rxCtxs := fun _ => none, activeRxCtxs := 0 } : NxDev k) = d
  have hstate : d.rxCtxsState = w.dev.rxCtxsState := by rw [← hd]
  have hnone : ∀ i, d.rxCtxs i = none := fun i => by rw [← hd]
  have hopen : ∀ i : Fin (k + 1), d.Open i ↔ w.dev.rxCtxsState.getLsbD i = false := fun i => by
    rw [NxDev.Open, hstate]
    exact and_iff_right (hnone i)
  have hempty : Emptied w.dev d := by
    refine ⟨fun i c hc => absurd ((hnone i).symm.trans hc).symm (Option.some_ne_none c), ?_,
      hstate, by rw [← hd],
      fun i _ => hnone i, fun _ => hnone 0⟩
    have hlive : d.live = ∅ := Finset.eq_empty_of_forall_notMem fun i hi => by
      rw [NxDev.mem_live, hnone] at hi
      exact absurd hi Bool.false_ne_true
    rw [hlive, ← hd]
    rfl
  cases attached with
  | false => exact .inl ⟨false, d, rfl, hempty, fun hset => absurd hset Bool.false_ne_true⟩
  | true =>
    rw [if_pos rfl, NxDev.attach]
    cases hfound : d.findOpenRxId with
    | none =>
      have hfull := NxDev.findOpenRxId_eq_none.mp hfound
      rw [NxDev.create_fails (.inr hfull)]
      exact .inl ⟨false, d, rfl, hempty, fun _ => .inr fun i =>
        Bool.not_eq_false _ ▸ mt (hopen i).mpr (hfull i)⟩
    | some i =>
      have hcreated := NxDev.created_alloc hfound
      rw [NxDev.create_succeeds hfound]
      by_cases hi : i = 0
      · subst hi
        have hclear := (hopen 0).mp hcreated.isOpen
        refine .inl ⟨true, _, if_pos rfl, ⟨hcreated.placed hempty.placed, ?_, hstate, hempty.saved,
          fun j hj => ?_, fun hset => absurd (hclear.symm.trans hset) Bool.false_ne_true⟩,
          fun _ => .inl ⟨hclear, NxDev.alloc_self d 0⟩⟩
        · rw [hcreated.active, hcreated.card_live, hempty.active]
        · have hj0 : j ≠ 0 := Fin.pos_iff_ne_zero.mp hj
          exact (NxDev.alloc_of_ne d hj0).trans (hnone j)
      · refine .inr ⟨if_neg (Fin.val_ne_zero_iff.mpr hi), rfl, ?_⟩
        rintro (hclear | hall)
        · exact hcreated.lowest 0 (Fin.pos_iff_ne_zero.mpr hi) ((hopen 0).mpr hclear)
        · exact absurd (((hopen i).mp hcreated.isOpen).symm.trans (hall i)) Bool.false_ne_true

theorem exact_reset (hk : k < 32) (h : w.Kept) {attached : Bool} {outs : List AllocOutcome}
    (hu : w.reset false attached outs = some u) : Exact w u (.reset attached outs) := by
  obtain ⟨d, hdetach, hu⟩ := Option.bind_eq_some_iff.mp hu
  obtain ⟨-, rfl⟩ := NxDev.detach_eq_some.mp hdetach
  rw [netxenNicAttachAllPorts] at hu
  rcases attach_cases h.placed h.consistent.active attached with
    ⟨isUp, d, hattach, hempty, hfree⟩ | ⟨hattach, hattached, hnot⟩
  · rw [hattach] at hu
    obtain ⟨t, hreset, rfl⟩ := Option.map_eq_some_iff.mp hu
    have hbits : ∀ i : Nat, d.rxCtxsState.getLsbD i = true → i < k + 1 := by
      intro i hbit
      rcases Nat.eq_zero_or_pos i with rfl | hi
      · exact Nat.succ_pos k
      · exact ((h.consistent.bits i hi).mp (hempty.state ▸ hbit)).1
    obtain ⟨r, -, rfl, hr, hcount⟩ := NxDev.nxResetNetqRxQueues_spec hk hempty.placed
      hempty.active hbits hempty.of_bit hreset
    have hcons := (hr.consistent_iff hbits hempty.gone).trans (hr.missing_iff hcount hbits)
    rw [hempty.state] at hcons
    refine ⟨fun hp => ?_, fun hreg =>
      ⟨fun hattached => (hfree hattached).imp And.left id, ?_⟩⟩
    · exact { h with
        consistent := by
          rw [hempty.state]
          exact hcons.mpr hp.2
        placed := hr.placed }
    · have hreg := hreg.consistent
      dsimp only at hreg
      rw [hempty.state] at hreg
      exact hcons.mp hreg
  · rw [hattach] at hu
    obtain rfl := Option.some.inj hu
    exact ⟨fun hp => absurd (hp.1 hattached) hnot, fun hreg => absurd hreg.astray nofun⟩

theorem exact_next (hk : k < 32) (h : w.Kept) (hnext : (ctxMachine k).next w a = some u) :
    Exact w u a := by
  obtain ⟨-, hnext⟩ := Option.ite_none_left_eq_some.mp hnext
  cases a with
  | alloc o => exact Option.some.inj hnext ▸ exact_alloc hk h o
  | free id beyond => exact Option.some.inj hnext ▸ exact_free hk h id beyond
  | setRule id beyond mac taken =>
    exact Option.some.inj hnext ▸ exact_rule h (NxDev.setRxRule_result ..) Iff.rfl
  | removeRule id beyond ruleId taken =>
    exact Option.some.inj hnext ▸ exact_rule h (NxDev.removeRxRule_result ..) Iff.rfl
  | reset attached outs => exact exact_reset hk h hnext

theorem kept_init (attached : Bool) (saved : Fin (k + 1) → RxRule) :
    (CtxWorld.init attached saved).Kept := by
  have hplaced : (⟨fun _ => none, saved, 0, 0⟩ : NxDev k).Placed := nofun
  have hlive : (⟨fun _ => none, saved, 0, 0⟩ : NxDev k).live = ∅ :=
    Finset.eq_empty_of_forall_notMem fun i hi => absurd (NxDev.mem_live.mp hi) nofun
  have hcons : (⟨fun _ => none, saved, 0, 0⟩ : NxDev k).Consistent := by
    refine ⟨fun n _ => iff_of_false ?_ fun ⟨_, hsome⟩ => absurd hsome nofun, ?_⟩
    · show ¬(0#32).getLsbD n = true
      rw [BitVec.getLsbD_zero]
      exact Bool.false_ne_true
    · rw [hlive]
      rfl
  cases attached with
  | false => exact ⟨⟨rfl, hcons, nofun⟩, hplaced⟩
  | true =>
    have hfound : (⟨fun _ => none, saved, 0, 0⟩ : NxDev k).findOpenRxId = some 0 :=
      NxDev.findOpenRxId_eq_some.mpr
        ⟨⟨rfl, BitVec.getLsbD_zero⟩, fun j hj => absurd hj (Fin.not_lt_zero j)⟩
    have hcreated := NxDev.created_alloc hfound
    refine ⟨⟨rfl, ⟨fun n hn => ?_, ?_⟩, nofun⟩, hcreated.placed hplaced⟩
    · refine (hcons.bits n hn).trans (exists_congr fun hlt => ?_)
      have hne : (⟨n, hlt⟩ : Fin (k + 1)) ≠ 0 := Fin.pos_iff_ne_zero.mp hn
      show _ ↔ (((_ : NxDev k).nxFwCmdCreateRxCtxAlloc 0).rxCtxs ⟨n, hlt⟩).isSome = true
      rw [hcreated.isSome, decide_eq_false hne, Bool.or_false]
    · exact hcreated.active.trans ((congrArg (· + 1) hcons.active).trans hcreated.card_live.symm)

end CtxWorld

/-- **The registry of receive contexts**: in a run it is consistent throughout just if all the
steps of the run meet the condition.  Allocations may fail at any other of their points than the
registration of the interrupt, and rules and resets may come anywhere. -/
theorem registered_iff (numRxQueues : Fin 16) (attached : Bool)
    (saved : Fin (numRxQueues + 1) → RxRule) {l : List CtxAction} {t : CtxWorld numRxQueues}
    (h : (ctxMachine numRxQueues).run (.init attached saved) l = some t) :
    (∀ u, (ctxMachine numRxQueues).Visits (.init attached saved) l u → u.Registered) ↔
      ∀ u a, (ctxMachine numRxQueues).Takes (.init attached saved) l u a → u.Proper a := by
  have hk : numRxQueues.val < 32 := by omega
  exact (ctxMachine numRxQueues).visits_iff_takes (K := CtxWorld.Kept)
    (fun _ hs => hs.toRegistered) (fun _ _ _ hs hp hnext => (CtxWorld.exact_next hk hs hnext).1 hp)
    (fun _ _ _ hs hnext hu => (CtxWorld.exact_next hk hs hnext).2 hu)
    (CtxWorld.kept_init attached saved) h

/-- No rule, as `saved_rules` may hold. -/
def noRule : RxRule := ⟨0, false, 0⟩

/-- Two contexts are allocated, one of them has a rule, and both come back after a reset. -/
def recreatedRun : List CtxAction :=
  [.alloc ⟨none, false, true⟩, .alloc ⟨none, false, true⟩, .alloc ⟨some .stsRings, false, true⟩,
    .setRule 1 false 0x020000000001 true, .reset true [⟨none, false, true⟩, ⟨none, true, true⟩],
    .free 2 false]

/-- The two contexts are there after the reset, and the registry has been consistent all the way. -/
theorem registered_iff_recreated :
    ∃ t, (ctxMachine 15).run (.init true fun _ => noRule) recreatedRun = some t ∧
      (t.dev.rxCtxsState, t.dev.activeRxCtxs) = (2, 2) ∧
      ∀ u, (ctxMachine 15).Visits (.init true fun _ => noRule) recreatedRun u → u.Registered := by
  have hrun : (((ctxMachine 15).guard CtxWorld.Proper).run (.init true fun _ => noRule)
      recreatedRun).map (fun t => (t.dev.rxCtxsState, t.dev.activeRxCtxs)) = some (2, 2) := by
    decide +kernel
  obtain ⟨t, ht, hends⟩ := Option.map_eq_some_iff.mp hrun
  have ht' := Machine.run_of_guard ht
  exact ⟨t, ht', hends,
    (registered_iff 15 true _ ht').mpr fun _ _ htakes => Machine.takes_of_guard ht htakes⟩

/-- The interrupt of a context cannot be registered. -/
def unregisteredRun : List CtxAction := [.alloc ⟨none, true, true⟩]

/-- The allocation returns an error, and its context stays in the table and in the count, without a
bit. -/
theorem failed_alloc_counts :
    ∃ t, (ctxMachine 15).run (.init true fun _ => noRule) unregisteredRun = some t ∧
      (t.dev.rxCtxsState, t.dev.activeRxCtxs) = (0, 2) ∧ (t.dev.rxCtxs 1).isSome = true ∧
      ¬t.Registered := by
  have hrun : ((ctxMachine 15).run (.init true fun _ => noRule) unregisteredRun).map
      (fun t => ((t.dev.rxCtxsState, t.dev.activeRxCtxs), (t.dev.rxCtxs 1).isSome)) =
        some ((0, 2), true) := by
    decide +kernel
  obtain ⟨t, ht, hends⟩ := Option.map_eq_some_iff.mp hrun
  obtain ⟨hcounts, hsome⟩ := Prod.mk.inj hends
  refine ⟨t, ht, hcounts, hsome, fun hreg => ?_⟩
  have hbit := (hreg.consistent.bits 1 (Nat.le_refl 1)).mpr ⟨by decide, hsome⟩
  rw [(Prod.mk.inj hcounts).1] at hbit
  exact absurd hbit (by decide)

end Ctx
end NxNic

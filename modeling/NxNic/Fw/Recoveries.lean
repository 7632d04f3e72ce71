import NxNic.Fw.Exclusion

/-! # Who stores to the register

The state is the `FwState` of `Fw/Reset`: the register `UNM_FW_RESET`, the semaphore and its
holder, where the timeout task of each function, the watchdog and the error callbacks are, and the
phase of the PCI error handling.  A step is one access of one task, with what it finds outside
the model, or a change of the phase.

Here are the stores, one by one (`Store`): a request finds the register ready, and only the party
that runs a recovery ends it.  With the invariant of `Fw/Exclusion` that is `Exclusive`, what it
means for one state that the recoveries exclude one another: at most one kind is under way, a task
at work belongs to it, the claim in the register is overwritten by nobody else, and a task that
has found the other kind's claim stores nothing.  `recoveries_exclude` has it for each state that
is reached.
-/
namespace NxNic
namespace Fw

/-- What a task has found in the register, until it unlocks. -/
def SectionPc.saw : SectionPc → Option DevState
  | .seen v => some v
  | .leaving v => some v
  | _ => none

def Pc.saw : Pc → Option DevState
  | .txTimeout pc => pc.saw
  | .firstRead pc => pc.saw
  | .secondRead pc => pc.saw
  | .requestReset pc => pc.saw
  | .requestAer _ pc => pc.saw
  | .clearAer pc => pc.saw
  | _ => none

/-- The recovery that a task is at work on: the watchdog until it sets the device
ready, a callback while it detaches its port. -/
def Pc.working : Pc → Option Kind
  | .recover _ => some .watchdog
  | .setReady _ .entering => some .watchdog
  | .setReady _ .locked => some .watchdog
  | .detaching => some .aer
  | _ => none

/-- A recovery of the kind is under way. -/
def FwState.underWay (st : FwState) : Kind → Bool
  | .watchdog => st.wdOpen
  | .aer => st.aerOpen

/-- The stores that are made: a request if the device is ready, and the end of a
recovery, or its failure, by a task of its kind. -/
inductive Store (p : Party) : DevState → DevState → Prop where
  | request {w : DevState} (hw : w.claimedBy = some p.kind) : Store p .ready w
  | finish {v w : DevState} (hv : v.claimedBy = some p.kind) (hw : w = .ready ∨ w = .failed) :
      Store p v w

/-- A section stores what its function answers to the value read. -/
theorem FwState.inSection_reg {st st' : FwState} {me : Party} {mk : SectionPc → Pc}
    {f : DevState → Answer} {ret : DevState → Pc} {pc : SectionPc}
    (h : st.inSection me mk f ret pc = some st') :
    st'.reg = st.reg ∨ ∃ v, pc = .seen v ∧ (f v).store = some st'.reg := by
  unfold FwState.inSection at h
  cases pc with
  | entering =>
    simp only at h
    by_cases hfree : st.sem = none
    · rw [if_pos hfree] at h
      obtain rfl := Option.some.inj h
      exact Or.inl rfl
    · rw [if_neg hfree] at h
      cases h
  | locked =>
    obtain rfl := Option.some.inj h
    exact Or.inl rfl
  | seen v =>
    simp only at h
    cases hanswer : (f v).store with
    | none =>
      rw [hanswer] at h
      obtain rfl := Option.some.inj h
      exact Or.inl rfl
    | some w =>
      rw [hanswer] at h
      obtain rfl := Option.some.inj h
      exact Or.inr ⟨v, rfl, hanswer⟩
  | leaving v =>
    obtain rfl := Option.some.inj h
    exact Or.inl rfl

/-- A section of a function that does not store to a register claimed by the
other kind. -/
theorem FwState.inSection_loses {st st' : FwState} {me : Party} {mk : SectionPc → Pc}
    {f : DevState → Answer} {ret : DevState → Pc} {pc : SectionPc} {v : DevState}
    (h : st.inSection me mk f ret pc = some st') (hsaw : pc.saw = some v)
    (hnone : ∀ u, (f v).store ≠ some u) : st'.reg = st.reg := by
  rcases FwState.inSection_reg h with hkept | ⟨u, rfl, hstore⟩
  · exact hkept
  · obtain rfl := Option.some.inj hsaw
    exact absurd hstore (hnone _)

namespace FwInv
variable {st st' : FwState}

/-! ## The stores -/

theorem tx_store (h : FwInv st) {f : Nat} (hstep : st.txStep f = some st') :
    st'.reg = st.reg ∨ Store (.tx f) st.reg st'.reg := by
  unfold FwState.txStep at hstep
  split at hstep
  · obtain rfl := Option.some.inj hstep
    exact Or.inl rfl
  · rename_i pc hpc
    rcases FwState.inSection_reg hstep with hkept | ⟨v, rfl, hstore⟩
    · exact Or.inl hkept
    · obtain ⟨rfl, hreg⟩ := nxDevRequestTxTimeout_store.mp hstore
      rw [h.knows hpc rfl, ← hreg]
      exact Or.inr (.request rfl)
  · cases hstep

theorem watchdog_store (h : FwInv st) {env : Env} (hstep : st.watchdogStep env = some st') :
    st'.reg = st.reg ∨ Store .watchdog st.reg st'.reg := by
  unfold FwState.watchdogStep at hstep
  split at hstep
  · obtain rfl := Option.some.inj hstep
    exact Or.inl rfl
  · rcases FwState.inSection_reg hstep with hkept | ⟨v, rfl, hstore⟩
    · exact Or.inl hkept
    · cases hstore
  · obtain rfl := Option.some.inj hstep
    exact Or.inl rfl
  · rcases FwState.inSection_reg hstep with hkept | ⟨v, rfl, hstore⟩
    · exact Or.inl hkept
    · cases hstore
  · obtain rfl := Option.some.inj hstep
    exact Or.inl rfl
  · left
    split at hstep
    · obtain rfl := Option.some.inj hstep
      rfl
    · split at hstep
      · obtain rfl := Option.some.inj hstep
        rfl
      · split at hstep <;>
        · obtain rfl := Option.some.inj hstep
          rfl
  · rename_i pc hpc
    rcases FwState.inSection_reg hstep with hkept | ⟨v, rfl, hstore⟩
    · exact Or.inl hkept
    · obtain ⟨rfl, hreg⟩ := nxDevRequestReset_store.mp hstore
      rw [h.knows hpc rfl, ← hreg]
      exact Or.inr (.request rfl)
  · obtain rfl := Option.some.inj hstep
    exact Or.inl rfl
  · obtain rfl := Option.some.inj hstep
    exact Or.inl rfl
  · -- the device is set ready without a look at the register, which still holds the request
    rename_i own pc hpc
    obtain ⟨u, hu, rfl⟩ := Option.map_eq_some_iff.mp hstep
    unfold FwState.inSetReady at hu
    cases pc with
    | entering =>
      simp only at hu
      split at hu
      · obtain rfl := Option.some.inj hu
        exact Or.inl rfl
      · cases hu
    | locked =>
      obtain rfl := Option.some.inj hu
      have hreg : st.reg = Pc.claim own := h.knows hpc rfl
      rw [hreg]
      refine Or.inr (.finish ?_ (Or.inl rfl))
      cases own <;> rfl
    | leaving =>
      obtain rfl := Option.some.inj hu
      exact Or.inl rfl
  · rename_i hpc
    obtain rfl := Option.some.inj hstep
    rw [h.knows hpc rfl]
    exact Or.inr (.finish rfl (Or.inr rfl))
  · cases hstep

theorem aer_store (h : FwInv st) {f : Nat} {env : Env} (hstep : st.aerStep f env = some st') :
    st'.reg = st.reg ∨ Store (.aer f) st.reg st'.reg := by
  unfold FwState.aerStep at hstep
  split at hstep
  · left
    split at hstep
    · cases hstep
    all_goals
      obtain rfl := Option.some.inj hstep
      rfl
  · rename_i g pc hpc
    rcases FwState.inSection_reg hstep with hkept | ⟨v, rfl, hstore⟩
    · exact Or.inl hkept
    · obtain ⟨rfl, -, hreg⟩ := nxDevRequestAer_store.mp hstore
      rw [h.knows hpc rfl, ← hreg]
      exact Or.inr (.request rfl)
  · obtain rfl := Option.some.inj hstep
    exact Or.inl rfl
  · obtain rfl := Option.some.inj hstep
    exact Or.inl rfl
  · rename_i pc hpc
    rcases FwState.inSection_reg hstep with hkept | ⟨v, rfl, hstore⟩
    · exact Or.inl hkept
    · obtain ⟨rfl, hreg⟩ := nxClearAerState_store.mp hstore
      rw [h.knows hpc rfl, ← hreg]
      exact Or.inr (.finish rfl (Or.inl rfl))
  · cases hstep

/-- **Each step of a task** leaves the register or makes one of these stores. -/
theorem store (h : FwInv st) {n : Nat} {p : Party} {env : Env}
    (hstep : (fwMachine n).next st (.step p env) = some st') :
    st'.reg = st.reg ∨ Store p st.reg st'.reg := by
  cases p with
  | watchdog => exact h.watchdog_store hstep
  | tx f =>
    simp only [fwMachine] at hstep
    split at hstep
    · exact h.tx_store hstep
    · cases hstep
  | aer f =>
    simp only [fwMachine] at hstep
    split at hstep
    · exact h.aer_store hstep
    · cases hstep

end FwInv

/-! ## What the losers do -/

/-- A task that has found the register claimed by the other kind stores nothing. -/
theorem loses_tx {st st' : FwState} {f : Nat} {v : DevState} (hstep : st.txStep f = some st')
    (hsaw : (st.pc (.tx f)).saw = some v) (hv : v.claimedBy = some .aer) : st'.reg = st.reg := by
  unfold FwState.txStep at hstep
  split at hstep
  · obtain rfl := Option.some.inj hstep
    rfl
  · rename_i pc hpc
    rw [hpc] at hsaw
    refine FwState.inSection_loses hstep hsaw fun u hstore => ?_
    obtain ⟨rfl, -⟩ := nxDevRequestTxTimeout_store.mp hstore
    cases hv
  · cases hstep

theorem loses_watchdog {st st' : FwState} {env : Env} {v : DevState}
    (hstep : st.watchdogStep env = some st') (hsaw : (st.pc .watchdog).saw = some v)
    (hv : v.claimedBy = some .aer) : st'.reg = st.reg := by
  unfold FwState.watchdogStep at hstep
  split at hstep <;> rename_i hpc <;> try (rw [hpc] at hsaw; cases hsaw)
  · exact FwState.inSection_loses hstep (by rw [hpc] at hsaw; exact hsaw) nofun
  · exact FwState.inSection_loses hstep (by rw [hpc] at hsaw; exact hsaw) nofun
  · rename_i pc hpc
    rw [hpc] at hsaw
    refine FwState.inSection_loses hstep hsaw fun u hstore => ?_
    obtain ⟨rfl, -⟩ := nxDevRequestReset_store.mp hstore
    cases hv
  · cases hstep

theorem loses_aer {st st' : FwState} {f : Nat} {env : Env} {v : DevState}
    (hstep : st.aerStep f env = some st') (hsaw : (st.pc (.aer f)).saw = some v)
    (hv : v.claimedBy = some .watchdog) : st'.reg = st.reg := by
  unfold FwState.aerStep at hstep
  split at hstep <;> rename_i hpc <;> try (rw [hpc] at hsaw; cases hsaw)
  · rename_i g pc hpc
    rw [hpc] at hsaw
    refine FwState.inSection_loses hstep hsaw fun u hstore => ?_
    obtain ⟨rfl, -⟩ := nxDevRequestAer_store.mp hstore
    cases hv
  · rename_i pc hpc
    rw [hpc] at hsaw
    refine FwState.inSection_loses hstep hsaw fun u hstore => ?_
    obtain ⟨rfl, -⟩ := nxClearAerState_store.mp hstore
    cases hv
  · cases hstep

/-! ## Exclusive recoveries -/

/-- A task at work knows of a claim for its kind. -/
theorem Pc.known_of_working {pc : Pc} {k : Kind} (hw : pc.working = some k) :
    ∃ v, pc.known = some v ∧ v.claimedBy = some k := by
  cases pc with
  | recover own => cases own <;> exact ⟨_, rfl, hw⟩
  | setReady own pc =>
    cases pc with
    | entering => cases own <;> exact ⟨_, rfl, hw⟩
    | locked => cases own <;> exact ⟨_, rfl, hw⟩
    | leaving => cases hw
  | detaching => exact ⟨_, rfl, hw⟩
  | _ => cases hw

theorem Pc.kind_of_working {pc : Pc} {p : Party} {k : Kind} (hw : pc.working = some k)
    (hb : pc.belongs p = true) : p.kind = k := by
  cases pc with
  | recover own => cases p <;> first | exact Option.some.inj hw | cases hb
  | setReady own pc =>
    cases p with
    | watchdog => cases pc <;> first | exact Option.some.inj hw | cases hw
    | _ => cases hb
  | detaching => cases p <;> first | exact Option.some.inj hw | cases hb
  | _ => cases hw

namespace FwInv
variable {st : FwState}

/-- The recoveries under way are those that the register stands for. -/
theorem underWay_iff (h : FwInv st) (k : Kind) :
    st.underWay k = true ↔ st.reg.claimedBy = some k := by
  cases k with
  | watchdog => exact h.wdOpen
  | aer => exact h.aerOpen

/-- A task at work has a claim on the register. -/
theorem working_claims (h : FwInv st) {p : Party} {k : Kind} (hw : (st.pc p).working = some k) :
    p.kind = k ∧ st.reg.claimedBy = some k := by
  obtain ⟨v, hv, hclaim⟩ := Pc.known_of_working hw
  exact ⟨Pc.kind_of_working hw (h.belongs p), h.knows rfl hv ▸ hclaim⟩

end FwInv

/-- What it means that the recoveries of a device with `n` functions exclude one
another, in one state of a run. -/
structure Exclusive (n : Nat) (st : FwState) : Prop where
  /-- At most one kind of recovery is under way. -/
  apart : ¬ (st.wdOpen = true ∧ st.aerOpen = true)
  /-- A task at work is part of the one that is. -/
  working : ∀ p k, (st.pc p).working = some k → p.kind = k ∧ st.underWay k = true
  /-- A claimed register changes only when a task of the same kind ends the
  recovery: no request overwrites the claim. -/
  kept : ∀ a st' k, (fwMachine n).next st a = some st' → st.reg.claimedBy = some k →
    st'.reg = st.reg ∨
      ∃ p env, a = .step p env ∧ p.kind = k ∧ (st'.reg = .ready ∨ st'.reg = .failed)
  /-- A task that has found a claim of the other kind stores nothing. -/
  loses : ∀ p env st' v k, (fwMachine n).next st (.step p env) = some st' →
    (st.pc p).saw = some v → v.claimedBy = some k → k ≠ p.kind → st'.reg = st.reg

theorem FwInv.kept {n : Nat} {st st' : FwState} (h : FwInv st) {a : FwAction} {k : Kind}
    (hstep : (fwMachine n).next st a = some st') (hk : st.reg.claimedBy = some k) :
    st'.reg = st.reg ∨
      ∃ p env, a = .step p env ∧ p.kind = k ∧ (st'.reg = .ready ∨ st'.reg = .failed) := by
  cases a with
  | phase next =>
    simp only [fwMachine] at hstep
    split at hstep
    · obtain rfl := Option.some.inj hstep
      exact Or.inl rfl
    · cases hstep
  | step p env =>
    rcases h.store hstep with hkept | hstore
    · exact Or.inl hkept
    · generalize st.reg = v at hstore hk
      cases hstore with
      -- a request is stored to a ready register only, and this one is claimed
      | request hw => cases hk
      | finish hv hw => exact Or.inr ⟨p, env, rfl, Option.some.inj (hv.symm.trans hk), hw⟩

theorem loses_step {n : Nat} {st st' : FwState} {p : Party} {env : Env} {v : DevState} {k : Kind}
    (hstep : (fwMachine n).next st (.step p env) = some st') (hsaw : (st.pc p).saw = some v)
    (hv : v.claimedBy = some k) (hk : k ≠ p.kind) : st'.reg = st.reg := by
  cases p with
  | watchdog =>
    cases k with
    | watchdog => exact absurd rfl hk
    | aer => exact loses_watchdog hstep hsaw hv
  | tx f =>
    simp only [fwMachine] at hstep
    split at hstep
    · cases k with
      | watchdog => exact absurd rfl hk
      | aer => exact loses_tx hstep hsaw hv
    · cases hstep
  | aer f =>
    simp only [fwMachine] at hstep
    split at hstep
    · cases k with
      | watchdog => exact loses_aer hstep hsaw hv
      | aer => exact absurd rfl hk
    · cases hstep

/-- **The recoveries exclude one another**, in every state that any number of PCI functions can
reach, whatever the order of their accesses and the outcomes of what they call. -/
theorem recoveries_exclude {n : Nat} {st : FwState} (h : ReachableFw n st) : Exclusive n st := by
  have hinv := FwInv.reachable h
  refine ⟨fun ⟨hwd, haer⟩ => ?_, fun p k hw => ?_, fun a st' k hstep hk => hinv.kept hstep hk,
    fun p env st' v k hstep hsaw hv hk => loses_step hstep hsaw hv hk⟩
  · have hboth := (hinv.wdOpen.mp hwd).symm.trans (hinv.aerOpen.mp haer)
    cases hboth
  · obtain ⟨hkind, hclaim⟩ := hinv.working_claims hw
    exact ⟨hkind, (hinv.underWay_iff k).mpr hclaim⟩

/-- A transmit timeout of function 1 is requested and the watchdog has set out to
recover the firmware when function 0 reports a PCI error; the callback finds the
request. -/
def refusedRun : List FwAction :=
  let env : Env := ⟨false, true, false, false, false, false, false⟩
  (List.replicate 5 (.step (.tx 1) env)) ++ List.replicate 11 (.step .watchdog env) ++
    [.phase .errorDetected] ++ List.replicate 3 (.step (.aer 0) env)

/-- The run leads there. -/
theorem refusedRun_leads :
    ((fwMachine 2).run initialFw refusedRun).map (fun st => (st.pc .watchdog, st.pc (.aer 0))) =
      some (.recover false, .requestAer 0 (.seen .txTimeout)) := by
  decide

/-- In that state the watchdog is at work, and the callback has found its request in the register.
-/
theorem recoveries_exclude_refused :
    ∃ st, (fwMachine 2).run initialFw refusedRun = some st ∧ Exclusive 2 st ∧
      (st.pc .watchdog).working = some .watchdog ∧ (st.pc (.aer 0)).saw = some .txTimeout := by
  obtain ⟨st, hrun, hpc⟩ := Option.map_eq_some_iff.mp refusedRun_leads
  obtain ⟨hwd, haer⟩ := Prod.mk.inj hpc
  exact ⟨st, hrun, recoveries_exclude ⟨_, hrun⟩, by rw [hwd]; rfl, by rw [haer]; rfl⟩

end Fw
end NxNic

import NxNic.Lib.Machine
import Mathlib.Logic.Function.Basic

/-! # The hardware semaphores

Three of the semaphores of the PCIe block, which the functions of the card share:
a read of the lock register grants a semaphore if it is free, and a read of the
unlock register frees it, whoever holds it.  `api_lock`, `crb_win_lock` and
`rom_lock` give up after a number of reads; what comes then is left to their
callers.

A call is one pass through a section, by any function of the card.  A section
within a section, of the other semaphore, is a call of its own.
-/
namespace NxNic
namespace Sem

/-! ## The sections -/

/-- The flash lock, the lock of the firmware's interface and the lock of the
register window. -/
inductive Semaphore where
  | sem2
  | sem5
  | sem7
deriving DecidableEq

/-- `rom_lock_timeout`, `NX_OS_CRB_RETRY_COUNT` and `CRB_WIN_LOCK_TIMEOUT`. -/
def Semaphore.lockTimeout : Semaphore → Nat
  | .sem2 => 10000
  | .sem5 => 4000
  | .sem7 => 100000000

/-- What a caller does when the lock times out: it returns, goes on as if it had
the semaphore, or tries again a number of times. -/
inductive OnTimeout where
  | giveUp
  | goOn
  | retry (loops : Nat)
deriving DecidableEq

/-- A section of a function. -/
structure Section where
  sem : Semaphore
  onTimeout : OnTimeout
deriving DecidableEq

/-! The callers of `api_lock`. -/

def issueCmd : Section := ⟨.sem5, .giveUp⟩
def issueV34Cmd : Section := ⟨.sem5, .giveUp⟩
def nxDevRequestAer : Section := ⟨.sem5, .giveUp⟩
def nxDevRequestTxTimeout : Section := ⟨.sem5, .giveUp⟩
def nxDevRequestReset : Section := ⟨.sem5, .giveUp⟩
def nxSetDevReady : Section := ⟨.sem5, .goOn⟩
def nxClearAerState : Section := ⟨.sem5, .goOn⟩

/-- Each of its two sections. -/
def unmWatchdogTaskFwReset : Section := ⟨.sem5, .goOn⟩

/-! The callers of `crb_win_lock`, for a register that is not mapped directly. -/

def unmNicHwReadWx2M : Section := ⟨.sem7, .goOn⟩
def unmNicHwWriteWx2M : Section := ⟨.sem7, .goOn⟩
def unmNicHwReadIoctl2M : Section := ⟨.sem7, .goOn⟩
def unmNicHwWriteIoctl2M : Section := ⟨.sem7, .goOn⟩

/-! The callers of `rom_lock`. -/

def romFastRead : Section := ⟨.sem2, .retry 50000⟩

/-- "Just in case it was held when we reset the chip"; the next one likewise. -/
def pinitFromRom : Section := ⟨.sem2, .goOn⟩
def unmNicStartFirmware : Section := ⟨.sem2, .goOn⟩

/-! ## The machine -/

/-- Where a call is: not made, in the loop of the lock with the attempts that
failed and the reads of this one, between lock and unlock, and back. -/
inductive Pc where
  | idle
  | locking (loops timeout : Nat)
  | inside
  | returned
deriving DecidableEq

/-- Who holds each semaphore, and where the calls are. -/
structure SemState where
  holder : Semaphore → Option Nat
  calls : Nat → Pc

namespace SemState
variable (s : Section) (st : SemState)

/-- The call goes on at `pc`. -/
def goto (k : Nat) (pc : Pc) : SemState := { st with calls := Function.update st.calls k pc }

/-- The register of the semaphore is read. -/
def setHolder (h : Option Nat) : SemState :=
  { st with holder := Function.update st.holder s.sem h }

/-- Where a call goes with the semaphore.  `rom_fast_read` takes its last attempt
for a failure in any case. -/
def granted (loops : Nat) : Pc :=
  match s.onTimeout with
  | .retry n => if n ≤ loops then .returned else .inside
  | _ => .inside

/-- Where it goes when the lock has timed out. -/
def timedOut (loops : Nat) : Pc :=
  match s.onTimeout with
  | .giveUp => .returned
  | .goOn => .inside
  | .retry n => if loops < n then .locking (loops + 1) 0 else .returned

/-- A read of the lock register. -/
def lock (k loops timeout : Nat) : SemState :=
  if st.holder s.sem = none then (st.setHolder s (some k)).goto k (granted s loops)
  else if s.sem.lockTimeout ≤ timeout then st.goto k (timedOut s loops)
  else st.goto k (.locking loops (timeout + 1))

/-- The next read of a semaphore's register by the call. -/
def step (k : Nat) : Option SemState :=
  match st.calls k with
  | .idle => some (st.goto k (.locking 0 0))
  | .locking loops timeout => some (st.lock s k loops timeout)
  | .inside => some ((st.setHolder s none).goto k .returned)
  | .returned => none

end SemState

/-- The calls are of the sections `sections`; an action is a step of a call. -/
def semMachine (sections : Nat → Section) : Machine SemState Nat where
  next st k := st.step (sections k) k

def initialSem : SemState := ⟨fun _ => none, fun _ => .idle⟩

/-! ## Who is inside holds the semaphore -/

/-- Every call between lock and unlock holds its semaphore, so that the unlock is
by the holder; and no two are there at once. -/
structure Exclusive (sections : Nat → Section) (st : SemState) : Prop where
  holder : ∀ k, st.calls k = .inside → st.holder (sections k).sem = some k
  unique : ∀ k l, st.calls k = .inside → st.calls l = .inside →
    (sections k).sem = (sections l).sem → k = l

/-- The condition on a step: a call that ignores the outcome of the lock does not
make its last read while the semaphore is taken. -/
def Honoured (sections : Nat → Section) (st : SemState) (k : Nat) : Prop :=
  match st.calls k with
  | .locking _ timeout => (sections k).onTimeout = .goOn →
      (sections k).sem.lockTimeout ≤ timeout → st.holder (sections k).sem = none
  | _ => True

instance (sections : Nat → Section) (st : SemState) : DecidablePred (Honoured sections st) := by
  intro k
  unfold Honoured
  cases st.calls k <;> infer_instance

/-- The invariant of the runs all of whose steps meet the condition. -/
structure Held (sections : Nat → Section) (st : SemState) : Prop where
  inside : ∀ k, st.calls k = .inside → st.holder (sections k).sem = some k
  past : ∀ s k, st.holder s = some k → st.calls k = .inside ∨ st.calls k = .returned

namespace Held
variable {sections : Nat → Section} {st st' : SemState} {k : Nat}

theorem exclusive (h : Held sections st) : Exclusive sections st := by
  refine ⟨h.inside, fun k l hk hl hsem => ?_⟩
  have hheld := h.inside k hk
  rw [hsem, h.inside l hl] at hheld
  exact (Option.some.inj hheld).symm

/-- A call goes on without the semaphore. -/
theorem goto (h : Held sections st) {pc : Pc} (hpc : pc ≠ .inside)
    (hk : st.calls k ≠ .inside ∧ st.calls k ≠ .returned) : Held sections (st.goto k pc) := by
  refine ⟨?_, fun s l hl => ?_⟩
  · exact (Function.forall_update_iff st.calls fun l pc =>
      pc = .inside → st.holder (sections l).sem = some l).mpr
        ⟨fun heq => absurd heq hpc, fun l _ => h.inside l⟩
  · have hlk : l ≠ k := by
      rintro rfl
      exact (h.past s l hl).elim hk.1 hk.2
    show Function.update st.calls k pc l = _ ∨ Function.update st.calls k pc l = _
    rw [Function.update_of_ne hlk]
    exact h.past s l hl

/-- A call gets the semaphore. -/
theorem grant (h : Held sections st) (hfree : st.holder (sections k).sem = none) {pc : Pc}
    (hpc : pc = .inside ∨ pc = .returned) :
    Held sections ((st.setHolder (sections k) (some k)).goto k pc) := by
  refine ⟨fun l hl => ?_, fun s l hl => ?_⟩
  · replace hl : Function.update st.calls k pc l = .inside := hl
    show Function.update st.holder (sections k).sem (some k) (sections l).sem = some l
    by_cases hlk : l = k
    · rw [hlk, Function.update_self]
    · rw [Function.update_of_ne hlk] at hl
      -- a call that is inside holds its semaphore, so it is another one
      have hheld := h.inside l hl
      have hne : (sections l).sem ≠ (sections k).sem := by
        intro heq
        rw [heq, hfree] at hheld
        cases hheld
      rw [Function.update_of_ne hne]
      exact hheld
  · replace hl : Function.update st.holder (sections k).sem (some k) s = some l := hl
    show Function.update st.calls k pc l = _ ∨ Function.update st.calls k pc l = _
    by_cases hlk : l = k
    · rw [hlk, Function.update_self]
      exact hpc
    · rw [Function.update_of_ne hlk]
      by_cases hs : s = (sections k).sem
      · rw [hs, Function.update_self] at hl
        exact absurd (Option.some.inj hl).symm hlk
      · rw [Function.update_of_ne hs] at hl
        exact h.past s l hl

/-- The holder frees the semaphore. -/
theorem release (h : Held sections st) (hk : st.calls k = .inside) :
    Held sections ((st.setHolder (sections k) none).goto k .returned) := by
  refine ⟨fun l hl => ?_, fun s l hl => ?_⟩
  · replace hl : Function.update st.calls k .returned l = .inside := hl
    show Function.update st.holder (sections k).sem none (sections l).sem = some l
    have hlk : l ≠ k := by
      rintro rfl
      rw [Function.update_self] at hl
      cases hl
    rw [Function.update_of_ne hlk] at hl
    have hne : (sections l).sem ≠ (sections k).sem := fun heq =>
      hlk (h.exclusive.unique l k hl hk heq)
    rw [Function.update_of_ne hne]
    exact h.inside l hl
  · replace hl : Function.update st.holder (sections k).sem none s = some l := hl
    show Function.update st.calls k .returned l = _ ∨ Function.update st.calls k .returned l = _
    have hs : s ≠ (sections k).sem := by
      rintro rfl
      rw [Function.update_self] at hl
      cases hl
    rw [Function.update_of_ne hs] at hl
    by_cases hlk : l = k
    · rw [hlk, Function.update_self]
      exact Or.inr rfl
    · rw [Function.update_of_ne hlk]
      exact h.past s l hl

theorem granted_past (s : Section) (loops : Nat) :
    SemState.granted s loops = .inside ∨ SemState.granted s loops = .returned := by
  unfold SemState.granted
  split
  · split
    · exact Or.inr rfl
    · exact Or.inl rfl
  · exact Or.inl rfl

theorem timedOut_ne_inside {s : Section} (h : s.onTimeout ≠ .goOn) (loops : Nat) :
    SemState.timedOut s loops ≠ .inside := by
  unfold SemState.timedOut
  split
  · exact nofun
  · exact fun _ => h ‹_›
  · split <;> exact nofun

/-- **Every step** that meets the condition keeps the invariant. -/
theorem step (h : Held sections st) (hcond : Honoured sections st k)
    (hstep : (semMachine sections).next st k = some st') : Held sections st' := by
  replace hstep : st.step (sections k) k = some st' := hstep
  unfold SemState.step at hstep
  cases hpc : st.calls k with
  | idle =>
    rw [hpc] at hstep
    exact Option.some.inj hstep ▸ h.goto nofun (by rw [hpc]; exact ⟨nofun, nofun⟩)
  | locking loops timeout =>
    rw [hpc] at hstep
    obtain rfl := Option.some.inj hstep
    have hk : st.calls k ≠ .inside ∧ st.calls k ≠ .returned := by
      rw [hpc]
      exact ⟨nofun, nofun⟩
    unfold SemState.lock
    by_cases hfree : st.holder (sections k).sem = none
    · rw [if_pos hfree]
      exact h.grant hfree (granted_past _ _)
    rw [if_neg hfree]
    by_cases htime : (sections k).sem.lockTimeout ≤ timeout
    · rw [if_pos htime]
      unfold Honoured at hcond
      rw [hpc] at hcond
      exact h.goto (timedOut_ne_inside (fun hgo => hfree (hcond hgo htime)) _) hk
    · rw [if_neg htime]
      exact h.goto nofun hk
  | inside =>
    rw [hpc] at hstep
    exact Option.some.inj hstep ▸ h.release hpc
  | returned =>
    rw [hpc] at hstep
    cases hstep

/-- A call that goes on without the semaphore is inside and does not hold it. -/
theorem needs (h : Held sections st) (hstep : (semMachine sections).next st k = some st')
    (h' : Exclusive sections st') : Honoured sections st k := by
  unfold Honoured
  cases hpc : st.calls k with
  | locking loops timeout =>
    intro hgo htime
    by_contra hfree
    have hst' : st' = st.goto k .inside := by
      replace hstep : st.step (sections k) k = some st' := hstep
      rw [SemState.step, hpc] at hstep
      have heq := Option.some.inj hstep
      rw [SemState.lock, if_neg hfree, if_pos htime, SemState.timedOut, hgo] at heq
      exact heq.symm
    subst hst'
    have hheld : st.holder (sections k).sem = some k := h'.holder k (Function.update_self ..)
    rcases h.past _ k hheld with hin | hback
    · exact Pc.noConfusion (hpc.symm.trans hin)
    · exact Pc.noConfusion (hpc.symm.trans hback)
  | _ => trivial

theorem init : Held sections initialSem := ⟨nofun, nofun⟩

end Held

/-! ## Runs -/

/-- **Semaphores are freed by their holders only**, and no two calls are inside at
once, throughout a run just if no lock attempt whose outcome the caller ignores
times out. -/
theorem exclusive_iff (sections : Nat → Section) {l : List Nat} {st : SemState}
    (h : (semMachine sections).run initialSem l = some st) :
    (∀ u, (semMachine sections).Visits initialSem l u → Exclusive sections u) ↔
      ∀ u k, (semMachine sections).Takes initialSem l u k → Honoured sections u k :=
  Machine.visits_iff_takes (K := Held sections) (fun _ hK => hK.exclusive)
    (fun _ _ _ hK hP hn => hK.step hP hn) (fun _ _ _ hK hn hI => hK.needs hn hI) Held.init h

/-- A command, the device set ready, and another command. -/
def commands : Nat → Section
  | 1 => nxSetDevReady
  | _ => issueCmd

/-- The second call waits until the first is done. -/
theorem exclusive_iff_waiting :
    ∃ st, (semMachine commands).run initialSem [0, 0, 1, 1, 1, 0, 1] = some st ∧
      st.calls 0 = .returned ∧ st.calls 1 = .inside ∧
      ∀ u, (semMachine commands).Visits initialSem [0, 0, 1, 1, 1, 0, 1] u →
        Exclusive commands u := by
  have hrun : (((semMachine commands).guard (Honoured commands)).run initialSem
      [0, 0, 1, 1, 1, 0, 1]).map (fun st => (st.calls 0, st.calls 1)) =
        some (.returned, .inside) := by
    decide
  obtain ⟨st, hst, h⟩ := Option.map_eq_some_iff.mp hrun
  obtain ⟨hfirst, hsecond⟩ := Prod.mk.inj h
  have hst' := Machine.run_of_guard hst
  exact ⟨st, hst', hfirst, hsecond,
    (exclusive_iff commands hst').mpr fun _ _ ht => Machine.takes_of_guard hst ht⟩

/-! ## A lock that times out -/

/-- A call reads once more while the semaphore is taken. -/
theorem lock_once {sections : Nat → Section} {st : SemState} {k loops timeout : Nat}
    (htaken : st.holder (sections k).sem ≠ none) (htime : timeout < (sections k).sem.lockTimeout) :
    (semMachine sections).next (st.goto k (.locking loops timeout)) k =
      some (st.goto k (.locking loops (timeout + 1))) := by
  show (st.goto k (.locking loops timeout)).step (sections k) k = _
  have hpc : (st.goto k (.locking loops timeout)).calls k = .locking loops timeout :=
    Function.update_self ..
  have htaken' : (st.goto k (.locking loops timeout)).holder (sections k).sem ≠ none := htaken
  rw [SemState.step, hpc]
  show some (SemState.lock (sections k) _ k loops timeout) = _
  rw [SemState.lock, if_neg htaken', if_neg (by omega)]
  simp only [SemState.goto, Function.update_idem]

/-- A lock attempt that times out. -/
theorem run_timedOut {sections : Nat → Section} {st : SemState} {k loops : Nat}
    (hpc : st.calls k = .locking loops 0) (htaken : st.holder (sections k).sem ≠ none) :
    (semMachine sections).run st (List.replicate ((sections k).sem.lockTimeout + 1) k) =
      some (st.goto k (SemState.timedOut (sections k) loops)) := by
  have hstart : st.goto k (.locking loops 0) = st := by
    rw [SemState.goto, ← hpc, Function.update_eq_self]
  have hreads : (semMachine sections).run (st.goto k (.locking loops 0))
      (List.replicate (sections k).sem.lockTimeout k) =
        some (st.goto k (.locking loops (sections k).sem.lockTimeout)) :=
    Machine.run_replicate _ (f := fun i => st.goto k (.locking loops i)) fun i hi =>
      lock_once htaken hi
  have hlast : (semMachine sections).next
      (st.goto k (.locking loops (sections k).sem.lockTimeout)) k =
        some (st.goto k (SemState.timedOut (sections k) loops)) := by
    show SemState.step (sections k) (st.goto k _) k = _
    rw [SemState.step, show (st.goto k _).calls k = _ from Function.update_self ..]
    show some (SemState.lock (sections k) (st.goto k _) k loops _) = _
    rw [SemState.lock, if_neg (show (st.goto k _).holder _ ≠ none from htaken),
      if_pos (Nat.le_refl _)]
    simp only [SemState.goto, Function.update_idem]
  rw [hstart] at hreads
  rw [List.replicate_succ', Machine.run_append, hreads, Option.bind_some, Machine.run_cons, hlast]
  rfl

/-- The second call times out and goes on, and frees the semaphore of the first,
which the third then gets. -/
theorem freed_by_another :
    ∃ st, (semMachine commands).run initialSem
        ([0, 0, 1] ++ (List.replicate (Semaphore.lockTimeout .sem5 + 1) 1 ++ [1, 2, 2])) =
          some st ∧
      ¬ Exclusive commands st ∧ st.calls 0 = .inside ∧ st.calls 2 = .inside ∧
      st.holder .sem5 = some 2 := by
  obtain ⟨waiting, hwaiting⟩ : ∃ waiting, (semMachine commands).run initialSem [0, 0, 1] =
      some waiting := ⟨_, rfl⟩
  have hpc : waiting.calls 1 = .locking 0 0 ∧ waiting.holder (commands 1).sem ≠ none := by
    obtain rfl := Option.some.inj hwaiting
    decide
  have hrest : ((semMachine commands).run (waiting.goto 1 .inside) [1, 2, 2]).map
      (fun st => (st.calls 0, st.calls 2, st.holder .sem5)) =
        some (.inside, .inside, some 2) := by
    obtain rfl := Option.some.inj hwaiting
    decide
  obtain ⟨st, hst, h⟩ := Option.map_eq_some_iff.mp hrest
  simp only [Prod.mk.injEq] at h
  obtain ⟨hfirst, hthird, hholder⟩ := h
  refine ⟨st, ?_, fun hgood => ?_, hfirst, hthird, hholder⟩
  · rw [Machine.run_append, hwaiting, Option.bind_some, Machine.run_append,
      show Semaphore.lockTimeout .sem5 = (commands 1).sem.lockTimeout from rfl,
      run_timedOut hpc.1 hpc.2, Option.bind_some]
    exact hst
  · have hsame := hgood.unique 0 2 hfirst hthird rfl
    exact absurd hsame (by decide)

end Sem
end NxNic

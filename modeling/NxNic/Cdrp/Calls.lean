import NxNic.Lib.Locked
import NxNic.Lib.Machine
import NxNic.Cdrp.Commands

/-! # Calls that issue a command

Calls of the functions that issue a command, by any of the card's functions, and
the firmware's writes, in any order.  One access to a register is one step.  The
firmware answers a command at most once, and takes as long as it likes: it may
store results in the argument registers before it answers, and may answer long
after the call has given up.

The state (`CdrpState`) has the registers with who wrote each last.  What a step can do is said once
(`callStep_goes`, `dataStep_cases`, `answerStep_cases`), and the exclusion by the semaphore
(`Excluded`) is kept by all of them; the rest of the directory builds on these.
-/
namespace NxNic
namespace Cdrp

/-! ## The machine -/

/-- Who wrote a register last: a call, or the firmware for the command of a call. -/
inductive Writer where
  | reset
  | host (k : Nat)
  | firmware (k : Nat)
deriving DecidableEq

/-- The call that the write was for. -/
def Writer.call : Writer → Option Nat
  | .reset => none
  | .host k => some k
  | .firmware k => some k

structure Reg where
  value : BitVec 32
  writer : Writer
deriving DecidableEq

/-- Where a call is: at the lock with the reads that failed, at the registers it
writes, in the loop of `poll_rsp` with the reads made, at the failure code, at the
unlock with the result of `issue_cmd`, at the registers that it reads afterwards
with what it has read, and back. -/
inductive Pc where
  | idle
  | locking (timeout : Nat)
  | writingSign
  | writingArg (r : ArgReg)
  | writingCdrp
  | polling (i : Nat)
  | failing
  | unlocking (rcode : BitVec 32)
  | reading (rcode : BitVec 32) (out : List (BitVec 32)) (rest : List ArgReg)
  | returned (rcode : BitVec 32) (out : List (BitVec 32))
deriving DecidableEq

/-- The semaphore, the registers and the calls; the calls that have been made, the
commands that the firmware has not answered, the argument registers as it left them
with each answer, and the responses that the calls have taken. -/
structure CdrpState where
  sem : Option Nat
  sign : Reg
  arg : ArgReg → Reg
  cdrp : Reg
  calls : Nat → Pc
  made : List Nat
  inFlight : List Nat
  produced : Nat → Option (ArgReg → BitVec 32)
  took : Nat → Option Reg

/-- A call goes on; the firmware writes an argument register for the command at a
place of `inFlight`, or answers it. -/
inductive CdrpAction where
  | step (k : Nat)
  | data (place : Nat) (r : ArgReg) (v : BitVec 32)
  | answer (place : Nat) (rsp : BitVec 32)
deriving DecidableEq

/-- What comes after `issue_cmd` has returned. -/
def FwCmd.afterwards (c : FwCmd) (rcode : BitVec 32) : Pc :=
  if rcode = nxRcodeSuccess ∨ c.always = true then .reading rcode [] c.reads
  else .returned rcode []

/-- What `issue_cmd` does with a response. -/
def onRsp (rsp : BitVec 32) : Pc :=
  if rsp = nxCdrpRspTimeout then .unlocking nxRcodeTimeout
  else if rsp = nxCdrpRspFail then .failing
  else .unlocking nxRcodeSuccess

/-- The register that is written next. -/
def afterArg : ArgReg → Pc
  | .arg1 => .writingArg .arg2
  | .arg2 => .writingArg .arg3
  | .arg3 => .writingCdrp

namespace CdrpState
variable (c : FwCmd) (st : CdrpState)

/-- The call goes on at `pc`. -/
def goto (k : Nat) (pc : Pc) : CdrpState := { st with calls := Function.update st.calls k pc }

/-- A read of `PCIE_SEM5_LOCK` grants the semaphore if it is free. -/
def apiLock (k timeout : Nat) : CdrpState :=
  if st.sem = none then { st.goto k .writingSign with sem := some k }
  else if nxOsCrbRetryCount ≤ timeout then st.goto k (c.afterwards nxRcodeTimeout)
  else st.goto k (.locking (timeout + 1))

/-- A round of `poll_rsp`. -/
def pollRsp (k i : Nat) : CdrpState :=
  if nxOsCrbRetryCount < i + 1 then st.goto k (.unlocking nxRcodeTimeout)
  else if nxCdrpIsRsp st.cdrp.value then
    { st.goto k (onRsp st.cdrp.value) with took := Function.update st.took k (some st.cdrp) }
  else st.goto k (.polling (i + 1))

/-- The next access of the call. -/
def callStep (k : Nat) : Option CdrpState :=
  match st.calls k with
  | .idle => some { st.goto k (.locking 0) with made := k :: st.made }
  | .locking timeout => some (st.apiLock c k timeout)
  | .writingSign => some
      { st.goto k (.writingArg .arg1) with
        sign := ⟨nxCdrpSignatureMake c.pciFn c.version, .host k⟩ }
  | .writingArg r => some
      { st.goto k (afterArg r) with arg := Function.update st.arg r ⟨c.arg r, .host k⟩ }
  | .writingCdrp => some
      { st.goto k (.polling 0) with
        cdrp := ⟨nxCdrpFormCmd c.cmd, .host k⟩
        inFlight := st.inFlight ++ [k] }
  | .polling i => some (st.pollRsp k i)
  | .failing => some (st.goto k (.unlocking (st.arg .arg1).value))
  | .unlocking rcode => some { st.goto k (c.afterwards rcode) with sem := none }
  | .reading rcode out [] => some (st.goto k (.returned rcode out))
  | .reading rcode out (r :: rest) =>
      some (st.goto k (.reading rcode (out ++ [(st.arg r).value]) rest))
  | .returned _ _ => none

/-- The firmware writes an argument register. -/
def dataStep (place : Nat) (r : ArgReg) (v : BitVec 32) : Option CdrpState :=
  st.inFlight[place]?.map fun k => { st with arg := Function.update st.arg r ⟨v, .firmware k⟩ }

/-- The firmware answers. -/
def answerStep (place : Nat) (rsp : BitVec 32) : Option CdrpState :=
  st.inFlight[place]?.map fun k =>
    { st with
      cdrp := ⟨rsp, .firmware k⟩
      inFlight := st.inFlight.eraseIdx place
      produced := Function.update st.produced k (some fun r => (st.arg r).value) }

end CdrpState

/-- The calls make the commands `cmds`. -/
def cdrpMachine (cmds : Nat → FwCmd) : Machine CdrpState CdrpAction where
  next st
    | .step k => st.callStep (cmds k) k
    | .data place r v => st.dataStep place r v
    | .answer place rsp => st.answerStep place rsp

def initialCdrp : CdrpState where
  sem := none
  sign := ⟨0, .reset⟩
  arg := fun _ => ⟨0, .reset⟩
  cdrp := ⟨0, .reset⟩
  calls := fun _ => .idle
  made := []
  inFlight := []
  produced := fun _ => none
  took := fun _ => none

/-! ## What a step does -/

/-- What the call `k` does next, and when. -/
inductive Goes (c : FwCmd) (k : Nat) (st : CdrpState) : CdrpState → Prop
  | call (hpc : st.calls k = .idle) :
      Goes c k st { st.goto k (.locking 0) with made := k :: st.made }
  | lock {timeout : Nat} (hpc : st.calls k = .locking timeout) (hfree : st.sem = none) :
      Goes c k st { st.goto k .writingSign with sem := some k }
  | lockTimeout {timeout : Nat} (hpc : st.calls k = .locking timeout) :
      Goes c k st (st.goto k (c.afterwards nxRcodeTimeout))
  | lockRetry {timeout : Nat} (hpc : st.calls k = .locking timeout) :
      Goes c k st (st.goto k (.locking (timeout + 1)))
  | sign (hpc : st.calls k = .writingSign) :
      Goes c k st { st.goto k (.writingArg .arg1) with
        sign := ⟨nxCdrpSignatureMake c.pciFn c.version, .host k⟩ }
  | arg {r : ArgReg} (hpc : st.calls k = .writingArg r) :
      Goes c k st { st.goto k (afterArg r) with
        arg := Function.update st.arg r ⟨c.arg r, .host k⟩ }
  | command (hpc : st.calls k = .writingCdrp) :
      Goes c k st { st.goto k (.polling 0) with
        cdrp := ⟨nxCdrpFormCmd c.cmd, .host k⟩
        inFlight := st.inFlight ++ [k] }
  | pollTimeout {i : Nat} (hpc : st.calls k = .polling i) (hi : nxOsCrbRetryCount < i + 1) :
      Goes c k st (st.goto k (.unlocking nxRcodeTimeout))
  | take {i : Nat} (hpc : st.calls k = .polling i) (hi : i < nxOsCrbRetryCount)
      (hrsp : nxCdrpIsRsp st.cdrp.value = true) :
      Goes c k st { st.goto k (onRsp st.cdrp.value) with
        took := Function.update st.took k (some st.cdrp) }
  | poll {i : Nat} (hpc : st.calls k = .polling i)
      (hrsp : nxCdrpIsRsp st.cdrp.value = false) : Goes c k st (st.goto k (.polling (i + 1)))
  | fail (hpc : st.calls k = .failing) :
      Goes c k st (st.goto k (.unlocking (st.arg .arg1).value))
  | unlock {rcode : BitVec 32} (hpc : st.calls k = .unlocking rcode) :
      Goes c k st { st.goto k (c.afterwards rcode) with sem := none }
  | read {rcode : BitVec 32} {out : List (BitVec 32)} {r : ArgReg} {rest : List ArgReg}
      (hpc : st.calls k = .reading rcode out (r :: rest)) :
      Goes c k st (st.goto k (.reading rcode (out ++ [(st.arg r).value]) rest))
  | back {rcode : BitVec 32} {out : List (BitVec 32)}
      (hpc : st.calls k = .reading rcode out []) :
      Goes c k st (st.goto k (.returned rcode out))

namespace CdrpState
variable {c : FwCmd} {st st' : CdrpState} {k : Nat}

theorem callStep_goes (h : st.callStep c k = some st') : Goes c k st st' := by
  unfold callStep at h
  cases hpc : st.calls k with
  | idle =>
    rw [hpc] at h
    exact Option.some.inj h ▸ .call hpc
  | locking timeout =>
    rw [hpc] at h
    obtain rfl := Option.some.inj h
    unfold apiLock
    split
    · exact .lock hpc ‹_›
    · split
      · exact .lockTimeout hpc
      · exact .lockRetry hpc
  | writingSign =>
    rw [hpc] at h
    exact Option.some.inj h ▸ .sign hpc
  | writingArg r =>
    rw [hpc] at h
    exact Option.some.inj h ▸ .arg hpc
  | writingCdrp =>
    rw [hpc] at h
    exact Option.some.inj h ▸ .command hpc
  | polling i =>
    rw [hpc] at h
    obtain rfl := Option.some.inj h
    unfold pollRsp
    split
    · exact .pollTimeout hpc ‹_›
    · split
      · exact .take hpc (by omega) ‹_›
      · exact .poll hpc (Bool.eq_false_iff.mpr ‹_›)
  | failing =>
    rw [hpc] at h
    exact Option.some.inj h ▸ .fail hpc
  | unlocking rcode =>
    rw [hpc] at h
    exact Option.some.inj h ▸ .unlock hpc
  | reading rcode out rest =>
    rw [hpc] at h
    cases rest with
    | nil => exact Option.some.inj h ▸ .back hpc
    | cons r rest => exact Option.some.inj h ▸ .read hpc
  | returned rcode out =>
    rw [hpc] at h
    cases h

theorem dataStep_cases {place : Nat} {r : ArgReg} {v : BitVec 32}
    (h : st.dataStep place r v = some st') :
    ∃ j, st.inFlight[place]? = some j ∧
      st' = { st with arg := Function.update st.arg r ⟨v, .firmware j⟩ } := by
  obtain ⟨j, hj, rfl⟩ := Option.map_eq_some_iff.mp h
  exact ⟨j, hj, rfl⟩

theorem answerStep_cases {place : Nat} {rsp : BitVec 32}
    (h : st.answerStep place rsp = some st') :
    ∃ j, st.inFlight[place]? = some j ∧ st' =
      { st with
        cdrp := ⟨rsp, .firmware j⟩
        inFlight := st.inFlight.eraseIdx place
        produced := Function.update st.produced j (some fun r => (st.arg r).value) } := by
  obtain ⟨j, hj, rfl⟩ := Option.map_eq_some_iff.mp h
  exact ⟨j, hj, rfl⟩

end CdrpState

/-! ## The semaphore -/

namespace Pc

/-- The semaphore is held from the first register to the unlock. -/
def inside : Pc → Bool
  | .writingSign => true
  | .writingArg _ => true
  | .writingCdrp => true
  | .polling _ => true
  | .failing => true
  | .unlocking _ => true
  | _ => false

/-- A read of the command register would be taken. -/
def listening : Pc → Bool
  | .polling i => decide (i < nxOsCrbRetryCount)
  | _ => false

theorem inside_of_listening {pc : Pc} (h : pc.listening = true) : pc.inside = true := by
  cases pc with
  | polling i => rfl
  | _ => cases h

theorem not_inside_afterwards (c : FwCmd) (rcode : BitVec 32) :
    (c.afterwards rcode).inside = false := by
  unfold FwCmd.afterwards
  split <;> rfl

end Pc

def semReliance : Reliance Pc Unit where
  holds pc := pc.inside = true
  knows _ _ := False

/-- Who is inside holds the semaphore. -/
def Excluded (st : CdrpState) : Prop := Consistent semReliance ⟨st.calls, st.sem, ()⟩

namespace Excluded
variable {st st' : CdrpState} {k : Nat}

theorem unique (h : Excluded st) {l : Nat} (hk : (st.calls k).inside = true)
    (hl : (st.calls l).inside = true) : l = k :=
  Consistent.holder_unique (s := ⟨st.calls, st.sem, ()⟩) h hl hk

/-- A call goes on and keeps the semaphore, or leaves it alone. -/
theorem goto (h : Excluded st) {pc : Pc}
    (hpc : pc.inside = true → (st.calls k).inside = true) : Excluded (st.goto k pc) := by
  show Consistent semReliance ⟨Function.update st.calls k pc, st.sem, ()⟩
  apply Consistent.step h k
  · exact fun hin => h.holds k (hpc hin)
  · exact nofun
  · exact Or.inl rfl
  · exact Or.inl rfl

theorem lock (h : Excluded st) (hfree : st.sem = none) {pc : Pc} :
    Excluded { st.goto k pc with sem := some k } := by
  show Consistent semReliance ⟨Function.update st.calls k pc, some k, ()⟩
  apply Consistent.step h k
  · exact fun _ => rfl
  · exact nofun
  · exact Or.inr (Consistent.not_holds h (Or.inl hfree))
  · exact Or.inl rfl

theorem unlock (h : Excluded st) (hpc : (st.calls k).inside = true) {pc : Pc}
    (hout : pc.inside = false) : Excluded { st.goto k pc with sem := none } := by
  show Consistent semReliance ⟨Function.update st.calls k pc, none, ()⟩
  apply Consistent.step h k
  · exact fun hin => Bool.noConfusion (hout.symm.trans hin)
  · exact nofun
  · exact Or.inr (Consistent.not_holds h (Or.inr (h.holds k hpc)))
  · exact Or.inl rfl

theorem goes (h : Excluded st) {c : FwCmd} (hgoes : Goes c k st st') : Excluded st' := by
  cases hgoes with
  | call hpc =>
    have hgo : Excluded (st.goto k (.locking 0)) := h.goto nofun
    exact hgo
  | lock hpc hfree => exact h.lock hfree
  | lockTimeout hpc => exact h.goto (by rw [Pc.not_inside_afterwards]; exact nofun)
  | lockRetry hpc => exact h.goto nofun
  | sign hpc => exact h.goto fun _ => by rw [hpc]; rfl
  | arg hpc => exact h.goto fun _ => by rw [hpc]; rfl
  | command hpc => exact h.goto fun _ => by rw [hpc]; rfl
  | pollTimeout hpc hi => exact h.goto fun _ => by rw [hpc]; rfl
  | take hpc hi hrsp => exact h.goto fun _ => by rw [hpc]; rfl
  | poll hpc hrsp => exact h.goto fun _ => by rw [hpc]; rfl
  | fail hpc => exact h.goto fun _ => by rw [hpc]; rfl
  | unlock hpc => exact h.unlock (by rw [hpc]; rfl) (Pc.not_inside_afterwards _ _)
  | read hpc => exact h.goto nofun
  | back hpc => exact h.goto nofun

/-- **Every step** keeps the semaphore with the one who is inside. -/
theorem step (h : Excluded st) {cmds : Nat → FwCmd} {a : CdrpAction}
    (hstep : (cdrpMachine cmds).next st a = some st') : Excluded st' := by
  cases a with
  | step k => exact h.goes (CdrpState.callStep_goes hstep)
  | data place r v =>
    obtain ⟨j, -, rfl⟩ := CdrpState.dataStep_cases hstep
    exact h
  | answer place rsp =>
    obtain ⟨j, -, rfl⟩ := CdrpState.answerStep_cases hstep
    exact h

theorem init : Excluded initialCdrp := ⟨nofun, nofun⟩

end Excluded
end Cdrp
end NxNic

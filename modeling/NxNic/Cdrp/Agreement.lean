import NxNic.Cdrp.Calls

/-! # Success is the answer to the command

The state is `CdrpState` of `Cdrp/Calls`: the hardware semaphore, the signature, argument and CDRP
registers with who wrote each of them last, where each call is in its function, and the commands
that the firmware has still to answer.  A step is one register access of one call, or the firmware
storing a result or answering one of the commands.

The response carries nothing that tells which command it answers, and `issue_cmd` takes any
response other than the two it tests for as success.  `Agreed` is what a caller relies on: a call
succeeds only by the OK response to its own command, and takes only responses that the firmware
has given to that command.

`Answers` is the condition on a step.  While a call polls, what the firmware answers is its
command, with one of the three responses there are; and the code of a failure is not 0, for a FAIL
with 0 in the first argument comes back as success.  A command whose call has given up may well be
answered, as long as nobody polls meanwhile.

The invariant is `Agreed` itself together with the exclusion by the semaphore (`Excluded`).  Each
step keeps both under the condition (`Agreed.step`), and a step that breaks the condition breaks
`Agreed` at once (`Agreed.needs`); `agreed_iff` is the two over a run.
-/
namespace NxNic
namespace Cdrp

/-- The result of `issue_cmd`, once it is known. -/
def Pc.result : Pc → Option (BitVec 32)
  | .unlocking rcode => some rcode
  | .reading rcode _ _ => some rcode
  | .returned rcode _ => some rcode
  | _ => none

/-- A response that the driver knows: a failure has a code. -/
def KnownRsp (rsp code : BitVec 32) : Prop :=
  rsp = nxCdrpRspOk ∨ rsp = nxCdrpRspTimeout ∨ rsp = nxCdrpRspFail ∧ code ≠ nxRcodeSuccess

instance (rsp code : BitVec 32) : Decidable (KnownRsp rsp code) :=
  inferInstanceAs (Decidable (_ ∨ _ ∨ _ ∧ _))

/-- The calls agree with the firmware. -/
structure Agreed (st : CdrpState) : Prop where
  /-- A command succeeds only by the response to it, which is the OK response. -/
  success : ∀ k, (st.calls k).result = some nxRcodeSuccess →
    st.took k = some ⟨nxCdrpRspOk, .firmware k⟩
  /-- A response is taken only by the call whose command it answers. -/
  own : ∀ k rsp, st.took k = some rsp → rsp.writer = .firmware k
  /-- The same holds of the response that a call would take next. -/
  next : ∀ k, (st.calls k).listening = true → nxCdrpIsRsp st.cdrp.value = true →
    st.cdrp.writer = .firmware k ∧ KnownRsp st.cdrp.value (st.arg .arg1).value
  code : ∀ k, st.calls k = .failing → (st.arg .arg1).value ≠ nxRcodeSuccess

/-- The condition on a step: while the call that holds the semaphore polls, the
firmware answers the command of that call, with a response that the driver knows;
and it does not take back the code of a failure for an earlier command. -/
def Answers (st : CdrpState) : CdrpAction → Prop
  | .answer place rsp => nxCdrpIsRsp rsp = true → ∀ k ∈ st.sem, (st.calls k).listening = true →
      st.inFlight[place]? = some k ∧ KnownRsp rsp (st.arg .arg1).value
  | .data _ r v => r = .arg1 → v = nxRcodeSuccess → ∀ k ∈ st.sem, st.calls k ≠ .failing ∧
      ((st.calls k).listening = true → st.cdrp.value ≠ nxCdrpRspFail)
  | .step _ => True

instance (st : CdrpState) : DecidablePred (Answers st) := fun
  | .answer _ _ => inferInstanceAs (Decidable (_ → ∀ k ∈ st.sem, _ → _ ∧ _))
  | .data _ _ _ => inferInstanceAs (Decidable (_ → _ → ∀ k ∈ st.sem, _ ∧ (_ → _)))
  | .step _ => inferInstanceAs (Decidable True)

namespace Agreed
variable {st st' : CdrpState} {k : Nat}

/-- A call goes on. -/
theorem goto (h : Agreed st) {pc : Pc}
    (hresult : pc.result = some nxRcodeSuccess → st.took k = some ⟨nxCdrpRspOk, .firmware k⟩)
    (hnext : pc.listening = true → nxCdrpIsRsp st.cdrp.value = true →
      st.cdrp.writer = .firmware k ∧ KnownRsp st.cdrp.value (st.arg .arg1).value)
    (hcode : pc = .failing → (st.arg .arg1).value ≠ nxRcodeSuccess) : Agreed (st.goto k pc) := by
  refine ⟨?_, h.own, ?_, ?_⟩
  · exact (Function.forall_update_iff st.calls fun l pc =>
      pc.result = some nxRcodeSuccess → st.took l = some ⟨nxCdrpRspOk, .firmware l⟩).mpr
        ⟨hresult, fun l _ => h.success l⟩
  · exact (Function.forall_update_iff st.calls fun l pc =>
      pc.listening = true → nxCdrpIsRsp st.cdrp.value = true →
        st.cdrp.writer = .firmware l ∧ KnownRsp st.cdrp.value (st.arg .arg1).value).mpr
        ⟨hnext, fun l _ => h.next l⟩
  · exact (Function.forall_update_iff st.calls fun _ pc =>
      pc = .failing → (st.arg .arg1).value ≠ nxRcodeSuccess).mpr ⟨hcode, fun l _ => h.code l⟩

/-- A call goes on to where nothing is relied on. -/
theorem goto' (h : Agreed st) {pc : Pc} (hresult : pc.result ≠ some nxRcodeSuccess)
    (hnext : pc.listening = false) (hcode : pc ≠ .failing) : Agreed (st.goto k pc) :=
  h.goto (fun heq => absurd heq hresult)
    (fun hl => Bool.noConfusion (hnext.symm.trans hl)) (fun heq => absurd heq hcode)

/-- Registers are written while no call polls or reads a failure code. -/
theorem write (h : Agreed st) (hnone : ∀ l, (st.calls l).listening = false ∧ st.calls l ≠ .failing)
    (sign cdrp : Reg) (arg : ArgReg → Reg) :
    Agreed { st with sign := sign, arg := arg, cdrp := cdrp } := by
  refine ⟨h.success, h.own, fun l hl => ?_, fun l hl => absurd hl (hnone l).2⟩
  exact Bool.noConfusion ((hnone l).1.symm.trans hl)

/-- While a call writes the registers no other polls. -/
theorem none_listening (hsem : Excluded st) (hk : (st.calls k).inside = true)
    (hlisten : (st.calls k).listening = false) (hfail : st.calls k ≠ .failing) (l : Nat) :
    (st.calls l).listening = false ∧ st.calls l ≠ .failing := by
  by_cases hlk : l = k
  · rw [hlk]
    exact ⟨hlisten, hfail⟩
  · refine ⟨Bool.eq_false_iff.mpr fun hl => ?_, fun hl => ?_⟩
    · exact hlk (hsem.unique hk (Pc.inside_of_listening hl))
    · exact hlk (hsem.unique hk (by rw [hl]; rfl))

/-- A call takes the response. -/
theorem take (h : Agreed st) (hown : st.cdrp.writer = .firmware k)
    (hknown : KnownRsp st.cdrp.value (st.arg .arg1).value)
    (hbefore : (st.calls k).result = none) :
    Agreed { st.goto k (onRsp st.cdrp.value) with
      took := Function.update st.took k (some st.cdrp) } := by
  -- first the response is noted, and then the call goes on
  have htook : Agreed { st with took := Function.update st.took k (some st.cdrp) } := by
    refine ⟨fun l hl => ?_, ?_, h.next, h.code⟩
    · have hlk : l ≠ k := by
        rintro rfl
        rw [hbefore] at hl
        cases hl
      show Function.update st.took k _ l = _
      rw [Function.update_of_ne hlk]
      exact h.success l hl
    · refine (Function.forall_update_iff st.took fun l taken =>
        ∀ rsp, taken = some rsp → rsp.writer = .firmware l).mpr ⟨?_, fun l _ => h.own l⟩
      rintro rsp heq
      exact Option.some.inj heq ▸ hown
  refine htook.goto (fun hresult => ?_) (fun hl => ?_) (fun hfail => ?_)
  · show Function.update st.took k _ k = _
    rw [Function.update_self]
    rcases hknown with hok | htimeout | ⟨hfail, -⟩
    · rw [← hok, ← hown]
    · rw [htimeout] at hresult
      cases hresult
    · rw [hfail] at hresult
      cases hresult
  · unfold onRsp at hl
    split at hl
    · cases hl
    · split at hl <;> cases hl
  · show (st.arg .arg1).value ≠ _
    rcases hknown with hok | htimeout | ⟨-, hcode⟩
    · rw [hok] at hfail
      cases hfail
    · rw [htimeout] at hfail
      cases hfail
    · exact hcode

theorem afterwards_result {c : FwCmd} {rcode : BitVec 32} :
    (c.afterwards rcode).result = some rcode := by
  unfold FwCmd.afterwards
  split <;> rfl

theorem afterwards_listening {c : FwCmd} {rcode : BitVec 32} :
    (c.afterwards rcode).listening = false ∧ c.afterwards rcode ≠ .failing := by
  unfold FwCmd.afterwards
  split
  · exact ⟨rfl, nofun⟩
  · exact ⟨rfl, nofun⟩

/-- A call goes on with the same result. -/
theorem goto_result (h : Agreed st) {pc : Pc} (hresult : pc.result = (st.calls k).result)
    (hnext : pc.listening = false) (hcode : pc ≠ .failing) : Agreed (st.goto k pc) :=
  h.goto (fun heq => h.success k (hresult ▸ heq))
    (fun hl => Bool.noConfusion (hnext.symm.trans hl)) (fun heq => absurd heq hcode)

theorem goes (h : Agreed st) (hsem : Excluded st) {c : FwCmd} (hgoes : Goes c k st st') :
    Agreed st' := by
  cases hgoes with
  | call hpc =>
    have hgo : Agreed (st.goto k (.locking 0)) := h.goto' nofun rfl nofun
    exact ⟨hgo.success, hgo.own, hgo.next, hgo.code⟩
  | lock hpc hfree =>
    have hgo : Agreed (st.goto k .writingSign) := h.goto' nofun rfl nofun
    exact ⟨hgo.success, hgo.own, hgo.next, hgo.code⟩
  | lockTimeout hpc =>
    refine h.goto' ?_ afterwards_listening.1 afterwards_listening.2
    rw [afterwards_result]
    decide
  | lockRetry hpc => exact h.goto' nofun rfl nofun
  | sign hpc =>
    have hnone := none_listening hsem (by rw [hpc]; rfl) (by rw [hpc]; rfl) (by rw [hpc]; nofun)
    exact (h.write hnone _ _ _).goto' nofun rfl nofun
  | arg hpc =>
    rename_i r
    have hnone := none_listening hsem (by rw [hpc]; rfl) (by rw [hpc]; rfl) (by rw [hpc]; nofun)
    have hwritten := h.write hnone st.sign st.cdrp (Function.update st.arg r ⟨c.arg r, .host k⟩)
    cases r <;> exact hwritten.goto' nofun rfl nofun
  | command hpc =>
    have hnone := none_listening hsem (by rw [hpc]; rfl) (by rw [hpc]; rfl) (by rw [hpc]; nofun)
    have hwritten := h.write hnone st.sign ⟨nxCdrpFormCmd c.cmd, .host k⟩ st.arg
    -- what the call finds first is its own command
    have hgo : Agreed (CdrpState.goto { st with cdrp := ⟨nxCdrpFormCmd c.cmd, .host k⟩ } k
        (.polling 0)) := by
      refine hwritten.goto ?_ ?_ ?_
      · exact nofun
      · intro _ hrsp
        rw [show nxCdrpIsRsp (nxCdrpFormCmd c.cmd) = false from not_isRsp_formCmd _] at hrsp
        cases hrsp
      · exact nofun
    exact ⟨hgo.success, hgo.own, hgo.next, hgo.code⟩
  | pollTimeout hpc hi =>
    refine h.goto' ?_ rfl nofun
    decide
  | take hpc hi hrsp =>
    obtain ⟨hown, hknown⟩ := h.next k (by rw [hpc]; exact decide_eq_true hi) hrsp
    exact h.take hown hknown (by rw [hpc]; rfl)
  | poll hpc hrsp =>
    refine h.goto ?_ ?_ ?_
    · exact nofun
    · exact fun _ hrsp' => Bool.noConfusion (hrsp.symm.trans hrsp')
    · exact nofun
  | fail hpc =>
    have hcode := h.code k hpc
    exact h.goto' (fun heq => hcode (Option.some.inj heq)) rfl nofun
  | unlock hpc =>
    rename_i rcode
    have hgo : Agreed (st.goto k (c.afterwards rcode)) :=
      h.goto_result (by rw [afterwards_result, hpc]; rfl) afterwards_listening.1
        afterwards_listening.2
    exact ⟨hgo.success, hgo.own, hgo.next, hgo.code⟩
  | read hpc => exact h.goto_result (by rw [hpc]; rfl) rfl nofun
  | back hpc => exact h.goto_result (by rw [hpc]; rfl) rfl nofun

/-- The firmware writes an argument register. -/
theorem data (h : Agreed st) (hsem : Excluded st) {r : ArgReg} {v : BitVec 32} {w : Writer}
    (hcond : r = .arg1 → v = nxRcodeSuccess → ∀ k ∈ st.sem, st.calls k ≠ .failing ∧
      ((st.calls k).listening = true → st.cdrp.value ≠ nxCdrpRspFail)) :
    Agreed { st with arg := Function.update st.arg r ⟨v, w⟩ } := by
  by_cases hr : r = .arg1
  · subst hr
    have hself : (Function.update st.arg .arg1 ⟨v, w⟩ .arg1).value = v := by
      rw [Function.update_self]
    refine ⟨h.success, h.own, fun k hl hrsp => ?_, fun k hfail => ?_⟩
    · obtain ⟨hown, hknown⟩ := h.next k hl hrsp
      refine ⟨hown, hknown.imp_right fun hrest => hrest.imp_right ?_⟩
      rintro ⟨hfail, -⟩
      have hheld : st.sem = some k := hsem.holds k (Pc.inside_of_listening hl)
      exact ⟨hfail, fun hv => (hcond rfl (hself.symm.trans hv) k hheld).2 hl hfail⟩
    · have hheld : st.sem = some k := hsem.holds k (congrArg Pc.inside hfail)
      exact fun hv => (hcond rfl (hself.symm.trans hv) k hheld).1 hfail
  · have hother : (Function.update st.arg r ⟨v, w⟩ .arg1) = st.arg .arg1 :=
      Function.update_of_ne (Ne.symm hr) ..
    refine ⟨h.success, h.own, fun k hl hrsp => ?_, fun k hfail => ?_⟩
    · show _ ∧ KnownRsp _ (Function.update st.arg r ⟨v, w⟩ .arg1).value
      rw [hother]
      exact h.next k hl hrsp
    · show (Function.update st.arg r ⟨v, w⟩ .arg1).value ≠ _
      rw [hother]
      exact h.code k hfail

/-- The firmware answers. -/
theorem answer (h : Agreed st) (hsem : Excluded st) {rsp : BitVec 32} {j place : Nat}
    (hj : st.inFlight[place]? = some j)
    (hcond : nxCdrpIsRsp rsp = true → ∀ k ∈ st.sem, (st.calls k).listening = true →
      st.inFlight[place]? = some k ∧ KnownRsp rsp (st.arg .arg1).value) :
    Agreed { st with
      cdrp := ⟨rsp, .firmware j⟩
      inFlight := st.inFlight.eraseIdx place
      produced := Function.update st.produced j (some fun r => (st.arg r).value) } := by
  refine ⟨h.success, h.own, fun k hl hrsp => ?_, h.code⟩
  have hheld : st.sem = some k := hsem.holds k (Pc.inside_of_listening hl)
  obtain ⟨hk, hknown⟩ := hcond hrsp k hheld hl
  exact ⟨congrArg Writer.firmware (Option.some.inj (hj.symm.trans hk)), hknown⟩

/-- **Every step** that meets the condition keeps the agreement. -/
theorem step (h : Agreed st) (hsem : Excluded st) {cmds : Nat → FwCmd} {a : CdrpAction}
    (hcond : Answers st a) (hstep : (cdrpMachine cmds).next st a = some st') : Agreed st' := by
  cases a with
  | step k => exact h.goes hsem (CdrpState.callStep_goes hstep)
  | data place r v =>
    obtain ⟨j, -, rfl⟩ := CdrpState.dataStep_cases hstep
    exact h.data hsem hcond
  | answer place rsp =>
    obtain ⟨j, hj, rfl⟩ := CdrpState.answerStep_cases hstep
    exact h.answer hsem hj hcond

/-- Any other write of the firmware breaks it. -/
theorem needs {cmds : Nat → FwCmd} {a : CdrpAction}
    (hstep : (cdrpMachine cmds).next st a = some st') (h' : Agreed st') : Answers st a := by
  cases a with
  | step k => trivial
  | data place r v =>
    rintro rfl rfl k -
    obtain ⟨j, -, rfl⟩ := CdrpState.dataStep_cases hstep
    have hself : (Function.update st.arg .arg1 ⟨nxRcodeSuccess, .firmware j⟩ .arg1).value =
        nxRcodeSuccess := by
      rw [Function.update_self]
    refine ⟨fun hfail => h'.code k hfail hself, fun hl hfail => ?_⟩
    obtain ⟨-, hok | htimeout | ⟨-, hcode⟩⟩ := h'.next k hl (by
      show nxCdrpIsRsp st.cdrp.value = true
      rw [hfail]
      decide)
    · exact absurd (hfail.symm.trans hok) (by decide)
    · exact absurd (hfail.symm.trans htimeout) (by decide)
    · exact hcode hself
  | answer place rsp =>
    intro hrsp k _ hl
    obtain ⟨j, hj, rfl⟩ := CdrpState.answerStep_cases hstep
    obtain ⟨hown, hknown⟩ := h'.next k hl hrsp
    obtain rfl := Writer.firmware.inj hown
    exact ⟨hj, hknown⟩

theorem init : Agreed initialCdrp := ⟨nofun, nofun, nofun, nofun⟩

end Agreed

/-! ## Runs -/

/-- **The calls agree with the firmware** throughout a run just if, as long as a call polls, the
firmware answers that call's command, and with a response that the driver knows.  The commands,
the number of calls and the order of their accesses are arbitrary, and so are the times at which
the firmware stores its results. -/
theorem agreed_iff (cmds : Nat → FwCmd) {l : List CdrpAction} {st : CdrpState}
    (h : (cdrpMachine cmds).run initialCdrp l = some st) :
    (∀ u, (cdrpMachine cmds).Visits initialCdrp l u → Agreed u) ↔
      ∀ u a, (cdrpMachine cmds).Takes initialCdrp l u a → Answers u a :=
  Machine.visits_iff_takes (K := fun u => Excluded u ∧ Agreed u) (fun _ hK => hK.2)
    (fun _ _ _ hK hP hn => ⟨hK.1.step hn, hK.2.step hK.1 hP hn⟩)
    (fun _ _ _ _ hn hI => Agreed.needs hn hI) ⟨Excluded.init, Agreed.init⟩ h

/-- Calls that read a register of the phy, each by a function of its own. -/
def queryPhys (k : Nat) : FwCmd := nxFwCmdQueryPhy (BitVec.ofNat 32 k) 1

/-- The first call's command is answered while a second call waits for the lock. -/
def promptRun : List CdrpAction :=
  List.replicate 8 (.step 0) ++ [.step 1, .step 1, .data 0 .arg1 9, .answer 0 nxCdrpRspOk] ++
    List.replicate 4 (.step 0)

/-- The run is one in which the condition is met: the first call has the value that the firmware has
stored for it, and the second is still at the lock. -/
theorem agreed_iff_prompt :
    ∃ st, (cdrpMachine queryPhys).run initialCdrp promptRun = some st ∧
      st.calls 0 = .returned nxRcodeSuccess [9] ∧ st.calls 1 = .locking 1 ∧
      ∀ u, (cdrpMachine queryPhys).Visits initialCdrp promptRun u → Agreed u := by
  have hrun : (((cdrpMachine queryPhys).guard Answers).run initialCdrp promptRun).map
      (fun st => (st.calls 0, st.calls 1)) =
        some (.returned nxRcodeSuccess [9], .locking 1) := by
    decide
  obtain ⟨st, hst, h⟩ := Option.map_eq_some_iff.mp hrun
  obtain ⟨hcall, hwaits⟩ := Prod.mk.inj h
  have hst' := Machine.run_of_guard hst
  exact ⟨st, hst', hcall, hwaits,
    (agreed_iff queryPhys hst').mpr fun _ _ ht => Machine.takes_of_guard hst ht⟩

/-! ## A late answer -/

/-- A call polls once more while it finds no response. -/
theorem poll_once {cmds : Nat → FwCmd} {st : CdrpState} {k i : Nat}
    (hcmd : nxCdrpIsRsp st.cdrp.value = false) (hi : i < nxOsCrbRetryCount) :
    (cdrpMachine cmds).next (st.goto k (.polling i)) (.step k) =
      some (st.goto k (.polling (i + 1))) := by
  show (st.goto k (.polling i)).callStep (cmds k) k = _
  have hpc : (st.goto k (.polling i)).calls k = .polling i := Function.update_self ..
  have hcmd' : nxCdrpIsRsp (st.goto k (.polling i)).cdrp.value = false := hcmd
  rw [CdrpState.callStep, hpc]
  show some (CdrpState.pollRsp _ k i) = _
  rw [CdrpState.pollRsp, if_neg (by omega), hcmd', if_neg Bool.false_ne_true]
  simp only [CdrpState.goto, Function.update_idem]

/-- A call that finds no response gives up. -/
theorem run_timeout {cmds : Nat → FwCmd} {st : CdrpState} {k : Nat}
    (hpc : st.calls k = .polling 0) (hcmd : nxCdrpIsRsp st.cdrp.value = false) :
    (cdrpMachine cmds).run st (List.replicate (nxOsCrbRetryCount + 1) (.step k)) =
      some (st.goto k (.unlocking nxRcodeTimeout)) := by
  have hstart : st.goto k (.polling 0) = st := by
    rw [CdrpState.goto, ← hpc, Function.update_eq_self]
  have hpolls : (cdrpMachine cmds).run (st.goto k (.polling 0))
      (List.replicate nxOsCrbRetryCount (.step k)) =
        some (st.goto k (.polling nxOsCrbRetryCount)) :=
    Machine.run_replicate _ (f := fun i => st.goto k (.polling i)) fun i hi => poll_once hcmd hi
  have hlast : (cdrpMachine cmds).next (st.goto k (.polling nxOsCrbRetryCount)) (.step k) =
      some (st.goto k (.unlocking nxRcodeTimeout)) := by
    show (st.goto k (.polling nxOsCrbRetryCount)).callStep (cmds k) k = _
    have hpc' : (st.goto k (.polling nxOsCrbRetryCount)).calls k = .polling nxOsCrbRetryCount :=
      Function.update_self ..
    rw [CdrpState.callStep, hpc']
    show some (CdrpState.pollRsp _ k nxOsCrbRetryCount) = _
    rw [CdrpState.pollRsp, if_pos (Nat.lt_succ_self _)]
    simp only [CdrpState.goto, Function.update_idem]
  rw [hstart] at hpolls
  rw [List.replicate_succ', Machine.run_append, hpolls, Option.bind_some, Machine.run_cons, hlast]
  rfl

/-- The first call has sent its command. -/
def sentRun : List CdrpAction := List.replicate 7 (.step 0)

/-- The second call sends its own, the first command is answered, and the second
call goes on. -/
def crossedRun : List CdrpAction :=
  .step 0 :: List.replicate 7 (.step 1) ++
    [.data 0 .arg1 9, .answer 0 nxCdrpRspOk, .step 1, .step 1, .step 1, .step 1]

/-- The first call gives up after all its reads and lets go of the semaphore.  The second sends
its own command, polls, and takes the answer to the first call's command as its own. -/
theorem late_answer_taken :
    ∃ st, (cdrpMachine queryPhys).run initialCdrp
        (sentRun ++ (List.replicate (nxOsCrbRetryCount + 1) (.step 0) ++ crossedRun)) = some st ∧
      ¬ Agreed st ∧ st.calls 0 = .returned nxRcodeTimeout [] ∧
      st.calls 1 = .returned nxRcodeSuccess [9] ∧
      st.took 1 = some ⟨nxCdrpRspOk, .firmware 0⟩ := by
  obtain ⟨sent, hsent⟩ : ∃ sent, (cdrpMachine queryPhys).run initialCdrp sentRun = some sent :=
    ⟨_, rfl⟩
  have hpc : sent.calls 0 = .polling 0 ∧ nxCdrpIsRsp sent.cdrp.value = false := by
    obtain rfl := Option.some.inj hsent
    decide
  have hcrossed : ((cdrpMachine queryPhys).run (sent.goto 0 (.unlocking nxRcodeTimeout))
      crossedRun).map (fun st => (st.calls 0, st.calls 1, st.took 1)) =
        some (.returned nxRcodeTimeout [], .returned nxRcodeSuccess [9],
          some ⟨nxCdrpRspOk, .firmware 0⟩) := by
    obtain rfl := Option.some.inj hsent
    decide
  obtain ⟨st, hst, h⟩ := Option.map_eq_some_iff.mp hcrossed
  simp only [Prod.mk.injEq] at h
  obtain ⟨hfirst, hsecond, htook⟩ := h
  refine ⟨st, ?_, fun hgood => ?_, hfirst, hsecond, htook⟩
  · rw [Machine.run_append, hsent, Option.bind_some, Machine.run_append,
      run_timeout hpc.1 hpc.2, Option.bind_some, hst]
  · cases hgood.own 1 _ htook

end Cdrp
end NxNic

import NxNic.Req.Calls

/-! # Answers reach the calls they are for

An id is free again as soon as the wait is over, answered or not.  An answer that
is still to come then finds the next call that got the id; as long as no call
gets such an id, each answer reaches the call whose request it answers.

The state is the one of `reqMachine`: the bitmap, the wait list with its entries, where
each call is, and the requests in flight.  `Matched` is what the steps keep: an entry on
the list that has the id of a request in flight is the entry of the call that sent it.
A call that gets the id of a request in flight is the one step that breaks this
(`Matched.needs`).

A request that is refused leaves its entry on the list after the call has returned, on a
stack that serves other calls from then on: whatever these write there is read as an entry
and as the links of the list (`stackMachine`).  The runs without such a request keep
`Settled`, and for them `correlated_iff` has the exact condition.
-/
namespace NxNic
namespace Req

/-- The answers reach the calls they are for. -/
structure Correlated (st : ReqState) : Prop where
  /-- A call is triggered by the answer to its own request, and has its word. -/
  triggered : ∀ k, (st.adapter.waitEvents k).trigger = true →
    ∃ word, (st.adapter.waitEvents k).rspWord = some word ∧ (k, word) ∈ st.answers
  received : ∀ k word, (st.adapter.waitEvents k).rspWord = some word → (k, word) ∈ st.answers
  /-- The answer to a request in flight leaves the other calls alone. -/
  routed : ∀ r ∈ st.inFlight, ∀ rsp : NicResponse, rsp.compid = r.req.compId → ∀ k, k ≠ r.call →
    (st.adapter.nxOsEventWakeupOnResponse rsp).2.waitEvents k = st.adapter.waitEvents k
  /-- It is discarded if the wait is over. -/
  late : ∀ r ∈ st.inFlight, r.call ∉ st.adapter.waitList →
    ∀ rsp : NicResponse, rsp.compid = r.req.compId →
      (st.adapter.nxOsEventWakeupOnResponse rsp).2 = st.adapter

/-- The condition on a step: a call does not get an id that a request in flight
carries. -/
def NotInFlight (st : ReqState) : ReqAction → Prop
  | .call _ _ => ∀ r ∈ st.inFlight, ¬ st.adapter.LowestFree r.req.compId.toNat
  | _ => True

/-- The invariant of the runs all of whose steps meet the condition. -/
structure Matched (st : ReqState) : Prop where
  inv : ReqInv st
  own : ∀ r ∈ st.inFlight, ∀ k ∈ st.adapter.waitList,
    (st.adapter.waitEvents k).compId = r.req.compId → k = r.call
  triggered : ∀ k, (st.adapter.waitEvents k).trigger = true →
    ∃ word, (st.adapter.waitEvents k).rspWord = some word
  received : ∀ k word, (st.adapter.waitEvents k).rspWord = some word → (k, word) ∈ st.answers

namespace Matched
variable {st st' : ReqState}

theorem correlated (h : Matched st) : Correlated st := by
  refine ⟨fun k hk => ?_, h.received, fun r hr rsp hrsp k hk => ?_, fun r hr hover rsp hrsp => ?_⟩
  · obtain ⟨word, hword⟩ := h.triggered k hk
    exact ⟨word, hword, h.received k word hword⟩
  · rcases st.adapter.nxOsEventWakeupOnResponse_cases rsp with heq | ⟨l, hl, hid, -, heq⟩
    · rw [heq]
    · -- the entry with the id is the one of the request
      have hlr : l = r.call := h.own r hr l hl (hid.trans hrsp)
      rw [heq]
      exact Function.update_of_ne (fun hkl => hk (hkl.trans hlr)) ..
  · rcases st.adapter.nxOsEventWakeupOnResponse_cases rsp with heq | ⟨l, hl, hid, -, heq⟩
    · exact heq
    · exact absurd (h.own r hr l hl (hid.trans hrsp) ▸ hl) hover

theorem setup (h : Matched st) {k : Nat} {args : Args} {compId : BitVec 8} {a : Adapter}
    (hk : st.calls k = .idle) (hsetup : st.adapter.nxOsEventWaitSetup k = some (compId, a))
    (hfresh : ∀ r ∈ st.inFlight, ¬ st.adapter.LowestFree r.req.compId.toNat) :
    Matched { st.goto k (.sending (args.request compId)) with adapter := a } := by
  have hinv : ReqInv { st.goto k (.sending (args.request compId)) with adapter := a } :=
    h.inv.setup hk hsetup
  obtain ⟨hlowest, rfl⟩ := Adapter.nxOsEventWaitSetup_cases hsetup
  have hself : Function.update st.adapter.waitEvents k ⟨compId, true, false, none⟩ k =
      ⟨compId, true, false, none⟩ := Function.update_self ..
  have hother : ∀ l, l ≠ k → Function.update st.adapter.waitEvents k
      ⟨compId, true, false, none⟩ l = st.adapter.waitEvents l := fun l hlk =>
    Function.update_of_ne hlk ..
  refine ⟨hinv, fun r hr l hl hid => ?_, fun l hl => ?_, fun l word hl => ?_⟩
  · replace hid : (Function.update st.adapter.waitEvents k ⟨compId, true, false, none⟩ l).compId =
      r.req.compId := hid
    by_cases hlk : l = k
    · -- the request in flight does not carry the new id
      subst hlk
      rw [hself] at hid
      exact absurd (hid ▸ hlowest) (hfresh r hr)
    · rw [hother l hlk] at hid
      exact h.own r hr l (List.mem_of_ne_of_mem hlk hl) hid
  · replace hl : (Function.update st.adapter.waitEvents k ⟨compId, true, false, none⟩ l).trigger =
      true := hl
    show ∃ word, (Function.update st.adapter.waitEvents k ⟨compId, true, false, none⟩ l).rspWord =
      some word
    by_cases hlk : l = k
    · rw [hlk, hself] at hl
      cases hl
    · rw [hother l hlk] at hl ⊢
      exact h.triggered l hl
  · replace hl : (Function.update st.adapter.waitEvents k ⟨compId, true, false, none⟩ l).rspWord =
      some word := hl
    by_cases hlk : l = k
    · rw [hlk, hself] at hl
      cases hl
    · rw [hother l hlk] at hl
      exact h.received l word hl

theorem accept (h : Matched st) {k : Nat} {req : NicRequest} (hk : st.calls k = .sending req) :
    Matched (st.accept k req) := by
  refine ⟨h.inv.accept hk, fun r hr l hl hid => ?_, h.triggered, h.received⟩
  rcases List.mem_append.mp hr with hr | hr
  · exact h.own r hr l hl hid
  · obtain rfl := List.mem_singleton.mp hr
    -- the call's own entry has the id, so no other has it
    have hmem : k ∈ st.adapter.waitList := h.inv.listed k (by rw [hk]; rfl)
    exact h.inv.ids.unique hl hmem (hid.trans (h.inv.sending k req hk).symm)

theorem answer (h : Matched st) {r : InFlight} (hr : r ∈ st.inFlight) (place : Nat)
    (opcode : BitVec 8) (word : BitVec 64) :
    Matched { st with
      adapter := (st.adapter.nxOsEventWakeupOnResponse ⟨opcode, r.req.compId, word⟩).2
      inFlight := st.inFlight.eraseIdx place
      answers := st.answers ++ [(r.call, word)] } := by
  have hinv := h.inv.answer ⟨opcode, r.req.compId, word⟩ place (st.answers ++ [(r.call, word)])
  have hold : ∀ k w, (st.adapter.waitEvents k).rspWord = some w →
      (k, w) ∈ st.answers ++ [(r.call, word)] := fun k w hw =>
    List.mem_append_left _ (h.received k w hw)
  rcases st.adapter.nxOsEventWakeupOnResponse_cases ⟨opcode, r.req.compId, word⟩ with
    heq | ⟨k, hk, hid, -, heq⟩
  · rw [heq] at hinv ⊢
    exact ⟨hinv, fun q hq => h.own q (List.mem_of_mem_eraseIdx hq), h.triggered, hold⟩
  · -- the entry found is the one of the request
    obtain rfl : k = r.call := h.own r hr k hk hid
    rw [heq] at hinv ⊢
    have hcompId := st.adapter.setEvent_wakeup_compId r.call
    have hevent : ∀ l, (st.adapter.setEvent r.call
        ((st.adapter.waitEvents r.call).wakeup word)).waitEvents l =
          if l = r.call then (st.adapter.waitEvents r.call).wakeup word
          else st.adapter.waitEvents l := fun l => Function.update_apply ..
    refine ⟨hinv, fun q hq l hl hlq => ?_, fun l hl => ?_, fun l w hl => ?_⟩
    · exact h.own q (List.mem_of_mem_eraseIdx hq) l hl ((hcompId l word).symm.trans hlq)
    · simp only [hevent] at hl ⊢
      by_cases hlr : l = r.call
      · rw [if_pos hlr]
        exact ⟨word, rfl⟩
      · rw [if_neg hlr] at hl ⊢
        exact h.triggered l hl
    · simp only [hevent] at hl
      by_cases hlr : l = r.call
      · rw [if_pos hlr] at hl
        obtain rfl := Option.some.inj hl
        rw [hlr]
        exact List.mem_append_right _ (List.mem_singleton.mpr rfl)
      · rw [if_neg hlr] at hl
        exact hold l w hl

/-- **Every step** that meets the condition keeps the invariant. -/
theorem step (h : Matched st) {a : ReqAction} (hfresh : NotInFlight st a)
    (hstep : reqMachine.next st a = some st') : Matched st' := by
  have hinv := h.inv.step hstep
  cases a with
  | call k args =>
    obtain ⟨hk, ⟨-, rfl⟩ | ⟨compId, a, hsetup, rfl⟩⟩ := ReqState.callStep_cases hstep
    · exact ⟨hinv, h.own, h.triggered, h.received⟩
    · exact h.setup hk hsetup hfresh
  | send k refused =>
    obtain ⟨req, hk, rfl | rfl⟩ := ReqState.sendStep_cases hstep
    · exact ⟨hinv, h.own, h.triggered, h.received⟩
    · exact ⟨hinv, (h.accept hk).own, h.triggered, h.received⟩
  | wait k =>
    obtain ⟨left, pc, hk, -, -, rfl⟩ | ⟨rv, hk, rfl⟩ := ReqState.waitStep_cases hstep
    · exact ⟨hinv, h.own, h.triggered, h.received⟩
    · exact ⟨hinv, fun r hr l hl => h.own r hr l (List.mem_of_mem_erase hl), h.triggered,
        h.received⟩
  | answer place opcode word =>
    obtain ⟨r, hr, rfl⟩ := ReqState.answerStep_cases hstep
    exact h.answer hr place opcode word

theorem init : Matched initialReq := by
  refine ⟨⟨⟨List.nodup_nil, ?_, ?_⟩, ?_, ?_, ?_, ?_⟩, ?_, ?_, ?_⟩
  · exact fun _ hk => absurd hk List.not_mem_nil
  · exact fun _ hk => absurd hk List.not_mem_nil
  · exact fun _ hk => absurd hk List.not_mem_nil
  · exact fun _ hk => by cases hk
  · exact fun _ _ hk => by cases hk
  · exact fun _ hr => absurd hr List.not_mem_nil
  · exact fun _ hr => absurd hr List.not_mem_nil
  · exact fun _ hk => by cases hk
  · exact fun _ _ hk => by cases hk

/-- A call that gets the id of a request in flight is triggered by its answer. -/
theorem needs (h : Matched st) {a : ReqAction} (hstep : reqMachine.next st a = some st')
    (hcorr : Correlated st') : NotInFlight st a := by
  cases a with
  | call k args =>
    intro r hr hlowest
    have hfound : st.adapter.findCompId = some r.req.compId.toNat :=
      Adapter.findCompId_eq_some.mpr ⟨r.req.compId.isLt, hlowest⟩
    have hnat : BitVec.ofNat 8 r.req.compId.toNat = r.req.compId := BitVec.ofNat_toNat ..
    obtain ⟨hk, ⟨hnone, -⟩ | ⟨compId, a, hsetup, rfl⟩⟩ := ReqState.callStep_cases hstep
    · rw [Adapter.nxOsEventWaitSetup, hfound] at hnone
      cases hnone
    · rw [Adapter.nxOsEventWaitSetup, hfound] at hsetup
      obtain ⟨rfl, rfl⟩ := Prod.mk.inj (Option.some.inj hsetup)
      have hrk : k ≠ r.call := fun hrk => (h.inv.flight r hr).1 (hrk ▸ hk)
      -- the new entry is the first on the list, and has the id that the answer carries
      have hsame := hcorr.routed r hr ⟨0, r.req.compId, 0⟩ rfl k hrk
      have hopcode : ¬ ((0 : BitVec 8) = lroDeleteResponse ∨
          (0 : BitVec 8) = lroAddFailureResponse) ∧ (0 : BitVec 8) ≠ getLinkeventResponse := by
        decide
      rw [Adapter.wakeup_first rfl hopcode (by simp only [Function.update_self, hnat])
        (by simp only [Function.update_self])] at hsame
      simp only [Adapter.setEvent, Function.update_self] at hsame
      cases congrArg WaitEvent.trigger hsame
  | _ => trivial

end Matched

/-! ## The stacks of the calls -/

/-- A step of a call or of the firmware, or a use of the stack of a call that has returned while its
entry is on the list: what the entry then reads as, and what becomes of the list. -/
inductive StackAction where
  | request (a : ReqAction)
  | reuse (k : Nat) (wait : WaitEvent) (waitList : List Nat)
deriving DecidableEq

def ReqState.reuseStep (st : ReqState) (k : Nat) (wait : WaitEvent) (waitList : List Nat) :
    Option ReqState :=
  if k ∈ st.adapter.waitList ∧ (st.calls k).registered = false then
    some { st with adapter := { st.adapter.setEvent k wait with waitList := waitList } }
  else none

def stackMachine : Machine ReqState StackAction where
  next st
    | .request a => reqMachine.next st a
    | .reuse k wait waitList => st.reuseStep k wait waitList

/-- The card takes the request, if the step sends one. -/
def StackAction.Accepted : StackAction → Prop
  | .request (.send _ refused) => refused = false
  | _ => True

instance decidableAccepted : DecidablePred StackAction.Accepted := fun
  | .request (.send _ refused) => inferInstanceAs (Decidable (refused = false))
  | .request (.call _ _) => inferInstanceAs (Decidable True)
  | .request (.wait _) => inferInstanceAs (Decidable True)
  | .request (.answer _ _ _) => inferInstanceAs (Decidable True)
  | .reuse _ _ _ => inferInstanceAs (Decidable True)

/-- The runs in which no request is refused. -/
def acceptedMachine : Machine ReqState StackAction := stackMachine.guard fun _ a => a.Accepted

/-- `NotInFlight`, of a step that is a call. -/
def ReusesNoId (st : ReqState) : StackAction → Prop
  | .request a => NotInFlight st a
  | .reuse _ _ _ => True

/-- The entries on the list are those of calls that have not returned. -/
def Settled (st : ReqState) : Prop := ∀ k ∈ st.adapter.waitList, (st.calls k).registered = true

namespace Settled
variable {st st' : ReqState} {k : Nat} {pc : CallPc}

theorem goto (h : Settled st) (hk : k ∈ st.adapter.waitList → pc.registered = true) :
    Settled (st.goto k pc) := by
  intro l hl
  rw [ReqState.calls_goto]
  split
  · rename_i hlk
    exact hk (hlk ▸ hl)
  · exact h l hl

/-- **Every step** keeps it, if no request is refused. -/
theorem step (h : Settled st) (hinv : ReqInv st) {a : ReqAction}
    (haccepted : (StackAction.request a).Accepted) (hstep : reqMachine.next st a = some st') :
    Settled st' := by
  cases a with
  | call k args =>
    obtain ⟨hk, ⟨-, rfl⟩ | ⟨compId, a, hsetup, rfl⟩⟩ := ReqState.callStep_cases hstep
    · exact h.goto fun hl => absurd hk (hinv.called k hl)
    · obtain ⟨-, rfl⟩ := Adapter.nxOsEventWaitSetup_cases hsetup
      intro l hl
      show (Function.update st.calls k _ l).registered = true
      by_cases hlk : l = k
      · rw [hlk, Function.update_self]
        rfl
      · rw [Function.update_of_ne hlk]
        exact h l (List.mem_of_ne_of_mem hlk hl)
  | send k refused =>
    obtain rfl : refused = false := haccepted
    obtain ⟨req, hk, hnext⟩ := ReqState.sendStep_accepted hstep
    rw [hnext]
    exact (show Settled (st.accept k req) from h).goto fun _ => rfl
  | wait k =>
    obtain ⟨left, pc, -, hpc, -, rfl⟩ | ⟨rv, hk, rfl⟩ := ReqState.waitStep_cases hstep
    · exact h.goto fun _ => hpc
    · intro l hl
      obtain ⟨hlk, hl⟩ := hinv.ids.nodup.mem_erase_iff.mp hl
      show (Function.update st.calls k _ l).registered = true
      rw [Function.update_of_ne hlk]
      exact h l hl
  | answer place opcode word =>
    obtain ⟨r, -, rfl⟩ := ReqState.answerStep_cases hstep
    intro l hl
    exact h l ((ReqInv.wakeup_ids st.adapter _).1 ▸ hl)

/-- No stack is used while an entry on it is on the list. -/
theorem not_reused (h : Settled st) (wait : WaitEvent) (waitList : List Nat) :
    st.reuseStep k wait waitList = none :=
  if_neg fun hk => Bool.false_ne_true (hk.2.symm.trans (h k hk.1))

end Settled

/-! ## The condition -/

/-- **The answers reach the calls they are for** throughout a run in which no request is
refused just if no call in it gets the id of a request that was accepted earlier and is
still to be answered. -/
theorem correlated_iff {l : List StackAction} {st : ReqState}
    (h : acceptedMachine.run initialReq l = some st) :
    (∀ u, acceptedMachine.Visits initialReq l u → Correlated u) ↔
      ∀ u a, acceptedMachine.Takes initialReq l u a → ReusesNoId u a := by
  refine Machine.visits_iff_takes (K := fun u => Matched u ∧ Settled u)
    (fun _ hu => hu.1.correlated) ?_ ?_ ⟨Matched.init, fun _ hk => absurd hk List.not_mem_nil⟩ h
  · intro u a v hu hfresh hnext
    obtain ⟨haccepted, hnext⟩ := Machine.guard_next_eq_some.mp hnext
    cases a with
    | request a => exact ⟨hu.1.step hfresh hnext, hu.2.step hu.1.inv haccepted hnext⟩
    | reuse k wait waitList => exact absurd ((hu.2.not_reused ..).symm.trans hnext) nofun
  · intro u a v hu hnext hcorr
    obtain ⟨-, hnext⟩ := Machine.guard_next_eq_some.mp hnext
    cases a with
    | request a => exact hu.1.needs hnext hcorr
    | reuse k wait waitList => trivial

/-- A request to switch promiscuous mode. -/
def promiscuous : Args := ⟨5, 0, []⟩

/-- Two calls wait; the second is answered first, and the first is out of time before its answer,
which is discarded. -/
def lateRun : List StackAction :=
  List.map StackAction.request ([.call 0 promiscuous, .send 0 false, .call 1 promiscuous,
    .send 1 false, .wait 0, .answer 1 132 9, .wait 1, .wait 1] ++ List.replicate 41 (.wait 0) ++
    [.answer 0 132 7])

instance decidableReusesNoId (st : ReqState) : DecidablePred (ReusesNoId st) := fun
  | .request (.call _ _) => inferInstanceAs (Decidable (∀ r ∈ st.inFlight, ¬_))
  | .request (.send _ _) => inferInstanceAs (Decidable True)
  | .request (.wait _) => inferInstanceAs (Decidable True)
  | .request (.answer _ _ _) => inferInstanceAs (Decidable True)
  | .reuse _ _ _ => inferInstanceAs (Decidable True)

theorem correlated_iff_late :
    ∃ st, acceptedMachine.run initialReq lateRun = some st ∧
      (st.adapter.waitEvents 1).rspWord = some 9 ∧ (st.adapter.waitEvents 0).rspWord = none ∧
      st.answers = [(1, 9), (0, 7)] ∧
      ∀ u, acceptedMachine.Visits initialReq lateRun u → Correlated u := by
  have hrun : ((acceptedMachine.guard ReusesNoId).run initialReq lateRun).map
      (fun st => ((st.adapter.waitEvents 1).rspWord, (st.adapter.waitEvents 0).rspWord,
        st.answers)) = some (some 9, none, [(1, 9), (0, 7)]) := by
    decide +kernel
  obtain ⟨st, hst, h⟩ := Option.map_eq_some_iff.mp hrun
  simp only [Prod.mk.injEq] at h
  have hst' := Machine.run_of_guard hst
  exact ⟨st, hst', h.1, h.2.1, h.2.2,
    (correlated_iff hst').mpr fun _ _ ht => Machine.takes_of_guard hst ht⟩

/-- A call times out, the next one gets its id, and then the first answer comes. -/
def recycledRun : List StackAction :=
  List.map StackAction.request (.call 0 promiscuous :: .send 0 false ::
    List.replicate 42 (.wait 0) ++ [.call 1 promiscuous, .send 1 false, .answer 0 132 7])

/-- The answer to the first call's request triggers the second call. -/
theorem answer_crossed :
    ∃ st, acceptedMachine.run initialReq recycledRun = some st ∧ ¬ Correlated st ∧
      (st.adapter.waitEvents 1).trigger = true ∧
      (st.adapter.waitEvents 1).rspWord = some 7 ∧ st.answers = [(0, 7)] := by
  have hrun : (acceptedMachine.run initialReq recycledRun).map
      (fun st => ((st.adapter.waitEvents 1).trigger, (st.adapter.waitEvents 1).rspWord,
        st.answers)) = some (true, some 7, [(0, 7)]) := by
    decide +kernel
  obtain ⟨st, hst, h⟩ := Option.map_eq_some_iff.mp hrun
  simp only [Prod.mk.injEq] at h
  obtain ⟨htrigger, hword, hanswers⟩ := h
  refine ⟨st, hst, fun hcorr => ?_, htrigger, hword, hanswers⟩
  have hmem := hcorr.received 1 7 hword
  rw [hanswers] at hmem
  simp at hmem

end Req
end NxNic

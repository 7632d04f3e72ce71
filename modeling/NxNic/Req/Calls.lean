import NxNic.Lib.Machine
import NxNic.Req.CompIds

/-! # Calls that wait for an answer

Calls of `nx_os_send_nic_request`, the firmware's answers and the time limit, in
any order.

An entry whose request could not be sent stays on the list when the call returns.
Here it stays as it is; `stackMachine` has what its stack is used for from then on.

`ReqInv` holds in every run: the calls between the setup and the end of their wait are on
the list, and a request in flight carries the id of its call's entry.
-/
namespace NxNic
namespace Req

/-! ## The machine -/

/-- Where a call is: not made, between `nx_os_event_wait_setup` and the sending of
the request, in the loop of `nx_os_event_wait` with the time that is left, past
the loop with its result, and back. -/
inductive CallPc where
  | idle
  | sending (req : NicRequest)
  | waiting (utimelimit : Int)
  | leaving (rv : RCode)
  | returned (rv : RCode)
deriving DecidableEq

/-- The calls whose entries are on the list. -/
def CallPc.registered : CallPc → Bool
  | .sending _ => true
  | .waiting _ => true
  | .leaving _ => true
  | _ => false

/-- A request that was accepted and has not been answered. -/
structure InFlight where
  call : Nat
  req : NicRequest
deriving DecidableEq

/-- The adapter, the calls, what is in flight, and the answers that the firmware
has given, by the call whose request they answer. -/
structure ReqState where
  adapter : Adapter
  calls : Nat → CallPc
  inFlight : List InFlight
  answers : List (Nat × BitVec 64)

/-- A call is made; its request is sent, or refused by `nx_os_send_cmd_descs`; a
round of its wait; the firmware answers the request at a place of `inFlight`. -/
inductive ReqAction where
  | call (k : Nat) (args : Args)
  | send (k : Nat) (refused : Bool)
  | wait (k : Nat)
  | answer (place : Nat) (opcode : BitVec 8) (word : BitVec 64)
deriving DecidableEq

namespace ReqState
variable (st : ReqState)

/-- The call goes on at `pc`. -/
def goto (k : Nat) (pc : CallPc) : ReqState := { st with calls := Function.update st.calls k pc }

theorem calls_goto (k : Nat) (pc : CallPc) (l : Nat) :
    (st.goto k pc).calls l = if l = k then pc else st.calls l := Function.update_apply ..

/-- The card takes the request of the call. -/
def accept (k : Nat) (req : NicRequest) : ReqState :=
  { st with inFlight := st.inFlight ++ [⟨k, req⟩] }

def callStep (k : Nat) (args : Args) : Option ReqState :=
  match st.calls k with
  | .idle =>
      match st.adapter.nxOsEventWaitSetup k with
      | none => some (st.goto k (.returned .cmdFailed))
      | some (compId, a) => some { st.goto k (.sending (args.request compId)) with adapter := a }
  | _ => none

/-- A call whose request is refused returns at once. -/
def sendStep (k : Nat) (refused : Bool) : Option ReqState :=
  match st.calls k with
  | .sending req =>
      if refused then some (st.goto k (.returned .cmdFailed))
      else some ((st.accept k req).goto k (.waiting utimelimit))
  | _ => none

/-- A round of the loop of `nx_os_event_wait`, and what comes after the loop.  The
caller ignores the outcome of the wait. -/
def waitStep (k : Nat) : Option ReqState :=
  match st.calls k with
  | .waiting left =>
      if (st.adapter.waitEvents k).trigger then some (st.goto k (.leaving .success))
      else if left ≤ 0 then some (st.goto k (.leaving .timeout))
      else some (st.goto k (.waiting (left - 100000)))
  | .leaving _ => some { st.goto k (.returned .success) with adapter := st.adapter.finishWait k }
  | _ => none

/-- The answer carries the id of the request. -/
def answerStep (place : Nat) (opcode : BitVec 8) (word : BitVec 64) : Option ReqState :=
  st.inFlight[place]?.map fun r =>
    { st with
      adapter := (st.adapter.nxOsEventWakeupOnResponse ⟨opcode, r.req.compId, word⟩).2
      inFlight := st.inFlight.eraseIdx place
      answers := st.answers ++ [(r.call, word)] }

end ReqState

def reqMachine : Machine ReqState ReqAction where
  next st
    | .call k args => st.callStep k args
    | .send k refused => st.sendStep k refused
    | .wait k => st.waitStep k
    | .answer place opcode word => st.answerStep place opcode word

def initialReq : ReqState where
  adapter := ⟨fun _ => 0, fun _ => ⟨0, false, false, none⟩, []⟩
  calls := fun _ => .idle
  inFlight := []
  answers := []

/-! ## What a step does -/

namespace ReqState
variable {st st' : ReqState} {k : Nat}

theorem callStep_cases {args : Args} (h : st.callStep k args = some st') :
    st.calls k = .idle ∧
      (st.adapter.nxOsEventWaitSetup k = none ∧ st' = st.goto k (.returned .cmdFailed) ∨
        ∃ compId a, st.adapter.nxOsEventWaitSetup k = some (compId, a) ∧
          st' = { st.goto k (.sending (args.request compId)) with adapter := a }) := by
  unfold callStep at h
  cases hpc : st.calls k with
  | idle =>
    refine ⟨rfl, ?_⟩
    rw [hpc] at h
    simp only at h
    cases hsetup : st.adapter.nxOsEventWaitSetup k with
    | none =>
      rw [hsetup] at h
      exact Or.inl ⟨rfl, (Option.some.inj h).symm⟩
    | some found =>
      rw [hsetup] at h
      exact Or.inr ⟨found.1, found.2, rfl, (Option.some.inj h).symm⟩
  | _ =>
    rw [hpc] at h
    cases h

theorem sendStep_cases {refused : Bool} (h : st.sendStep k refused = some st') :
    ∃ req, st.calls k = .sending req ∧
      (st' = st.goto k (.returned .cmdFailed) ∨
        st' = (st.accept k req).goto k (.waiting utimelimit)) := by
  unfold sendStep at h
  cases hpc : st.calls k with
  | sending req =>
    refine ⟨req, rfl, ?_⟩
    rw [hpc] at h
    cases refused with
    | true => exact Or.inl (Option.some.inj h).symm
    | false => exact Or.inr (Option.some.inj h).symm
  | _ =>
    rw [hpc] at h
    cases h

theorem sendStep_accepted (h : st.sendStep k false = some st') :
    ∃ req, st.calls k = .sending req ∧ st' = (st.accept k req).goto k (.waiting utimelimit) := by
  unfold sendStep at h
  cases hpc : st.calls k with
  | sending req =>
    rw [hpc] at h
    exact ⟨req, rfl, (Option.some.inj h).symm⟩
  | _ =>
    rw [hpc] at h
    cases h

theorem waitStep_cases (h : st.waitStep k = some st') :
    (∃ left pc, st.calls k = .waiting left ∧ pc.registered = true ∧ (∀ req, pc ≠ .sending req) ∧
        st' = st.goto k pc) ∨
      ∃ rv, st.calls k = .leaving rv ∧
        st' = { st.goto k (.returned .success) with adapter := st.adapter.finishWait k } := by
  unfold waitStep at h
  cases hpc : st.calls k with
  | waiting left =>
    left
    rw [hpc] at h
    simp only at h
    by_cases htrigger : (st.adapter.waitEvents k).trigger = true
    · rw [if_pos htrigger] at h
      exact ⟨left, .leaving .success, rfl, rfl, nofun, (Option.some.inj h).symm⟩
    · rw [if_neg htrigger] at h
      by_cases hleft : left ≤ 0
      · rw [if_pos hleft] at h
        exact ⟨left, .leaving .timeout, rfl, rfl, nofun, (Option.some.inj h).symm⟩
      · rw [if_neg hleft] at h
        exact ⟨left, .waiting (left - 100000), rfl, rfl, nofun, (Option.some.inj h).symm⟩
  | leaving rv =>
    right
    rw [hpc] at h
    exact ⟨rv, rfl, (Option.some.inj h).symm⟩
  | _ =>
    rw [hpc] at h
    cases h

theorem answerStep_cases {place : Nat} {opcode : BitVec 8} {word : BitVec 64}
    (h : st.answerStep place opcode word = some st') :
    ∃ r ∈ st.inFlight, st' =
      { st with
        adapter := (st.adapter.nxOsEventWakeupOnResponse ⟨opcode, r.req.compId, word⟩).2
        inFlight := st.inFlight.eraseIdx place
        answers := st.answers ++ [(r.call, word)] } := by
  obtain ⟨r, hr, rfl⟩ := Option.map_eq_some_iff.mp h
  exact ⟨r, List.mem_of_getElem? hr, rfl⟩

end ReqState

/-! ## What holds in every run -/

/-- The list holds the entries of the calls that wait, and the requests carry
their ids. -/
structure ReqInv (st : ReqState) : Prop where
  ids : st.adapter.Ids
  called : ∀ k ∈ st.adapter.waitList, st.calls k ≠ .idle
  listed : ∀ k, (st.calls k).registered = true → k ∈ st.adapter.waitList
  sending : ∀ k req, st.calls k = .sending req → (st.adapter.waitEvents k).compId = req.compId
  flight : ∀ r ∈ st.inFlight, st.calls r.call ≠ .idle ∧
    (st.adapter.waitEvents r.call).compId = r.req.compId

namespace ReqInv
variable {st : ReqState} {k : Nat} {pc : CallPc}

/-- A call goes on. -/
theorem goto (h : ReqInv st) (hidle : pc ≠ .idle)
    (hlisted : pc.registered = true → k ∈ st.adapter.waitList)
    (hsending : ∀ req, pc ≠ .sending req) : ReqInv (st.goto k pc) := by
  have hcalls := st.calls_goto k pc
  refine ⟨h.ids, fun l hl => ?_, fun l hl => ?_, fun l req hl => ?_, fun r hr => ⟨?_, ?_⟩⟩
  · rw [hcalls]
    split
    · exact hidle
    · exact h.called l hl
  · rw [hcalls] at hl
    split at hl
    · rename_i hlk
      exact hlk ▸ hlisted hl
    · exact h.listed l hl
  · rw [hcalls] at hl
    split at hl
    · exact absurd hl (hsending req)
    · exact h.sending l req hl
  · rw [hcalls]
    split
    · exact hidle
    · exact (h.flight r hr).1
  · exact (h.flight r hr).2

theorem setup (h : ReqInv st) {args : Args} {compId : BitVec 8} {a : Adapter}
    (hk : st.calls k = .idle) (hsetup : st.adapter.nxOsEventWaitSetup k = some (compId, a)) :
    ReqInv { st.goto k (.sending (args.request compId)) with adapter := a } := by
  have hfresh : k ∉ st.adapter.waitList := fun hmem => h.called k hmem hk
  have hids := h.ids.setup hfresh hsetup
  obtain ⟨-, rfl⟩ := Adapter.nxOsEventWaitSetup_cases hsetup
  -- the entries of the other calls are as they were
  refine ⟨hids, fun l hl => ?_, fun l hl => ?_, fun l req hl => ?_, fun r hr => ⟨?_, ?_⟩⟩
  · show Function.update st.calls k _ l ≠ .idle
    by_cases hlk : l = k
    · rw [hlk, Function.update_self]
      exact nofun
    · rw [Function.update_of_ne hlk]
      exact h.called l (List.mem_of_ne_of_mem hlk hl)
  · replace hl :
        (Function.update st.calls k (.sending (args.request compId)) l).registered = true := hl
    by_cases hlk : l = k
    · exact List.mem_cons.mpr (Or.inl hlk)
    · rw [Function.update_of_ne hlk] at hl
      exact List.mem_cons_of_mem _ (h.listed l hl)
  · replace hl : Function.update st.calls k (.sending (args.request compId)) l = .sending req := hl
    show (Function.update st.adapter.waitEvents k _ l).compId = req.compId
    by_cases hlk : l = k
    · rw [hlk, Function.update_self] at hl ⊢
      cases hl
      rfl
    · rw [Function.update_of_ne hlk] at hl ⊢
      exact h.sending l req hl
  · show Function.update st.calls k _ r.call ≠ .idle
    have hrk : r.call ≠ k := fun hrk => (h.flight r hr).1 (hrk ▸ hk)
    rw [Function.update_of_ne hrk]
    exact (h.flight r hr).1
  · show (Function.update st.adapter.waitEvents k _ r.call).compId = r.req.compId
    have hrk : r.call ≠ k := fun hrk => (h.flight r hr).1 (hrk ▸ hk)
    rw [Function.update_of_ne hrk]
    exact (h.flight r hr).2

theorem accept (h : ReqInv st) {req : NicRequest} (hk : st.calls k = .sending req) :
    ReqInv (st.accept k req) := by
  refine ⟨h.ids, h.called, h.listed, h.sending, fun r hr => ?_⟩
  rcases List.mem_append.mp hr with hr | hr
  · exact h.flight r hr
  · obtain rfl := List.mem_singleton.mp hr
    exact ⟨fun he => CallPc.noConfusion (hk.symm.trans he), h.sending k req hk⟩

theorem finish (h : ReqInv st) {rv : RCode} (hk : st.calls k = .leaving rv) :
    ReqInv { st.goto k (.returned .success) with adapter := st.adapter.finishWait k } := by
  have hmem : k ∈ st.adapter.waitList := h.listed k (by rw [hk]; rfl)
  have hgoto : ReqInv (st.goto k (.returned .success)) :=
    h.goto nofun nofun nofun
  refine ⟨h.ids.finish hmem, fun l hl => hgoto.called l (List.mem_of_mem_erase hl),
    fun l hl => ?_, hgoto.sending, hgoto.flight⟩
  have hlk : l ≠ k := by
    rintro rfl
    rw [show (st.goto l (.returned .success)).calls l = _ from Function.update_self ..] at hl
    cases hl
  exact (List.mem_erase_of_ne hlk).mpr (hgoto.listed l hl)

/-- An answer changes neither the list nor the ids. -/
theorem wakeup_ids (a : Adapter) (rsp : NicResponse) :
    (a.nxOsEventWakeupOnResponse rsp).2.waitList = a.waitList ∧
      ∀ l, ((a.nxOsEventWakeupOnResponse rsp).2.waitEvents l).compId =
        (a.waitEvents l).compId := by
  rcases a.nxOsEventWakeupOnResponse_cases rsp with heq | ⟨k, -, -, -, heq⟩
  · rw [heq]
    exact ⟨rfl, fun _ => rfl⟩
  · rw [heq]
    exact ⟨rfl, fun l => a.setEvent_wakeup_compId k l rsp.word⟩

theorem answer (h : ReqInv st) (rsp : NicResponse) (place : Nat)
    (answers : List (Nat × BitVec 64)) :
    ReqInv { st with
      adapter := (st.adapter.nxOsEventWakeupOnResponse rsp).2
      inFlight := st.inFlight.eraseIdx place
      answers := answers } := by
  obtain ⟨hlist, hid⟩ := wakeup_ids st.adapter rsp
  refine ⟨h.ids.wakeup rsp, fun l hl => h.called l (hlist ▸ hl), fun l hl => hlist ▸ h.listed l hl,
    fun l req hl => (hid l).trans (h.sending l req hl), fun r hr => ?_⟩
  obtain ⟨hcalled, hcompId⟩ := h.flight r (List.mem_of_mem_eraseIdx hr)
  exact ⟨hcalled, (hid r.call).trans hcompId⟩

/-- **Every step** keeps it. -/
theorem step {st st' : ReqState} (h : ReqInv st) {a : ReqAction}
    (hstep : reqMachine.next st a = some st') : ReqInv st' := by
  cases a with
  | call k args =>
    obtain ⟨hk, ⟨-, rfl⟩ | ⟨compId, a, hsetup, rfl⟩⟩ := ReqState.callStep_cases hstep
    · exact h.goto nofun nofun nofun
    · exact h.setup hk hsetup
  | send k refused =>
    obtain ⟨req, hk, rfl | rfl⟩ := ReqState.sendStep_cases hstep
    · exact h.goto nofun nofun nofun
    · exact (h.accept hk).goto nofun (fun _ => h.listed k (by rw [hk]; rfl)) nofun
  | wait k =>
    obtain ⟨left, pc, hk, hpc, hsending, rfl⟩ | ⟨rv, hk, rfl⟩ := ReqState.waitStep_cases hstep
    · have hidle : pc ≠ .idle := by
        rintro rfl
        exact Bool.false_ne_true hpc
      exact h.goto hidle (fun _ => h.listed k (by rw [hk]; rfl)) hsending
    · exact h.finish hk
  | answer place opcode word =>
    obtain ⟨r, -, rfl⟩ := ReqState.answerStep_cases hstep
    exact h.answer _ _ _

end ReqInv
end Req
end NxNic

import NxNic.Req.Correlation

/-! # What a request returns

`nx_os_send_nic_request` for all requests, those that need no completion as well.  A request
that needs one is registered before it is sent; it is to be taken off again where the sending
fails, and its success is to mean that the answer has come.

The state (`Requests`) adds to the calls of `Req/Calls`, which wait for an answer, those that need
none.  A step is a locked section of a call of the first kind, the whole of one of the second, or
an answer; how much of its 4 s a waiting call has left is part of where it is.

`Honest` is the property of a state: a call that has failed is not on the list, the bits that are
set have their entries, and a call that succeeds has had its answer.  `InTime` is the condition on
a step, for neither a refused request nor one whose time is over is undone or reported.  The
invariant `Prompt` follows each call from its setup to its return; `honest_iff` is about runs.
-/
namespace NxNic
namespace Req

/-! ## The machine -/

/-- The calls that wait for an answer, those that need none, and what the latter have sent. -/
structure Requests where
  st : ReqState
  plain : List Nat
  posted : List NicRequest

/-- A step of a call that needs a completion, or the whole of a call that does not: its
completion id is what was on the stack. -/
inductive RequestAction where
  | completed (a : ReqAction)
  | plain (k : Nat) (args : Args) (compId : BitVec 8) (refused : Bool)
deriving DecidableEq

namespace Requests
variable (r : Requests)

/-- `nx_os_send_nic_request` with `is_sync` zero. -/
def plainStep (k : Nat) (args : Args) (compId : BitVec 8) (refused : Bool) : Option Requests :=
  match r.st.calls k with
  | .idle =>
      if refused then
        some { r with st := r.st.goto k (.returned .cmdFailed), plain := k :: r.plain }
      else
        some { st := r.st.goto k (.returned .success)
               plain := k :: r.plain
               posted := r.posted ++ [{ args.request compId with needCompletion := false }] }
  | _ => none

end Requests

def requestMachine : Machine Requests RequestAction where
  next r
    | .completed a => (reqMachine.next r.st a).map fun st => { r with st := st }
    | .plain k args compId refused => r.plainStep k args compId refused

def initialRequests : Requests := ⟨initialReq, [], []⟩

/-- What a call returns, from the end of its wait on. -/
def ReqState.outcome (st : ReqState) (k : Nat) : Option RCode :=
  match st.calls k with
  | .returned rv => some rv
  | .leaving _ => (st.waitStep k).bind fun u =>
      match u.calls k with
      | .returned rv => some rv
      | _ => none
  | _ => none

/-! ## The property and the condition -/

/-- Every bit that is set is of an entry on the list. -/
def Adapter.Owned (a : Adapter) : Prop :=
  ∀ (w : Fin 4) (b : Nat), (a.waitBitMap w).getLsbD b = true →
    ∃ k ∈ a.waitList, mapIndex (a.id k) = w ∧ (bitMap (a.id k)).getLsbD b = true

/-- The answer to the request of a call has been received. -/
def ReqState.Received (st : ReqState) (k : Nat) : Prop :=
  ∃ word, (st.adapter.waitEvents k).rspWord = some word ∧ (k, word) ∈ st.answers

/-- **The property**: a request that failed has left neither an entry nor an id, and one that needs
a completion succeeds only with its answer. -/
structure Honest (r : Requests) : Prop where
  unlisted : ∀ k, r.st.calls k = .returned .cmdFailed → k ∉ r.st.adapter.waitList
  released : r.st.adapter.Owned
  answered : ∀ k ∉ r.plain, r.st.outcome k = some .success → r.st.Received k

/-- The call waits and has no time left. -/
def CallPc.expired : CallPc → Bool
  | .waiting left => left ≤ 0
  | _ => false

/-- **The condition** on a step: no request that needs a completion is refused, and no call that
waits is out of time before its answer has come. -/
def InTime (r : Requests) : RequestAction → Prop
  | .completed (.send _ refused) => refused = false
  | .completed (.wait k) =>
      (r.st.calls k).expired = true → (r.st.adapter.waitEvents k).trigger = true
  | _ => True

instance decidableInTime (r : Requests) : DecidablePred (InTime r) := fun
  | .completed (.send _ refused) => inferInstanceAs (Decidable (refused = false))
  | .completed (.wait k) => inferInstanceAs (Decidable
      ((r.st.calls k).expired = true → (r.st.adapter.waitEvents k).trigger = true))
  | .completed (.call _ _) => inferInstanceAs (Decidable True)
  | .completed (.answer _ _ _) => inferInstanceAs (Decidable True)
  | .plain _ _ _ _ => inferInstanceAs (Decidable True)

/-! ## The bits -/

namespace Adapter.Owned
variable {a b : Adapter} {k : Nat}

theorem setup (h : a.Owned) {compId : BitVec 8} (hk : k ∉ a.waitList)
    (hsetup : a.nxOsEventWaitSetup k = some (compId, b)) : b.Owned := by
  obtain ⟨-, rfl⟩ := Adapter.nxOsEventWaitSetup_cases hsetup
  intro w i hset
  have hself : Function.update a.waitEvents k ⟨compId, true, false, none⟩ k =
      ⟨compId, true, false, none⟩ := Function.update_self ..
  have hold : (a.waitBitMap w).getLsbD i = true → ∃ l ∈ k :: a.waitList,
      mapIndex (Function.update a.waitEvents k ⟨compId, true, false, none⟩ l).compId.toNat = w ∧
        (bitMap (Function.update a.waitEvents k
          ⟨compId, true, false, none⟩ l).compId.toNat).getLsbD i = true := by
    intro hbit
    obtain ⟨l, hl, howner⟩ := h w i hbit
    have hlk : l ≠ k := fun hlk => hk (hlk ▸ hl)
    refine ⟨l, List.mem_cons_of_mem k hl, ?_⟩
    rw [Function.update_of_ne hlk]
    exact howner
  by_cases hw : w = mapIndex compId.toNat
  · replace hset : (Function.update a.waitBitMap (mapIndex compId.toNat)
      (a.waitBitMap (mapIndex compId.toNat) ||| bitMap compId.toNat) w).getLsbD i = true := hset
    rw [hw, Function.update_self, BitVec.getLsbD_or, Bool.or_eq_true] at hset
    rcases hset with hbit | hbit
    · exact hold (hw ▸ hbit)
    · refine ⟨k, List.mem_cons_self, ?_⟩
      show mapIndex (Function.update a.waitEvents k
          ⟨compId, true, false, none⟩ k).compId.toNat = w ∧
        (bitMap (Function.update a.waitEvents k
          ⟨compId, true, false, none⟩ k).compId.toNat).getLsbD i = true
      rw [hself]
      exact ⟨hw.symm, hbit⟩
  · refine hold ?_
    replace hset : (Function.update a.waitBitMap (mapIndex compId.toNat) _ w).getLsbD i = true :=
      hset
    rwa [Function.update_of_ne hw] at hset

theorem finish (h : a.Owned) : (a.finishWait k).Owned := by
  intro w i hset
  -- a bit that is left is of an entry with another id
  have hleft : (a.waitBitMap w).getLsbD i = true ∧
      ¬(mapIndex (a.id k) = w ∧ (bitMap (a.id k)).getLsbD i = true) := by
    replace hset : (Function.update a.waitBitMap (mapIndex (a.id k))
      (a.waitBitMap (mapIndex (a.id k)) &&& ~~~bitMap (a.id k)) w).getLsbD i = true := hset
    by_cases hw : w = mapIndex (a.id k)
    · rw [hw, Function.update_self, BitVec.getLsbD_and, BitVec.getLsbD_not, Bool.and_eq_true,
        Bool.and_eq_true] at hset
      refine ⟨hw ▸ hset.1, fun hk => ?_⟩
      rw [hk.2] at hset
      exact absurd hset.2.2 Bool.false_ne_true
    · rw [Function.update_of_ne hw] at hset
      exact ⟨hset, fun hk => hw hk.1.symm⟩
  obtain ⟨l, hl, howner⟩ := h w i hleft.1
  have hlk : l ≠ k := fun hlk => hleft.2 (hlk ▸ howner)
  exact ⟨l, (List.mem_erase_of_ne hlk).mpr hl, howner⟩

theorem wakeup (h : a.Owned) (rsp : NicResponse) : (a.nxOsEventWakeupOnResponse rsp).2.Owned := by
  rcases a.nxOsEventWakeupOnResponse_cases rsp with heq | ⟨k, -, -, -, heq⟩
  · rw [heq]
    exact h
  · rw [heq]
    intro w i hset
    obtain ⟨l, hl, howner⟩ := h w i hset
    refine ⟨l, hl, ?_⟩
    rw [Adapter.id, a.setEvent_wakeup_compId]
    exact howner

end Adapter.Owned

/-! ## The invariant -/

/-- The invariant of the runs all of whose steps meet the condition. -/
structure Prompt (st : ReqState) (plain : List Nat) : Prop where
  matched : Matched st
  owned : st.adapter.Owned
  entries : ∀ k ∈ st.adapter.waitList, (st.calls k).registered = true
  back : ∀ k ∈ plain, ∃ rv, st.calls k = .returned rv
  single : (st.inFlight.map InFlight.call).Nodup
  waiting : ∀ q ∈ st.inFlight, (∃ left, st.calls q.call = .waiting left) ∧
    (st.adapter.waitEvents q.call).trigger = false
  untriggered : ∀ k req, st.calls k = .sending req → (st.adapter.waitEvents k).trigger = false
  leaving : ∀ k rv, st.calls k = .leaving rv → (st.adapter.waitEvents k).trigger = true
  returned : ∀ k ∉ plain, st.calls k = .returned .success →
    (st.adapter.waitEvents k).trigger = true
  told : ∀ k word, (st.adapter.waitEvents k).rspWord = some word →
    (st.adapter.waitEvents k).trigger = true

namespace Prompt
variable {st st' : ReqState} {plain : List Nat} {k : Nat}

/-- A call whose wait is over returns success. -/
theorem outcome_leaving {rv : RCode} (hk : st.calls k = .leaving rv) :
    st.outcome k = some .success := by
  have hstep : st.waitStep k =
      some { st.goto k (.returned .success) with adapter := st.adapter.finishWait k } := by
    rw [ReqState.waitStep, hk]
  have hpc : Function.update st.calls k (.returned .success) k = .returned .success :=
    Function.update_self ..
  rw [ReqState.outcome, hk, hstep]
  show (match Function.update st.calls k (.returned .success) k with
    | .returned rv => some rv
    | _ => none) = _
  rw [hpc]

theorem honest {r : Requests} (h : Prompt r.st r.plain) : Honest r := by
  refine ⟨fun k hk hlisted => ?_, h.owned, fun k hk hout => ?_⟩
  · have hentry := h.entries k hlisted
    rw [hk] at hentry
    exact Bool.false_ne_true hentry
  · refine h.matched.correlated.triggered k ?_
    cases hpc : r.st.calls k with
    | returned rv =>
      rw [ReqState.outcome, hpc] at hout
      exact h.returned k hk (hpc.trans (congrArg _ (Option.some.inj hout)))
    | leaving rv => exact h.leaving k rv hpc
    | _ =>
      rw [ReqState.outcome, hpc] at hout
      exact absurd hout (Option.some_ne_none _).symm

/-- The id of a request in flight is taken. -/
theorem notInFlight (h : Prompt st plain) (k : Nat) (args : Args) :
    NotInFlight st (.call k args) := by
  intro q hq hlowest
  obtain ⟨left, hleft⟩ := (h.waiting q hq).1
  have hlisted := h.matched.inv.listed q.call (by rw [hleft]; rfl)
  have htaken := h.matched.inv.ids.taken q.call hlisted
  have hid : st.adapter.id q.call = q.req.compId.toNat :=
    congrArg BitVec.toNat (h.matched.inv.flight q hq).2
  have hfree := of_decide_eq_true hlowest.1
  rw [hid] at htaken
  exact bitMap_ne_zero _ (htaken.symm.trans hfree)

/-- A call that is not in flight goes on. -/
theorem goto (h : Prompt st plain) {pc : CallPc} (hmatched : Matched (st.goto k pc))
    (hentry : k ∈ st.adapter.waitList → pc.registered = true) (hplain : k ∉ plain)
    (hflight : ∀ q ∈ st.inFlight, q.call = k → ∃ left, pc = .waiting left)
    (hsending : ∀ req, pc ≠ .sending req)
    (hover : (∃ rv, pc = .leaving rv) ∨ pc = .returned .success →
      (st.adapter.waitEvents k).trigger = true) : Prompt (st.goto k pc) plain := by
  have hcalls := st.calls_goto k pc
  refine ⟨hmatched, h.owned, fun l hl => ?_, fun l hl => ?_, h.single, fun q hq => ?_,
    fun l req hl => ?_, fun l rv hl => ?_, fun l hl hret => ?_, h.told⟩
  · rw [hcalls]
    split
    · rename_i hlk
      exact hentry (hlk ▸ hl)
    · exact h.entries l hl
  · rw [hcalls, if_neg fun hlk : l = k => hplain (hlk ▸ hl)]
    exact h.back l hl
  · refine ⟨?_, (h.waiting q hq).2⟩
    rw [hcalls]
    split
    · rename_i hqk
      exact hflight q hq hqk
    · exact (h.waiting q hq).1
  · rw [hcalls] at hl
    split at hl
    · exact absurd hl (hsending req)
    · exact h.untriggered l req hl
  · rw [hcalls] at hl
    split at hl
    · rename_i hlk
      exact hlk ▸ hover (.inl ⟨rv, hl⟩)
    · exact h.leaving l rv hl
  · rw [hcalls] at hret
    split at hret
    · rename_i hlk
      exact hlk ▸ hover (.inr hret)
    · exact h.returned l hl hret

end Prompt

/-- The call whose request is answered has no other in flight. -/
theorem single_eraseIdx {l : List InFlight} (h : (l.map InFlight.call).Nodup) {place : Nat}
    {r q : InFlight} (hr : l[place]? = some r) (hq : q ∈ l.eraseIdx place) : q.call ≠ r.call := by
  obtain ⟨i, hi, hget⟩ := List.mem_eraseIdx_iff_getElem?.mp hq
  intro hcall
  have hi' : (l.map InFlight.call)[i]? = some r.call := by
    rw [List.getElem?_map, hget, ← hcall]
    rfl
  have hplace : (l.map InFlight.call)[place]? = some r.call := by
    rw [List.getElem?_map, hr]
    rfl
  have hlt := (List.getElem?_eq_some_iff.mp hi').1
  exact hi ((List.getElem?_inj hlt h).mp (hi'.trans hplace.symm))

namespace Prompt
variable {st st' : ReqState} {plain : List Nat} {k : Nat}

theorem setup (h : Prompt st plain) {args : Args} {compId : BitVec 8} {b : Adapter}
    (hk : st.calls k = .idle) (hsetup : st.adapter.nxOsEventWaitSetup k = some (compId, b)) :
    Prompt { st.goto k (.sending (args.request compId)) with adapter := b } plain := by
  have hfresh : k ∉ st.adapter.waitList := fun hmem => h.matched.inv.called k hmem hk
  have hmatched : Matched { st.goto k (.sending (args.request compId)) with adapter := b } :=
    h.matched.setup hk hsetup (h.notInFlight k args)
  have howned := h.owned.setup hfresh hsetup
  obtain ⟨-, rfl⟩ := Adapter.nxOsEventWaitSetup_cases hsetup
  have hcalls : ∀ l, Function.update st.calls k (.sending (args.request compId)) l =
      if l = k then .sending (args.request compId) else st.calls l := fun l =>
    Function.update_apply ..
  have hevents : ∀ l, Function.update st.adapter.waitEvents k ⟨compId, true, false, none⟩ l =
      if l = k then ⟨compId, true, false, none⟩ else st.adapter.waitEvents l := fun l =>
    Function.update_apply ..
  -- `k` is none of the calls that are spoken of
  have hne : ∀ l pc, st.calls l = pc → pc ≠ .idle → l ≠ k := by
    rintro l pc hl hpc rfl
    exact hpc (hl.symm.trans hk)
  refine ⟨hmatched, howned, fun l hl => ?_, fun l hl => ?_, h.single, fun q hq => ?_,
    fun l req hl => ?_, fun l rv hl => ?_, fun l hl hret => ?_, fun l word hl => ?_⟩
  · show (Function.update st.calls k _ l).registered = true
    rw [hcalls]
    split
    · rfl
    · rename_i hlk
      exact h.entries l (List.mem_of_ne_of_mem hlk hl)
  · obtain ⟨rv, hrv⟩ := h.back l hl
    refine ⟨rv, (hcalls l).trans ?_⟩
    rw [if_neg (hne l _ hrv nofun), hrv]
  · obtain ⟨⟨left, hleft⟩, htrigger⟩ := h.waiting q hq
    have hqk := hne q.call _ hleft nofun
    refine ⟨⟨left, (hcalls q.call).trans ?_⟩, ?_⟩
    · rw [if_neg hqk, hleft]
    · show (Function.update st.adapter.waitEvents k _ q.call).trigger = false
      rw [hevents, if_neg hqk, htrigger]
  · replace hl : Function.update st.calls k _ l = .sending req := hl
    show (Function.update st.adapter.waitEvents k _ l).trigger = false
    rw [hcalls] at hl
    rw [hevents]
    split at hl
    · rename_i hlk
      rw [if_pos hlk]
    · rename_i hlk
      rw [if_neg hlk]
      exact h.untriggered l req hl
  · replace hl : Function.update st.calls k _ l = .leaving rv := hl
    show (Function.update st.adapter.waitEvents k _ l).trigger = true
    rw [hcalls] at hl
    rw [hevents]
    split at hl
    · cases hl
    · rename_i hlk
      rw [if_neg hlk]
      exact h.leaving l rv hl
  · replace hret : Function.update st.calls k _ l = .returned .success := hret
    show (Function.update st.adapter.waitEvents k _ l).trigger = true
    rw [hcalls] at hret
    rw [hevents]
    split at hret
    · cases hret
    · rename_i hlk
      rw [if_neg hlk]
      exact h.returned l hl hret
  · replace hl : (Function.update st.adapter.waitEvents k _ l).rspWord = some word := hl
    show (Function.update st.adapter.waitEvents k _ l).trigger = true
    rw [hevents] at hl ⊢
    split at hl
    · cases hl
    · rename_i hlk
      rw [if_neg hlk]
      exact h.told l word hl

theorem send (h : Prompt st plain) {req : NicRequest} (hk : st.calls k = .sending req)
    (hmatched : Matched ((st.accept k req).goto k (.waiting utimelimit))) :
    Prompt ((st.accept k req).goto k (.waiting utimelimit)) plain := by
  have hnone : ∀ q ∈ st.inFlight, q.call ≠ k := by
    rintro q hq rfl
    obtain ⟨left, hleft⟩ := (h.waiting q hq).1
    cases hleft.symm.trans hk
  have hplain : k ∉ plain := fun hmem => by
    obtain ⟨rv, hrv⟩ := h.back k hmem
    cases hrv.symm.trans hk
  have hcalls := (st.accept k req).calls_goto k (.waiting utimelimit)
  refine ⟨hmatched, h.owned, fun l hl => ?_, fun l hl => ?_, ?_, fun q hq => ?_,
    fun l req' hl => ?_, fun l rv hl => ?_, fun l hl hret => ?_, h.told⟩
  · rw [hcalls]
    split
    · rfl
    · exact h.entries l hl
  · rw [hcalls, if_neg fun hlk : l = k => hplain (hlk ▸ hl)]
    exact h.back l hl
  · show ((st.inFlight ++ [(⟨k, req⟩ : InFlight)]).map InFlight.call).Nodup
    rw [List.map_append]
    refine List.nodup_append.mpr ⟨h.single, ?_, fun a ha b hb => ?_⟩
    · exact List.nodup_cons.mpr ⟨List.not_mem_nil, List.nodup_nil⟩
    obtain ⟨q, hq, rfl⟩ := List.mem_map.mp ha
    rw [List.mem_singleton.mp hb]
    exact hnone q hq
  · rcases List.mem_append.mp hq with hq | hq
    · refine ⟨?_, (h.waiting q hq).2⟩
      rw [hcalls, if_neg (hnone q hq)]
      exact (h.waiting q hq).1
    · obtain rfl := List.mem_singleton.mp hq
      refine ⟨⟨utimelimit, ?_⟩, h.untriggered k req hk⟩
      rw [hcalls, if_pos rfl]
  · rw [hcalls] at hl
    split at hl
    · cases hl
    · exact h.untriggered l req' hl
  · rw [hcalls] at hl
    split at hl
    · cases hl
    · exact h.leaving l rv hl
  · rw [hcalls] at hret
    split at hret
    · cases hret
    · exact h.returned l hl hret

theorem finish (h : Prompt st plain) {rv : RCode} (hk : st.calls k = .leaving rv)
    (hmatched : Matched
      { st.goto k (.returned .success) with adapter := st.adapter.finishWait k }) :
    Prompt { st.goto k (.returned .success) with adapter := st.adapter.finishWait k } plain := by
  have hcalls := st.calls_goto k (.returned .success)
  have htrigger := h.leaving k rv hk
  refine ⟨hmatched, h.owned.finish, fun l hl => ?_, fun l hl => ?_, h.single, fun q hq => ?_,
    fun l req hl => ?_, fun l rv hl => ?_, fun l hl hret => ?_, h.told⟩
  · obtain ⟨hlk, hl⟩ := h.matched.inv.ids.nodup.mem_erase_iff.mp hl
    show ((st.goto k (.returned .success)).calls l).registered = true
    rw [hcalls, if_neg hlk]
    exact h.entries l hl
  · show ∃ rv, (st.goto k (.returned .success)).calls l = .returned rv
    rw [hcalls]
    split
    · exact ⟨.success, rfl⟩
    · exact h.back l hl
  · obtain ⟨⟨left, hleft⟩, huntriggered⟩ := h.waiting q hq
    refine ⟨⟨left, ?_⟩, huntriggered⟩
    show (st.goto k (.returned .success)).calls q.call = .waiting left
    rw [hcalls, if_neg fun hqk : q.call = k => by cases hk.symm.trans (hqk ▸ hleft)]
    exact hleft
  · replace hl : (st.goto k (.returned .success)).calls l = .sending req := hl
    rw [hcalls] at hl
    split at hl
    · cases hl
    · exact h.untriggered l req hl
  · replace hl : (st.goto k (.returned .success)).calls l = .leaving rv := hl
    rw [hcalls] at hl
    split at hl
    · cases hl
    · exact h.leaving l rv hl
  · replace hret : (st.goto k (.returned .success)).calls l = .returned .success := hret
    rw [hcalls] at hret
    split at hret
    · rename_i hlk
      exact hlk ▸ htrigger
    · exact h.returned l hl hret

end Prompt

namespace Prompt
variable {st st' : ReqState} {plain : List Nat} {k : Nat}

theorem answer (h : Prompt st plain) {place : Nat} {opcode : BitVec 8} {word : BitVec 64}
    {r : InFlight} (hr : st.inFlight[place]? = some r) :
    Prompt { st with
      adapter := (st.adapter.nxOsEventWakeupOnResponse ⟨opcode, r.req.compId, word⟩).2
      inFlight := st.inFlight.eraseIdx place
      answers := st.answers ++ [(r.call, word)] } plain := by
  have hmem : r ∈ st.inFlight := List.mem_of_getElem? hr
  have hmatched := h.matched.answer hmem place opcode word
  have howned := h.owned.wakeup ⟨opcode, r.req.compId, word⟩
  have hsingle : ((st.inFlight.eraseIdx place).map InFlight.call).Nodup :=
    h.single.sublist ((List.eraseIdx_sublist st.inFlight place).map InFlight.call)
  obtain ⟨⟨left, hleft⟩, -⟩ := h.waiting r hmem
  rcases st.adapter.nxOsEventWakeupOnResponse_cases ⟨opcode, r.req.compId, word⟩ with
    heq | ⟨k, hk, hid, -, heq⟩
  · rw [heq] at hmatched howned ⊢
    exact ⟨hmatched, howned, h.entries, h.back, hsingle,
      fun q hq => h.waiting q (List.mem_of_mem_eraseIdx hq), h.untriggered, h.leaving,
      h.returned, h.told⟩
  · -- the entry that is triggered is the one of the request
    obtain rfl : k = r.call := h.matched.own r hmem k hk hid
    rw [heq] at hmatched howned ⊢
    have hevents : ∀ l, (st.adapter.setEvent r.call
        ((st.adapter.waitEvents r.call).wakeup word)).waitEvents l =
          if l = r.call then (st.adapter.waitEvents r.call).wakeup word
          else st.adapter.waitEvents l := fun l => Function.update_apply ..
    have htriggered : ∀ l, (st.adapter.waitEvents l).trigger = true →
        ((st.adapter.setEvent r.call
          ((st.adapter.waitEvents r.call).wakeup word)).waitEvents l).trigger = true := by
      intro l hl
      rw [hevents]
      split
      · rfl
      · exact hl
    have hother : ∀ l pc, st.calls l = pc → pc ≠ .waiting left → l ≠ r.call := by
      rintro l pc hl hpc rfl
      exact hpc (hl.symm.trans hleft)
    refine ⟨hmatched, howned, h.entries, h.back, hsingle, fun q hq => ?_, fun l req hl => ?_,
      fun l rv hl => htriggered l (h.leaving l rv hl),
      fun l hl hret => htriggered l (h.returned l hl hret), fun l w hl => ?_⟩
    · obtain ⟨hwait, huntriggered⟩ := h.waiting q (List.mem_of_mem_eraseIdx hq)
      refine ⟨hwait, ?_⟩
      rw [hevents, if_neg (single_eraseIdx h.single hr hq)]
      exact huntriggered
    · rw [hevents, if_neg (hother l _ hl nofun)]
      exact h.untriggered l req hl
    · rw [hevents] at hl ⊢
      split at hl
      · rename_i hlr
        rw [if_pos hlr]
        rfl
      · rename_i hlr
        rw [if_neg hlr]
        exact h.told l w hl

/-- A round of a wait that is not out of time before its answer. -/
theorem waitStep_cases (hin : (st.calls k).expired = true →
    (st.adapter.waitEvents k).trigger = true) (hstep : st.waitStep k = some st') :
    (∃ left, st.calls k = .waiting left ∧
        (((st.adapter.waitEvents k).trigger = true ∧ st' = st.goto k (.leaving .success)) ∨
          st' = st.goto k (.waiting (left - 100000)))) ∨
      ∃ rv, st.calls k = .leaving rv ∧
        st' = { st.goto k (.returned .success) with adapter := st.adapter.finishWait k } := by
  cases hpc : st.calls k with
  | waiting left =>
    left
    refine ⟨left, rfl, ?_⟩
    rw [ReqState.waitStep, hpc] at hstep
    dsimp only at hstep
    rw [hpc] at hin
    by_cases htrigger : (st.adapter.waitEvents k).trigger = true
    · rw [if_pos htrigger] at hstep
      exact .inl ⟨htrigger, (Option.some.inj hstep).symm⟩
    · rw [if_neg htrigger, if_neg fun hleft => htrigger (hin (decide_eq_true hleft))] at hstep
      exact .inr (Option.some.inj hstep).symm
  | leaving rv =>
    right
    rw [ReqState.waitStep, hpc] at hstep
    exact ⟨rv, rfl, (Option.some.inj hstep).symm⟩
  | _ =>
    rw [ReqState.waitStep, hpc] at hstep
    cases hstep

/-- **Every step** of a call that meets the condition keeps the invariant. -/
theorem step {r : Requests} {a : ReqAction} (h : Prompt r.st r.plain)
    (hin : InTime r (.completed a)) (hstep : reqMachine.next r.st a = some st') :
    Prompt st' r.plain := by
  have hback : ∀ k, (∀ rv, r.st.calls k ≠ .returned rv) → k ∉ r.plain := fun k hk hmem => by
    obtain ⟨rv, hrv⟩ := h.back k hmem
    exact hk rv hrv
  cases a with
  | call k args =>
    have hmatched := h.matched.step (h.notInFlight k args) hstep
    obtain ⟨hk, ⟨-, rfl⟩ | ⟨compId, a, hsetup, rfl⟩⟩ := ReqState.callStep_cases hstep
    · refine h.goto hmatched (fun hl => absurd hk (h.matched.inv.called k hl))
        (hback k fun rv hrv => by cases hk.symm.trans hrv) (fun q hq hqk => ?_) nofun ?_
      · obtain ⟨left, hleft⟩ := (h.waiting q hq).1
        cases hk.symm.trans (hqk ▸ hleft)
      · rintro (⟨rv, hrv⟩ | hret)
        · cases hrv
        · cases hret
    · exact h.setup hk hsetup
  | send k refused =>
    obtain rfl : refused = false := hin
    have hmatched := h.matched.step (a := .send k false) trivial hstep
    cases hpc : r.st.calls k with
    | sending req =>
      replace hstep : r.st.sendStep k false = some st' := hstep
      rw [ReqState.sendStep, hpc] at hstep
      obtain rfl := Option.some.inj hstep
      exact h.send hpc hmatched
    | _ =>
      replace hstep : r.st.sendStep k false = some st' := hstep
      rw [ReqState.sendStep, hpc] at hstep
      cases hstep
  | wait k =>
    have hmatched := h.matched.step (a := .wait k) trivial hstep
    obtain ⟨left, hk, ⟨htrigger, rfl⟩ | rfl⟩ | ⟨rv, hk, rfl⟩ := waitStep_cases hin hstep
    · refine h.goto hmatched (fun _ => rfl) (hback k fun rv hrv => by cases hk.symm.trans hrv)
        (fun q hq hqk => ?_) nofun fun _ => htrigger
      -- a call with its answer has no request in flight
      exact absurd (htrigger.symm.trans (hqk ▸ (h.waiting q hq).2)) Bool.false_ne_true.symm
    · refine h.goto hmatched (fun _ => rfl) (hback k fun rv hrv => by cases hk.symm.trans hrv)
        (fun q hq hqk => ⟨_, rfl⟩) nofun ?_
      rintro (⟨rv, hrv⟩ | hret)
      · cases hrv
      · cases hret
    · exact h.finish hk hmatched
  | answer place opcode word =>
    obtain ⟨q, hq, rfl⟩ := Option.map_eq_some_iff.mp hstep
    exact h.answer hq

end Prompt

/-! ## Runs -/

namespace Requests
variable {r r' : Requests} {k : Nat}

/-- A call that needs no completion registers nothing. -/
theorem plainStep_cases {args : Args} {compId : BitVec 8} {refused : Bool}
    (h : r.plainStep k args compId refused = some r') :
    r.st.calls k = .idle ∧ r'.plain = k :: r.plain ∧ ∃ rv, r'.st = r.st.goto k (.returned rv) := by
  unfold plainStep at h
  cases hpc : r.st.calls k with
  | idle =>
    refine ⟨rfl, ?_⟩
    rw [hpc] at h
    cases refused with
    | true =>
      obtain rfl := Option.some.inj h
      exact ⟨rfl, .cmdFailed, rfl⟩
    | false =>
      obtain rfl := Option.some.inj h
      exact ⟨rfl, .success, rfl⟩
  | _ =>
    rw [hpc] at h
    cases h

end Requests

namespace Prompt
variable {r r' : Requests}

theorem plainStep {k : Nat} (h : Prompt r.st r.plain) (hk : r.st.calls k = .idle)
    (rv : RCode) : Prompt (r.st.goto k (.returned rv)) (k :: r.plain) := by
  have hfresh : k ∉ r.st.adapter.waitList := fun hmem => h.matched.inv.called k hmem hk
  have hinv : ReqInv (r.st.goto k (.returned rv)) := h.matched.inv.goto nofun nofun nofun
  have hcalls := r.st.calls_goto k (.returned rv)
  refine ⟨⟨hinv, h.matched.own, h.matched.triggered, h.matched.received⟩, h.owned,
    fun l hl => ?_, fun l hl => ?_, h.single, fun q hq => ?_, fun l req hl => ?_,
    fun l rv' hl => ?_, fun l hl hret => ?_, h.told⟩
  · rw [hcalls, if_neg fun hlk : l = k => hfresh (hlk ▸ hl)]
    exact h.entries l hl
  · rw [hcalls]
    split
    · exact ⟨rv, rfl⟩
    · rename_i hlk
      exact h.back l (List.mem_of_ne_of_mem hlk hl)
  · obtain ⟨⟨left, hleft⟩, huntriggered⟩ := h.waiting q hq
    refine ⟨⟨left, ?_⟩, huntriggered⟩
    rw [hcalls, if_neg fun hqk : q.call = k => by cases hk.symm.trans (hqk ▸ hleft)]
    exact hleft
  · rw [hcalls] at hl
    split at hl
    · cases hl
    · exact h.untriggered l req hl
  · rw [hcalls] at hl
    split at hl
    · cases hl
    · exact h.leaving l rv' hl
  · rw [hcalls, if_neg fun hlk : l = k => hl (hlk ▸ List.mem_cons_self)] at hret
    exact h.returned l (fun hmem => hl (List.mem_cons_of_mem k hmem)) hret

theorem next {a : RequestAction} (h : Prompt r.st r.plain) (hin : InTime r a)
    (hstep : requestMachine.next r a = some r') : Prompt r'.st r'.plain := by
  cases a with
  | completed a =>
    obtain ⟨st, hst, rfl⟩ := Option.map_eq_some_iff.mp hstep
    exact h.step hin hst
  | plain k args compId refused =>
    obtain ⟨hk, hplain, rv, hst⟩ := Requests.plainStep_cases hstep
    rw [hst, hplain]
    exact h.plainStep hk rv

theorem init : Prompt initialReq [] := by
  refine ⟨Matched.init, fun w b hset => ?_, fun k hk => absurd hk List.not_mem_nil,
    fun k hk => absurd hk List.not_mem_nil, List.nodup_nil, fun q hq => absurd hq List.not_mem_nil,
    fun k req hk => ?_, fun k rv hk => ?_, fun k _ hk => ?_, fun k word hk => ?_⟩
  · exact absurd hset (by simp [initialReq])
  · cases hk
  · cases hk
  · cases hk
  · cases hk

/-- A request that is refused stays on the list, and one that is out of time succeeds without its
answer. -/
theorem needs {a : RequestAction} (h : Prompt r.st r.plain)
    (hstep : requestMachine.next r a = some r') (hgood : Honest r') : InTime r a := by
  cases a with
  | plain k args compId refused => trivial
  | completed a =>
    obtain ⟨st, hst, rfl⟩ := Option.map_eq_some_iff.mp hstep
    cases a with
    | send k refused =>
      cases hrefused : refused with
      | false => rfl
      | true =>
        obtain ⟨req, hk, -⟩ := ReqState.sendStep_cases hst
        replace hst : r.st.sendStep k refused = some st := hst
        rw [ReqState.sendStep, hk, hrefused] at hst
        obtain rfl := Option.some.inj hst
        have hlisted := h.matched.inv.listed k (by rw [hk]; rfl)
        exact absurd hlisted (hgood.unlisted k (Function.update_self ..))
    | wait k =>
      intro hexpired
      by_contra htrigger
      cases hk : r.st.calls k with
      | waiting left =>
        rw [hk] at hexpired
        replace hst : r.st.waitStep k = some st := hst
        rw [ReqState.waitStep, hk] at hst
        dsimp only at hst
        rw [if_neg htrigger, if_pos (of_decide_eq_true hexpired)] at hst
        obtain rfl := Option.some.inj hst
        have hplain : k ∉ r.plain := fun hmem => by
          obtain ⟨rv, hrv⟩ := h.back k hmem
          cases hk.symm.trans hrv
        obtain ⟨word, hword, -⟩ := hgood.answered k hplain
          (outcome_leaving (Function.update_self ..))
        exact htrigger (h.told k word hword)
      | _ =>
        rw [hk] at hexpired
        cases hexpired
    | _ => trivial

end Prompt

/-- **Requests return what has become of them** throughout a run just if none that needs a
completion is refused and none runs out of time.  Calls, answers and the passing of time come in
any order. -/
theorem honest_iff {l : List RequestAction} {r : Requests}
    (h : requestMachine.run initialRequests l = some r) :
    (∀ u, requestMachine.Visits initialRequests l u → Honest u) ↔
      ∀ u a, requestMachine.Takes initialRequests l u a → InTime u a :=
  Machine.visits_iff_takes (K := fun r => Prompt r.st r.plain) (fun _ hK => hK.honest)
    (fun _ _ _ hK hP hn => hK.next hP hn) (fun _ _ _ hK hn hI => hK.needs hn hI) Prompt.init h

/-- A call whose request is answered in time. -/
def answeredRun : List ReqAction :=
  [.call 0 promiscuous, .send 0 false, .wait 0, .answer 0 132 7, .wait 0, .wait 0]

/-- A request is answered in time, and another, which needs no completion, is refused. -/
def honestRun : List RequestAction :=
  .plain 1 promiscuous 0 true :: answeredRun.map .completed

/-- The first returns success with its answer, the second a failure, and nothing is left of
either. -/
theorem honest_iff_answered :
    ∃ r, requestMachine.run initialRequests honestRun = some r ∧
      r.st.calls 0 = .returned .success ∧ r.st.calls 1 = .returned .cmdFailed ∧
      ∀ u, requestMachine.Visits initialRequests honestRun u → Honest u := by
  have hrun : ((requestMachine.guard InTime).run initialRequests honestRun).map
      (fun r => (r.st.calls 0, r.st.calls 1)) =
        some (.returned .success, .returned .cmdFailed) := by
    decide +kernel
  obtain ⟨r, hr, h⟩ := Option.map_eq_some_iff.mp hrun
  obtain ⟨hfirst, hsecond⟩ := Prod.mk.inj h
  have hr' := Machine.run_of_guard hr
  exact ⟨r, hr', hfirst, hsecond,
    (honest_iff hr').mpr fun _ _ ht => Machine.takes_of_guard hr ht⟩

/-- A request is refused. -/
def refusedRun : List RequestAction := [.completed (.call 0 promiscuous), .completed (.send 0 true)]

/-- A request is not answered for 4 s. -/
def unansweredRun : List RequestAction :=
  .completed (.call 0 promiscuous) :: .completed (.send 0 false) ::
    List.replicate 42 (.completed (.wait 0))

/-- The request that is refused leaves its entry and its id, and the one without an answer
succeeds. -/
theorem requests_dishonest :
    (∃ r, requestMachine.run initialRequests refusedRun = some r ∧ ¬Honest r ∧
      r.st.calls 0 = .returned .cmdFailed ∧ r.st.adapter.waitList = [0] ∧
      r.st.adapter.waitBitMap 0 = 1) ∧
    ∃ r, requestMachine.run initialRequests unansweredRun = some r ∧ ¬Honest r ∧
      r.st.calls 0 = .returned .success ∧ r.st.answers = [] := by
  constructor
  · have hrun : (requestMachine.run initialRequests refusedRun).map
        (fun r => (r.st.calls 0, r.st.adapter.waitList, r.st.adapter.waitBitMap 0)) =
          some (.returned .cmdFailed, [0], 1) := by
      decide +kernel
    obtain ⟨r, hr, h⟩ := Option.map_eq_some_iff.mp hrun
    simp only [Prod.mk.injEq] at h
    obtain ⟨hcall, hlist, hbits⟩ := h
    refine ⟨r, hr, fun hgood => hgood.unlisted 0 hcall ?_, hcall, hlist, hbits⟩
    rw [hlist]
    exact List.mem_singleton.mpr rfl
  · have hrun : (requestMachine.run initialRequests unansweredRun).map
        (fun r => (r.st.calls 0, r.st.answers, r.plain)) = some (.returned .success, [], []) := by
      decide +kernel
    obtain ⟨r, hr, h⟩ := Option.map_eq_some_iff.mp hrun
    simp only [Prod.mk.injEq] at h
    obtain ⟨hcall, hanswers, hplain⟩ := h
    refine ⟨r, hr, fun hgood => ?_, hcall, hanswers⟩
    have hout : r.st.outcome 0 = some .success := by rw [ReqState.outcome, hcall]
    obtain ⟨word, -, hmem⟩ := hgood.answered 0 (hplain ▸ List.not_mem_nil) hout
    rw [hanswers] at hmem
    exact List.not_mem_nil hmem

end Req
end NxNic

import Mathlib.Data.List.Nodup
import NxNic.Cdrp.Agreement

/-! # Results of queries

A query reads its results after `issue_cmd` has given the semaphore back.  The runs are those of
`Cdrp/Agreement`; what is followed here is the argument registers, with the firmware's values kept
aside in `produced` at each answer.

`Owned` is the property: a call that returns with success returns what the firmware left in the
registers for its command, what it has still to read has been written by or for it, and the
response it would take next is to its own command.

`Undisturbed` is the condition on a step: while a call polls no other command is answered, and a
register that a call has still to read (`Pc.unread`) is written by nobody else.  The second half is
what the place of the unlock costs.  Inside the critical section the semaphore sees to it, and the
reads are outside.

The invariant, `Produced`, says more than the property: that what has been read and what is still
in the registers, put together, are the firmware's results (`Holds`).  `Produced.step` keeps it
under the condition, `Owned.needs` is the converse for a step, and `owned_iff` is about runs.
-/
namespace NxNic
namespace Cdrp

/-- The argument registers that a call has written, or sent its command with, and
is still to read as the results of the command. -/
def Pc.unread (c : FwCmd) : Pc → List ArgReg
  | .writingArg .arg2 => c.reads.filter fun r => decide (r = .arg1)
  | .writingArg .arg3 => c.reads.filter fun r => decide (r ≠ .arg3)
  | .writingCdrp => c.reads
  | .polling _ => c.reads
  | .failing => c.reads
  | .unlocking rcode => if rcode = nxRcodeSuccess then c.reads else []
  | .reading rcode _ rest => if rcode = nxRcodeSuccess then rest else []
  | _ => []

/-- The results belong to the calls that return them. -/
structure Owned (cmds : Nat → FwCmd) (st : CdrpState) : Prop where
  /-- A call returns with success just what the firmware left in the registers that
  it reads when it answered the call's command. -/
  results : ∀ k out, st.calls k = .returned nxRcodeSuccess out →
    ∃ regs, st.produced k = some regs ∧ out = (cmds k).reads.map regs
  /-- What is still to be read has been written by or for the call. -/
  unread : ∀ k, ∀ r ∈ (st.calls k).unread (cmds k), (st.arg r).writer.call = some k
  own : ∀ k, (st.calls k).listening = true → nxCdrpIsRsp st.cdrp.value = true →
    st.cdrp.writer = .firmware k

/-- The argument register that a call writes next. -/
def Pc.writes : Pc → Option ArgReg
  | .writingArg r => some r
  | _ => none

/-- The condition on a step: while a call polls, no other command is answered; and
a register that a call is still to read is not written by or for another call. -/
def Undisturbed (cmds : Nat → FwCmd) (st : CdrpState) : CdrpAction → Prop
  | .answer place rsp => nxCdrpIsRsp rsp = true → ∀ k ∈ st.sem, (st.calls k).listening = true →
      st.inFlight[place]? = some k
  | .data place r _ => ∀ k ∈ st.made, r ∈ (st.calls k).unread (cmds k) →
      st.inFlight[place]? = some k
  | .step l => ∀ r ∈ (st.calls l).writes, ∀ k ∈ st.made, r ∈ (st.calls k).unread (cmds k) → k = l

instance (cmds : Nat → FwCmd) (st : CdrpState) : DecidablePred (Undisturbed cmds st) := fun
  | .answer _ _ => inferInstanceAs (Decidable (_ → ∀ k ∈ st.sem, _ → _))
  | .data _ _ _ => inferInstanceAs (Decidable (∀ k ∈ st.made, _ → _))
  | .step l => inferInstanceAs (Decidable (∀ r ∈ (st.calls l).writes, ∀ k ∈ st.made, _ → _))

/-! ## The invariant -/

namespace Pc

/-- The calls whose commands may have been sent. -/
def sent : Pc → Bool
  | .polling _ => true
  | .failing => true
  | .unlocking _ => true
  | .reading _ _ _ => true
  | .returned _ _ => true
  | _ => false

/-- What a call that will succeed has read of its results, and what it is still to
read. -/
def progress (c : FwCmd) : Pc → Option (List (BitVec 32) × List ArgReg)
  | .failing => some ([], c.reads)
  | .unlocking rcode => if rcode = nxRcodeSuccess then some ([], c.reads) else none
  | .reading rcode out rest => if rcode = nxRcodeSuccess then some (out, rest) else none
  | .returned rcode out => if rcode = nxRcodeSuccess then some (out, []) else none
  | _ => none

variable {c : FwCmd}

theorem sent_onRsp (rsp : BitVec 32) : (onRsp rsp).sent = true := by
  unfold onRsp
  split
  · rfl
  · split <;> rfl

theorem sent_afterwards (c : FwCmd) (rcode : BitVec 32) : (c.afterwards rcode).sent = true := by
  unfold FwCmd.afterwards
  split <;> rfl

theorem unread_onRsp {rsp : BitVec 32} {r : ArgReg} (h : r ∈ (onRsp rsp).unread c) :
    r ∈ c.reads := by
  unfold onRsp at h
  split at h
  · exact absurd h List.not_mem_nil
  · split at h
    · exact h
    · exact h

theorem progress_onRsp {rsp : BitVec 32} {out : List (BitVec 32)} {rest : List ArgReg}
    (h : (onRsp rsp).progress c = some (out, rest)) : out = [] ∧ rest = c.reads := by
  unfold onRsp at h
  split at h
  · cases h
  · split at h <;>
    · obtain ⟨rfl, rfl⟩ := Prod.mk.inj (Option.some.inj h)
      exact ⟨rfl, rfl⟩

theorem progress_unlocking {rcode : BitVec 32} {out : List (BitVec 32)} {rest : List ArgReg}
    (h : (Pc.unlocking rcode).progress c = some (out, rest)) : out = [] ∧ rest = c.reads := by
  simp only [progress] at h
  split at h
  · obtain ⟨rfl, rfl⟩ := Prod.mk.inj (Option.some.inj h)
    exact ⟨rfl, rfl⟩
  · cases h

/-- The unlock leaves the results to be read. -/
theorem progress_afterwards {rcode : BitVec 32} :
    (c.afterwards rcode).progress c = (Pc.unlocking rcode).progress c := by
  unfold FwCmd.afterwards
  split
  · rfl
  · rename_i hfail
    have hne : rcode ≠ nxRcodeSuccess := fun heq => hfail (Or.inl heq)
    simp only [progress, if_neg hne]

theorem unread_afterwards {rcode : BitVec 32} {r : ArgReg}
    (h : r ∈ (c.afterwards rcode).unread c) : r ∈ (Pc.unlocking rcode).unread c := by
  unfold FwCmd.afterwards at h
  split at h
  · exact h
  · exact absurd h List.not_mem_nil

/-- A call that is to succeed has the rest of its results unread. -/
theorem unread_of_progress {pc : Pc} {out : List (BitVec 32)} {rest : List ArgReg}
    (h : pc.progress c = some (out, rest)) {r : ArgReg} (hr : r ∈ rest) : r ∈ pc.unread c := by
  cases pc with
  | failing =>
    obtain ⟨rfl, rfl⟩ := Prod.mk.inj (Option.some.inj h)
    exact hr
  | unlocking rcode =>
    simp only [progress, unread] at h ⊢
    split at h
    · rename_i hs
      obtain ⟨rfl, rfl⟩ := Prod.mk.inj (Option.some.inj h)
      rw [if_pos hs]
      exact hr
    · cases h
  | reading rcode out' rest' =>
    simp only [progress, unread] at h ⊢
    split at h
    · rename_i hs
      obtain ⟨rfl, rfl⟩ := Prod.mk.inj (Option.some.inj h)
      rw [if_pos hs]
      exact hr
    · cases h
  | returned rcode out' =>
    simp only [progress] at h
    split at h
    · obtain ⟨rfl, rfl⟩ := Prod.mk.inj (Option.some.inj h)
      exact absurd hr List.not_mem_nil
    · cases h
  | _ => cases h

/-- What has been written once a register has. -/
theorem unread_afterArg {r q : ArgReg} (h : q ∈ (afterArg r).unread c) :
    q = r ∨ q ∈ (Pc.writingArg r).unread c := by
  cases r <;> cases q <;> simp_all [afterArg, unread]

theorem ne_idle_of_unread {pc : Pc} {r : ArgReg} (h : r ∈ pc.unread c) : pc ≠ .idle := by
  rintro rfl
  exact absurd h List.not_mem_nil

theorem unread_of_listening {pc : Pc} (h : pc.listening = true) : pc.unread c = c.reads := by
  cases pc with
  | polling i => rfl
  | _ => cases h

end Pc

/-- The firmware has answered the call's command: `out` are the first of its
results, and the rest are in the registers `rest`. -/
def Holds (st : CdrpState) (c : FwCmd) (k : Nat) (out : List (BitVec 32)) (rest : List ArgReg) :
    Prop :=
  ∃ regs, st.produced k = some regs ∧ (∀ r ∈ rest, (st.arg r).value = regs r) ∧
    ∃ read, c.reads = read ++ rest ∧ out = read.map regs

/-- The invariant of the runs all of whose steps meet the condition. -/
structure Produced (cmds : Nat → FwCmd) (st : CdrpState) : Prop where
  made : ∀ k, st.calls k ≠ .idle → k ∈ st.made
  nodup : st.inFlight.Nodup
  flight : ∀ k ∈ st.inFlight, (st.calls k).sent = true ∧ st.produced k = none
  answered : ∀ k regs, st.produced k = some regs → (st.calls k).sent = true
  unread : ∀ k, ∀ r ∈ (st.calls k).unread (cmds k), (st.arg r).writer.call = some k
  own : ∀ k, (st.calls k).listening = true → nxCdrpIsRsp st.cdrp.value = true →
    st.cdrp.writer = .firmware k
  pending : ∀ k, (st.calls k).listening = true → st.cdrp.writer = .firmware k →
    Holds st (cmds k) k [] (cmds k).reads
  held : ∀ k out rest, (st.calls k).progress (cmds k) = some (out, rest) →
    Holds st (cmds k) k out rest

namespace Produced
variable {cmds : Nat → FwCmd} {st st' : CdrpState} {k : Nat}

theorem owned (h : Produced cmds st) : Owned cmds st := by
  refine ⟨fun k out hk => ?_, h.unread, h.own⟩
  obtain ⟨regs, hregs, -, read, hreads, hout⟩ := h.held k out [] (by rw [hk]; rfl)
  rw [List.append_nil] at hreads
  exact ⟨regs, hregs, hreads ▸ hout⟩

/-- A call goes on. -/
theorem goto (h : Produced cmds st) {pc : Pc} (hmade : k ∈ st.made)
    (hsent : (st.calls k).sent = true → pc.sent = true)
    (hunread : ∀ r ∈ pc.unread (cmds k), (st.arg r).writer.call = some k)
    (hlisten : pc.listening = true →
      (st.calls k).listening = true ∨ nxCdrpIsRsp st.cdrp.value = false ∧ st.cdrp.writer = .host k)
    (hheld : ∀ out rest, pc.progress (cmds k) = some (out, rest) →
      Holds st (cmds k) k out rest) : Produced cmds (st.goto k pc) := by
  refine ⟨?_, h.nodup, ?_, ?_, ?_, ?_, ?_, ?_⟩
  · exact (Function.forall_update_iff st.calls fun l pc => pc ≠ .idle → l ∈ st.made).mpr
      ⟨fun _ => hmade, fun l _ => h.made l⟩
  · exact (Function.forall_update_iff st.calls fun l pc => l ∈ st.inFlight →
      pc.sent = true ∧ st.produced l = none).mpr
        ⟨fun hl => (h.flight k hl).imp_left hsent, fun l _ => h.flight l⟩
  · exact (Function.forall_update_iff st.calls fun l pc =>
      ∀ regs, st.produced l = some regs → pc.sent = true).mpr
        ⟨fun regs hregs => hsent (h.answered k regs hregs), fun l _ => h.answered l⟩
  · exact (Function.forall_update_iff st.calls fun l pc =>
      ∀ r ∈ pc.unread (cmds l), (st.arg r).writer.call = some l).mpr
        ⟨hunread, fun l _ => h.unread l⟩
  · refine (Function.forall_update_iff st.calls fun l pc => pc.listening = true →
      nxCdrpIsRsp st.cdrp.value = true → st.cdrp.writer = .firmware l).mpr
        ⟨fun hl hrsp => ?_, fun l _ => h.own l⟩
    rcases hlisten hl with hl | ⟨hcmd, -⟩
    · exact h.own k hl hrsp
    · exact Bool.noConfusion (hcmd.symm.trans hrsp)
  · refine (Function.forall_update_iff st.calls fun l pc => pc.listening = true →
      st.cdrp.writer = .firmware l → Holds st (cmds l) l [] (cmds l).reads).mpr
        ⟨fun hl hwriter => ?_, fun l _ => h.pending l⟩
    rcases hlisten hl with hl | ⟨-, hhost⟩
    · exact h.pending k hl hwriter
    · exact Writer.noConfusion (hhost.symm.trans hwriter)
  · exact (Function.forall_update_iff st.calls fun l pc => ∀ out rest,
      pc.progress (cmds l) = some (out, rest) → Holds st (cmds l) l out rest).mpr
        ⟨hheld, fun l _ => h.held l⟩

/-- An argument register is written that no other call is still to read. -/
theorem write (h : Produced cmds st) {r : ArgReg} {v : BitVec 32} {w : Writer} {j : Nat}
    (hw : w.call = some j) (hothers : ∀ l, r ∈ (st.calls l).unread (cmds l) → l = j)
    (hown : (st.calls j).listening = false ∨ st.produced j = none)
    (hprogress : (st.calls j).progress (cmds j) = none ∨ st.produced j = none) :
    Produced cmds { st with arg := Function.update st.arg r ⟨v, w⟩ } := by
  -- the results that are to be read stay as they are
  have hholds : ∀ l out rest, Holds st (cmds l) l out rest →
      (∀ q ∈ rest, q ∈ (st.calls l).unread (cmds l)) → (l = j → st.produced j ≠ none → False) →
      Holds { st with arg := Function.update st.arg r ⟨v, w⟩ } (cmds l) l out rest := by
    rintro l out rest ⟨regs, hregs, hvalues, hread⟩ hunread hlj
    refine ⟨regs, hregs, fun q hq => ?_, hread⟩
    have hqr : q ≠ r := by
      rintro rfl
      obtain rfl := hothers l (hunread q hq)
      exact hlj rfl (by rw [hregs]; exact nofun)
    show (Function.update st.arg r ⟨v, w⟩ q).value = _
    rw [Function.update_of_ne hqr]
    exact hvalues q hq
  refine ⟨h.made, h.nodup, h.flight, h.answered, fun l q hq => ?_, h.own, fun l hl hwriter => ?_,
    fun l out rest hl => ?_⟩
  · show (Function.update st.arg r ⟨v, w⟩ q).writer.call = _
    by_cases hqr : q = r
    · subst hqr
      rw [Function.update_self, hothers l hq]
      exact hw
    · rw [Function.update_of_ne hqr]
      exact h.unread l q hq
  · apply hholds l _ _ (h.pending l hl hwriter)
    · exact fun q hq => by rwa [Pc.unread_of_listening hl]
    · rintro rfl hsome
      exact hown.elim (fun hno => Bool.noConfusion (hno.symm.trans hl)) hsome
  · apply hholds l _ _ (h.held l out rest hl)
    · exact fun q hq => Pc.unread_of_progress hl hq
    · rintro rfl hsome
      exact hprogress.elim (fun hno => nomatch hno.symm.trans hl) hsome

/-- A call is made. -/
theorem call (h : Produced cmds st) (hpc : st.calls k = .idle) :
    Produced cmds { st.goto k (.locking 0) with made := k :: st.made } := by
  have hmore : Produced cmds { st with made := k :: st.made } :=
    { h with made := fun l hl => List.mem_cons_of_mem _ (h.made l hl) }
  refine hmore.goto List.mem_cons_self ?_ ?_ nofun nofun
  · show (st.calls k).sent = true → _
    rw [hpc]
    exact nofun
  · exact fun r hr => absurd hr List.not_mem_nil

/-- A call writes an argument register. -/
theorem writeArg (h : Produced cmds st) {r : ArgReg} (hpc : st.calls k = .writingArg r)
    (hothers : ∀ l ∈ st.made, r ∈ (st.calls l).unread (cmds l) → l = k) :
    Produced cmds { st.goto k (afterArg r) with
      arg := Function.update st.arg r ⟨(cmds k).arg r, .host k⟩ } := by
  have hwritten := h.write (v := (cmds k).arg r) (w := .host k) (j := k) rfl
    (fun l hl => hothers l (h.made l (Pc.ne_idle_of_unread hl)) hl)
    (Or.inl (by rw [hpc]; rfl)) (Or.inl (by rw [hpc]; rfl))
  refine hwritten.goto (h.made k (by rw [hpc]; nofun)) ?_ (fun q hq => ?_) ?_ ?_
  · show (st.calls k).sent = true → _
    rw [hpc]
    exact nofun
  · rcases Pc.unread_afterArg hq with rfl | hq
    · show (Function.update st.arg q _ q).writer.call = _
      rw [Function.update_self]
      rfl
    · exact hwritten.unread k q (by
        show q ∈ (st.calls k).unread (cmds k)
        rw [hpc]
        exact hq)
  · cases r <;> exact nofun
  · cases r <;> exact nofun

/-- A call sends its command. -/
theorem send (h : Produced cmds st) (hsem : Excluded st) (hpc : st.calls k = .writingCdrp)
    {v : BitVec 32} (hv : nxCdrpIsRsp v = false) :
    Produced cmds { st.goto k (.polling 0) with
      cdrp := ⟨v, .host k⟩
      inFlight := st.inFlight ++ [k] } := by
  have hnew : k ∉ st.inFlight := by
    intro hmem
    have hsent := (h.flight k hmem).1
    rw [hpc] at hsent
    cases hsent
  have hnone : st.produced k = none := by
    cases hregs : st.produced k with
    | none => rfl
    | some regs =>
      have hsent := h.answered k regs hregs
      rw [hpc] at hsent
      cases hsent
  -- no call listens while this one is inside
  have hquiet : ∀ l, (st.calls l).listening = false := fun l => by
    refine Bool.eq_false_iff.mpr fun hl => ?_
    obtain rfl := hsem.unique (show (st.calls k).inside = true by rw [hpc]; rfl)
      (Pc.inside_of_listening hl)
    rw [hpc] at hl
    cases hl
  have hwritten : Produced cmds { st with cdrp := ⟨v, .host k⟩ } :=
    { h with
      own := fun l hl => Bool.noConfusion ((hquiet l).symm.trans hl)
      pending := fun l hl => Bool.noConfusion ((hquiet l).symm.trans hl)
      held := h.held }
  have hgo : Produced cmds (CdrpState.goto { st with cdrp := ⟨v, .host k⟩ } k (.polling 0)) :=
    hwritten.goto (h.made k (by rw [hpc]; nofun)) (fun _ => rfl)
      (fun r hr => h.unread k r (by rw [hpc]; exact hr)) (fun _ => Or.inr ⟨hv, rfl⟩) nofun
  refine { hgo with
    nodup := ?_, flight := fun l hl => ?_, pending := hgo.pending, held := hgo.held }
  · refine List.nodup_append.mpr ⟨h.nodup, List.pairwise_singleton _ k, fun a ha b hb => ?_⟩
    rw [List.mem_singleton.mp hb]
    exact fun hak => hnew (hak ▸ ha)
  · rcases List.mem_append.mp hl with hl | hl
    · exact hgo.flight l hl
    · rw [List.mem_singleton.mp hl]
      refine ⟨?_, hnone⟩
      show (Function.update st.calls k (.polling 0) k).sent = true
      rw [Function.update_self]
      rfl

/-- A register has been read. -/
theorem holds_read {c : FwCmd} {out : List (BitVec 32)} {r : ArgReg} {rest : List ArgReg}
    (h : Holds st c k out (r :: rest)) : Holds st c k (out ++ [(st.arg r).value]) rest := by
  obtain ⟨regs, hregs, hvalues, read, hreads, rfl⟩ := h
  refine ⟨regs, hregs, fun q hq => hvalues q (List.mem_cons_of_mem _ hq), read ++ [r], ?_, ?_⟩
  · rw [hreads, List.append_assoc]
    rfl
  · rw [List.map_append, hvalues r List.mem_cons_self]
    rfl

theorem goes (h : Produced cmds st) (hsem : Excluded st)
    (hcond : Undisturbed cmds st (.step k)) (hgoes : Goes (cmds k) k st st') :
    Produced cmds st' := by
  have hmade : st.calls k ≠ .idle → k ∈ st.made := h.made k
  cases hgoes with
  | call hpc => exact h.call hpc
  | lock hpc hfree =>
    have hgo : Produced cmds (st.goto k .writingSign) :=
      h.goto (hmade (by rw [hpc]; nofun)) (by rw [hpc]; nofun)
        (fun r hr => absurd hr List.not_mem_nil) nofun nofun
    exact { hgo with pending := hgo.pending, held := hgo.held }
  | lockTimeout hpc =>
    refine h.goto (hmade (by rw [hpc]; nofun)) (fun _ => Pc.sent_afterwards _ _) (fun r hr => ?_)
      (fun hl => ?_) (fun out rest hp => ?_)
    · exact absurd (Pc.unread_afterwards hr) List.not_mem_nil
    · exact Bool.noConfusion (Agreed.afterwards_listening.1.symm.trans hl)
    · rw [Pc.progress_afterwards] at hp
      cases hp
  | lockRetry hpc =>
    exact h.goto (hmade (by rw [hpc]; nofun)) (by rw [hpc]; nofun)
      (fun r hr => absurd hr List.not_mem_nil) nofun nofun
  | sign hpc =>
    have hgo : Produced cmds (st.goto k (.writingArg .arg1)) :=
      h.goto (hmade (by rw [hpc]; nofun)) (by rw [hpc]; nofun)
        (fun r hr => absurd hr List.not_mem_nil) nofun nofun
    exact { hgo with pending := hgo.pending, held := hgo.held }
  | arg hpc => exact h.writeArg hpc (hcond _ (by rw [hpc]; rfl))
  | command hpc => exact h.send hsem hpc (not_isRsp_formCmd _)
  | pollTimeout hpc hi =>
    refine h.goto (hmade (by rw [hpc]; nofun)) (fun _ => rfl)
      (fun r hr => absurd hr List.not_mem_nil) nofun nofun
  | take hpc hi hrsp =>
    have hl : (st.calls k).listening = true := by
      rw [hpc]
      exact decide_eq_true hi
    have hholds := h.pending k hl (h.own k hl hrsp)
    have hgo : Produced cmds (st.goto k (onRsp st.cdrp.value)) := by
      refine h.goto (hmade (by rw [hpc]; nofun)) (fun _ => Pc.sent_onRsp _)
        (fun r hr => h.unread k r (by rw [hpc]; exact Pc.unread_onRsp hr))
        (fun _ => Or.inl hl) (fun out rest hp => ?_)
      obtain ⟨rfl, rfl⟩ := Pc.progress_onRsp hp
      exact hholds
    exact { hgo with pending := hgo.pending, held := hgo.held }
  | poll hpc hrsp =>
    refine h.goto (hmade (by rw [hpc]; nofun)) (fun _ => rfl)
      (fun r hr => h.unread k r (by rw [hpc]; exact hr)) (fun hl => Or.inl ?_) nofun
    rw [hpc]
    exact decide_eq_true (Nat.lt_of_succ_lt (of_decide_eq_true hl))
  | fail hpc =>
    refine h.goto (hmade (by rw [hpc]; nofun)) (fun _ => rfl) (fun r hr => ?_) nofun
      (fun out rest hp => ?_)
    · simp only [Pc.unread] at hr
      split at hr
      · exact h.unread k r (by rw [hpc]; exact hr)
      · exact absurd hr List.not_mem_nil
    · obtain ⟨rfl, rfl⟩ := Pc.progress_unlocking hp
      exact h.held k _ _ (by rw [hpc]; rfl)
  | unlock hpc =>
    rename_i rcode
    have hgo : Produced cmds (st.goto k ((cmds k).afterwards rcode)) :=
      h.goto (hmade (by rw [hpc]; nofun)) (fun _ => Pc.sent_afterwards _ _)
        (fun r hr => h.unread k r (by rw [hpc]; exact Pc.unread_afterwards hr))
        (fun hl => Bool.noConfusion (Agreed.afterwards_listening.1.symm.trans hl))
        (fun out rest hp => h.held k out rest (by rw [hpc, ← hp, Pc.progress_afterwards]))
    exact { hgo with pending := hgo.pending, held := hgo.held }
  | read hpc =>
    refine h.goto (hmade (by rw [hpc]; nofun)) (fun _ => rfl) (fun r hr => ?_) nofun
      (fun out rest hp => ?_)
    · apply h.unread k r
      rw [hpc]
      simp only [Pc.unread] at hr ⊢
      split at hr
      · rename_i hs
        rw [if_pos hs]
        exact List.mem_cons_of_mem _ hr
      · exact absurd hr List.not_mem_nil
    · simp only [Pc.progress] at hp
      split at hp
      · rename_i hs
        obtain ⟨rfl, rfl⟩ := Prod.mk.inj (Option.some.inj hp)
        apply holds_read
        exact h.held k _ _ (by rw [hpc]; exact if_pos hs)
      · cases hp
  | back hpc =>
    refine h.goto (hmade (by rw [hpc]; nofun)) (fun _ => rfl)
      (fun r hr => absurd hr List.not_mem_nil) nofun (fun out rest hp => ?_)
    exact h.held k out rest (by rw [hpc]; exact hp)

/-- The firmware writes an argument register. -/
theorem data (h : Produced cmds st) {place j : Nat} {r : ArgReg} {v : BitVec 32}
    (hj : st.inFlight[place]? = some j)
    (hcond : ∀ k ∈ st.made, r ∈ (st.calls k).unread (cmds k) → st.inFlight[place]? = some k) :
    Produced cmds { st with arg := Function.update st.arg r ⟨v, .firmware j⟩ } := by
  have hnone := (h.flight j (List.mem_of_getElem? hj)).2
  refine h.write rfl (fun l hl => ?_) (Or.inr hnone) (Or.inr hnone)
  have hl' := hcond l (h.made l (Pc.ne_idle_of_unread hl)) hl
  exact Option.some.inj (hl'.symm.trans hj)

/-- The firmware answers. -/
theorem answer (h : Produced cmds st) (hsem : Excluded st) {place j : Nat} {rsp : BitVec 32}
    (hj : st.inFlight[place]? = some j)
    (hcond : nxCdrpIsRsp rsp = true → ∀ k ∈ st.sem, (st.calls k).listening = true →
      st.inFlight[place]? = some k) :
    Produced cmds { st with
      cdrp := ⟨rsp, .firmware j⟩
      inFlight := st.inFlight.eraseIdx place
      produced := Function.update st.produced j (some fun r => (st.arg r).value) } := by
  obtain ⟨hsent, hnone⟩ := h.flight j (List.mem_of_getElem? hj)
  have hother : ∀ l, l ≠ j → Function.update st.produced j (some fun r => (st.arg r).value) l =
      st.produced l := fun l hlj => Function.update_of_ne hlj ..
  refine ⟨h.made, h.nodup.sublist (List.eraseIdx_sublist ..), fun l hl => ?_, fun l regs hl => ?_,
    h.unread, fun l hl hrsp => ?_, fun l hl hwriter => ?_, fun l out rest hl => ?_⟩
  · have hmem := List.mem_of_mem_eraseIdx hl
    refine ⟨(h.flight l hmem).1, ?_⟩
    show Function.update st.produced j _ l = none
    have hlj : l ≠ j := by
      rintro rfl
      obtain ⟨hlt, rfl⟩ := List.getElem?_eq_some_iff.mp hj
      rw [← h.nodup.erase_getElem place hlt] at hl
      exact h.nodup.not_mem_erase hl
    rw [hother l hlj]
    exact (h.flight l hmem).2
  · replace hl : Function.update st.produced j (some fun r => (st.arg r).value) l = some regs := hl
    by_cases hlj : l = j
    · exact hlj ▸ hsent
    · rw [hother l hlj] at hl
      exact h.answered l regs hl
  · have hl' := hcond hrsp l (hsem.holds l (Pc.inside_of_listening hl)) hl
    exact congrArg Writer.firmware (Option.some.inj (hj.symm.trans hl'))
  · obtain rfl := Writer.firmware.inj hwriter
    refine ⟨_, Function.update_self .., fun r _ => rfl, [], rfl, rfl⟩
  · obtain ⟨regs, hregs, hrest⟩ := h.held l out rest hl
    have hlj : l ≠ j := by
      rintro rfl
      rw [hnone] at hregs
      cases hregs
    exact ⟨regs, (hother l hlj).trans hregs, hrest⟩

/-- **Every step** that meets the condition keeps the invariant. -/
theorem step (h : Produced cmds st) (hsem : Excluded st) {a : CdrpAction}
    (hcond : Undisturbed cmds st a) (hstep : (cdrpMachine cmds).next st a = some st') :
    Produced cmds st' := by
  cases a with
  | step k => exact h.goes hsem hcond (CdrpState.callStep_goes hstep)
  | data place r v =>
    obtain ⟨j, hj, rfl⟩ := CdrpState.dataStep_cases hstep
    exact h.data hj hcond
  | answer place rsp =>
    obtain ⟨j, hj, rfl⟩ := CdrpState.answerStep_cases hstep
    exact h.answer hsem hj hcond

theorem init : Produced cmds initialCdrp := by
  refine ⟨nofun, List.nodup_nil, fun k hk => ?_, nofun, fun k r hr => ?_, nofun, nofun, nofun⟩
  · exact absurd hk List.not_mem_nil
  · exact absurd hr List.not_mem_nil

end Produced

/-- Any other write takes a register or a response from its owner. -/
theorem Owned.needs {cmds : Nat → FwCmd} {st st' : CdrpState} {a : CdrpAction}
    (hstep : (cdrpMachine cmds).next st a = some st') (h' : Owned cmds st') :
    Undisturbed cmds st a := by
  cases a with
  | step l =>
    intro r hr k _ hunread
    -- the call is about to write the register
    have hpc : st.calls l = .writingArg r := by
      cases hpc : st.calls l with
      | writingArg q =>
        rw [hpc] at hr
        rw [Option.some.inj hr]
      | _ =>
        rw [hpc] at hr
        cases hr
    by_contra hkl
    have hst' : st' = { st.goto l (afterArg r) with
        arg := Function.update st.arg r ⟨(cmds l).arg r, .host l⟩ } := by
      replace hstep : st.callStep (cmds l) l = some st' := hstep
      rw [CdrpState.callStep, hpc] at hstep
      exact (Option.some.inj hstep).symm
    have hcalls : st'.calls k = st.calls k := by
      rw [hst']
      exact Function.update_of_ne hkl ..
    have harg : st'.arg r = ⟨(cmds l).arg r, .host l⟩ := by
      rw [hst']
      exact Function.update_self ..
    have howner := h'.unread k r (hcalls ▸ hunread)
    rw [harg] at howner
    exact hkl (Option.some.inj howner).symm
  | data place r v =>
    intro k _ hunread
    obtain ⟨j, hj, rfl⟩ := CdrpState.dataStep_cases hstep
    have howner : (Function.update st.arg r ⟨v, .firmware j⟩ r).writer.call = some k :=
      h'.unread k r hunread
    rw [Function.update_self] at howner
    exact Option.some.inj howner ▸ hj
  | answer place rsp =>
    intro hrsp k _ hl
    obtain ⟨j, hj, rfl⟩ := CdrpState.answerStep_cases hstep
    obtain rfl := Writer.firmware.inj (h'.own k hl hrsp)
    exact hj

/-! ## Runs -/

/-- **Every query returns its own results** throughout a run just if no command other than the one
that is polled for is answered, and nobody else writes a register that a query has still to read.
It holds for any assignment of commands to calls, those without results among them, and for any
order of the accesses and of the firmware's writes. -/
theorem owned_iff (cmds : Nat → FwCmd) {l : List CdrpAction} {st : CdrpState}
    (h : (cdrpMachine cmds).run initialCdrp l = some st) :
    (∀ u, (cdrpMachine cmds).Visits initialCdrp l u → Owned cmds u) ↔
      ∀ u a, (cdrpMachine cmds).Takes initialCdrp l u a → Undisturbed cmds u a :=
  Machine.visits_iff_takes (K := fun u => Excluded u ∧ Produced cmds u) (fun _ hK => hK.2.owned)
    (fun _ _ _ hK hP hn => ⟨hK.1.step hn, hK.2.step hK.1 hP hn⟩)
    (fun _ _ _ _ hn hI => Owned.needs hn hI) ⟨Excluded.init, Produced.init⟩ h

/-- Two functions ask for the largest frame. -/
def queryMtus (k : Nat) : FwCmd := nxFwCmdQueryMaxMtu (BitVec.ofNat 32 k)

/-- The second query starts when the first has its result. -/
def orderedRun : List CdrpAction :=
  List.replicate 7 (.step 0) ++ [.data 0 .arg1 1500, .answer 0 nxCdrpRspOk] ++
    List.replicate 4 (.step 0) ++ List.replicate 7 (.step 1)

/-- The run meets the condition, and the largest frame comes back as the firmware has stored it. -/
theorem owned_iff_ordered :
    ∃ st, (cdrpMachine queryMtus).run initialCdrp orderedRun = some st ∧
      st.calls 0 = .returned nxRcodeSuccess [1500] ∧ st.calls 1 = .polling 0 ∧
      ∀ u, (cdrpMachine queryMtus).Visits initialCdrp orderedRun u → Owned queryMtus u := by
  have hrun : (((cdrpMachine queryMtus).guard (Undisturbed queryMtus)).run initialCdrp
      orderedRun).map (fun st => (st.calls 0, st.calls 1)) =
        some (.returned nxRcodeSuccess [1500], .polling 0) := by
    decide
  obtain ⟨st, hst, h⟩ := Option.map_eq_some_iff.mp hrun
  obtain ⟨hfirst, hsecond⟩ := Prod.mk.inj h
  have hst' := Machine.run_of_guard hst
  exact ⟨st, hst', hfirst, hsecond,
    (owned_iff queryMtus hst').mpr fun _ _ ht => Machine.takes_of_guard hst ht⟩

/-- The second query writes its arguments between the unlock and the read of the
first. -/
def overlappingRun : List CdrpAction :=
  List.replicate 7 (.step 0) ++ [.data 0 .arg1 1500, .answer 0 nxCdrpRspOk, .step 0, .step 0] ++
    List.replicate 4 (.step 1) ++ [.step 0, .step 0]

/-- The first query returns an argument of the second as the largest frame. -/
theorem result_overwritten :
    ∃ st, (cdrpMachine queryMtus).run initialCdrp overlappingRun = some st ∧
      ¬ Owned queryMtus st ∧ st.calls 0 = .returned nxRcodeSuccess [0] ∧
      (st.produced 0).map (fun regs => regs .arg1) = some 1500 := by
  have hrun : ((cdrpMachine queryMtus).run initialCdrp overlappingRun).map
      (fun st => (st.calls 0, (st.produced 0).map fun regs => regs .arg1)) =
        some (.returned nxRcodeSuccess [0], some 1500) := by
    decide
  obtain ⟨st, hst, h⟩ := Option.map_eq_some_iff.mp hrun
  obtain ⟨hcall, hproduced⟩ := Prod.mk.inj h
  refine ⟨st, hst, fun hgood => ?_, hcall, hproduced⟩
  obtain ⟨regs, hregs, hout⟩ := hgood.results 0 _ hcall
  rw [hregs] at hproduced
  have hvalue : regs .arg1 = 1500 := Option.some.inj hproduced
  have hread : [0] = [regs .arg1] := hout
  rw [hvalue] at hread
  exact absurd hread (by decide)

end Cdrp
end NxNic

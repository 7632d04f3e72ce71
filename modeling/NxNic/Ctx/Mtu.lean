import Mathlib.Algebra.GroupWithZero.Nat
import NxNic.Cdrp.Commands
import NxNic.Ctx.Destroy

/-! # Changing the MTU

`nx_nic_fw40_change_mtu` gives the new MTU to the firmware for one receive context after the other
and returns at the first command that fails, without a way back.  An entry without a context
counts as a command that fails.

What a command returns and what it does are two things.  `issue_cmd` returns an error without a
command where it does not get the semaphore; it gives up on an answer in the end, and the firmware
may have carried out the command by then or do so later; and where the response is `FAIL` it
returns what it finds in the first argument register, which may be 0.  So `MtuPlan` has, for every
entry, how the command goes for the driver (`CmdAnswer`) and, apart from that, whether the firmware
carries it out.

The state is `MtuPort`: the table of contexts, the MTU that the firmware has for each context, and
`netdev->mtu`.  `setMtuLoop_append` says where the loop stops and what has been carried out by
then, and `mtu_allOrNothing_iff` is the result: a call is all or nothing just if results and
effects agree (`MtuPort.Keeps`).
-/
namespace NxNic
namespace Ctx
open Cdrp
variable {k : Nat}

/-- What one command meets: whether the semaphore is had, the response with which `poll_rsp` ends
if it does not give up, and what is then in `NX_ARG1_CRB_OFFSET`. -/
structure CmdAnswer where
  locked : Bool
  rsp : Option (BitVec 32)
  arg1 : BitVec 32

/-- `poll_rsp`. -/
def CmdAnswer.pollRsp (a : CmdAnswer) : BitVec 32 := a.rsp.getD nxCdrpRspTimeout

/-- The result of `issue_cmd`. -/
def CmdAnswer.issueCmd (a : CmdAnswer) : BitVec 32 :=
  if a.locked = false then nxRcodeTimeout
  else if a.pollRsp = nxCdrpRspTimeout then nxRcodeTimeout
  else if a.pollRsp = nxCdrpRspFail then a.arg1
  else nxRcodeSuccess

/-- The contexts, the MTU that the firmware has for each of them once it is done with what it was
sent, and the two copies that the driver has of its own. -/
structure MtuPort (k : Nat) where
  nic : HostNic k
  ctxMtu : Fin (k + 1) → Nat
  netdevMtu : Int
  mtu : Int

/-- What a call meets: the version of the firmware, how the query goes, what is in `max_mtu`
before, the kind of board, how the command for each entry goes, and for which entries the firmware
carries out the command that it is sent. -/
structure MtuPlan (k : Nat) where
  major : Nat
  minor : Nat
  sub : Nat
  query : CmdAnswer
  uninitialized : Nat
  ssid : BitVec 32
  setMtu : Fin (k + 1) → CmdAnswer
  carriedOut : Fin (k + 1) → Bool

/-- What a call does that is seen from outside: the firmware takes the new MTU for the context in
an entry, or `netdev->mtu` is set. -/
inductive MtuEvent (k : Nat) where
  | accepted (i : Fin (k + 1))
  | netdevMtu (mtu : Int)
deriving DecidableEq

def eio : Int := -5
def einval : Int := -22

def nxRcodeInvalidArgs : BitVec 32 := 6

/-- `NX_FW_VERSION`. -/
def nxFwVersion (a b c : Nat) : Nat := a * 2 ^ 16 + b * 2 ^ 8 + c

def nxSsidNc375t : BitVec 32 := 0x1740103c

/-- `nx_fw_cmd_query_max_mtu`: `*max` is read whatever the result. -/
def MtuPlan.nxFwCmdQueryMaxMtu (plan : MtuPlan k) : BitVec 32 × Nat :=
  (plan.query.issueCmd, plan.query.arg1.toNat)

/-- `max_mtu` after the query, if there is one; `none` where it fails. -/
def MtuPlan.maxMtu (plan : MtuPlan k) : Option Nat :=
  if nxFwVersion 4 0 222 ≤ nxFwVersion plan.major plan.minor plan.sub then
    if plan.nxFwCmdQueryMaxMtu.1 ≠ nxRcodeSuccess then none else some plan.nxFwCmdQueryMaxMtu.2
  else some plan.uninitialized

/-- The firmware is sent the command for an entry, and carries it out. -/
def MtuPort.reaches (d : MtuPort k) (plan : MtuPlan k) (i : Fin (k + 1)) : Bool :=
  (d.nic.rxCtxs i).isSome && (plan.setMtu i).locked && plan.carriedOut i

/-- `nx_fw_cmd_set_mtu` for the context in an entry: its result, and what the firmware does. -/
def MtuPort.nxFwCmdSetMtu (d : MtuPort k) (plan : MtuPlan k) (newMtu : Nat) (i : Fin (k + 1)) :
    BitVec 32 × MtuPort k × List (MtuEvent k) :=
  match d.nic.rxCtxs i with
  | none => (nxRcodeInvalidArgs, d, [])
  | some _ =>
    ((plan.setMtu i).issueCmd,
      if d.reaches plan i then
        ({ d with ctxMtu := Function.update d.ctxMtu i newMtu }, [.accepted i])
      else (d, []))

/-- The loop of `nx_nic_fw40_change_mtu`, over entries. -/
def setMtuLoop (plan : MtuPlan k) (newMtu : Nat) :
    List (Fin (k + 1)) → MtuPort k → Bool × MtuPort k × List (MtuEvent k)
  | [], d => (true, d, [])
  | i :: rest, d =>
    match d.nxFwCmdSetMtu plan newMtu i with
    | (rcode, d, events) =>
      if rcode ≠ 0 then (false, d, events)
      else
        match setMtuLoop plan newMtu rest d with
        | (done, d, more) => (done, d, events ++ more)

/-- The end of `nx_nic_fw40_change_mtu`, by what its loop has come to. -/
def afterSetMtu (newMtu : Int) :
    Bool × MtuPort k × List (MtuEvent k) → Int × MtuPort k × List (MtuEvent k)
  | (false, d, events) => (eio, d, events)
  | (true, d, events) =>
    (0, { d with netdevMtu := newMtu, mtu := newMtu }, events ++ [.netdevMtu newMtu])

/-- `nx_nic_fw40_change_mtu`. -/
def MtuPort.nxNicFw40ChangeMtu (d : MtuPort k) (plan : MtuPlan k) (newMtu : Int) :
    Int × MtuPort k × List (MtuEvent k) :=
  match plan.maxMtu with
  | none => (eio, d, [])
  | some maxMtu =>
    if plan.ssid = nxSsidNc375t ∧ 1500 < newMtu then (einval, d, [])
    else if newMtu < 0 ∨ maxMtu < newMtu then (einval, d, [])
    else afterSetMtu newMtu (setMtuLoop plan newMtu.toNat
      ((List.finRange (k + 1)).take d.nic.activeRxCtxs) d)

/-- A call on `d` has come to a result that is all or nothing: it is 0 just if the firmware has
taken the new MTU for every context and `netdev->mtu` is set, and an error leaves all as it was. -/
structure MtuPort.Clean (d : MtuPort k) (newMtu : Int)
    (r : Int × MtuPort k × List (MtuEvent k)) : Prop where
  zero_iff : r.1 = 0 ↔ (∀ i, (d.nic.rxCtxs i).isSome = true → .accepted i ∈ r.2.2) ∧
    .netdevMtu newMtu ∈ r.2.2
  changed : r.1 = 0 → r.2.1.netdevMtu = newMtu ∧
    ∀ i, (d.nic.rxCtxs i).isSome = true → r.2.1.ctxMtu i = newMtu.toNat
  unchanged : r.1 ≠ 0 → r.2.1.netdevMtu = d.netdevMtu ∧
    ∀ i, (d.nic.rxCtxs i).isSome = true → r.2.1.ctxMtu i = d.ctxMtu i

/-- **The property** of a call. -/
def MtuPort.AllOrNothing (d : MtuPort k) (plan : MtuPlan k) (newMtu : Int) : Prop :=
  d.Clean newMtu (d.nxNicFw40ChangeMtu plan newMtu)

/-! ## The condition -/

/-- The call returns before it gives anything to the firmware. -/
def MtuPlan.Rejects (plan : MtuPlan k) (newMtu : Int) : Prop :=
  ∀ maxMtu ∈ plan.maxMtu,
    plan.ssid = nxSsidNc375t ∧ 1500 < newMtu ∨ newMtu < 0 ∨ (maxMtu : Int) < newMtu

/-- There is a context in the entry, and the command for it returns success. -/
def MtuPort.Takes (d : MtuPort k) (plan : MtuPlan k) (i : Fin (k + 1)) : Prop :=
  (d.nic.rxCtxs i).isSome = true ∧ (plan.setMtu i).issueCmd = nxRcodeSuccess

/-- **The condition**: where the commands for as many entries as there are contexts all return
success, the firmware has carried out all of them; and where one is the first that does not, those
that the firmware has carried out, this one among them, were for contexts with that MTU already. -/
def MtuPort.Keeps (d : MtuPort k) (plan : MtuPlan k) (newMtu : Int) : Prop :=
  plan.Rejects newMtu ∨
    ((∀ i : Fin (k + 1), i.val < d.nic.activeRxCtxs → d.Takes plan i) →
        ∀ i : Fin (k + 1), i.val < d.nic.activeRxCtxs → d.reaches plan i = true) ∧
      ∀ j : Fin (k + 1), j.val < d.nic.activeRxCtxs → (∀ i < j, d.Takes plan i) →
        ¬d.Takes plan j → ∀ i ≤ j, d.reaches plan i = true → d.ctxMtu i = newMtu.toNat

/-! ## The loop -/

section
variable {d : MtuPort k} {plan : MtuPlan k} {newMtu : Nat} {l : List (Fin (k + 1))}

/-- The port once the firmware has taken the new MTU for some entries. -/
def MtuPort.setAll (d : MtuPort k) (newMtu : Nat) (l : List (Fin (k + 1))) : MtuPort k :=
  { d with ctxMtu := fun i => if i ∈ l then newMtu else d.ctxMtu i }

theorem MtuPort.setAll_nil (d : MtuPort k) (newMtu : Nat) : d.setAll newMtu [] = d := by
  have hsame : (fun i => if i ∈ ([] : List (Fin (k + 1))) then newMtu else d.ctxMtu i) =
      d.ctxMtu := funext fun i => if_neg List.not_mem_nil
  rw [setAll, hsame]

theorem MtuPort.setAll_cons (d : MtuPort k) (newMtu : Nat) (i : Fin (k + 1))
    (l : List (Fin (k + 1))) :
    ({ d with ctxMtu := Function.update d.ctxMtu i newMtu } : MtuPort k).setAll newMtu l =
      d.setAll newMtu (i :: l) := by
  have hsame : (fun j => if j ∈ l then newMtu else Function.update d.ctxMtu i newMtu j) =
      fun j => if j ∈ i :: l then newMtu else d.ctxMtu j := by
    funext j
    by_cases hj : j = i
    · subst hj
      rw [Function.update_self, ite_self, if_pos List.mem_cons_self]
    · rw [Function.update_of_ne hj]
      exact if_congr (List.mem_cons.trans (or_iff_right hj)).symm rfl rfl
  rw [setAll, hsame, setAll]

/-- **One command**: the firmware carries it out or not, whatever it returns. -/
theorem nxFwCmdSetMtu_eq (d : MtuPort k) (plan : MtuPlan k) (newMtu : Nat) (i : Fin (k + 1)) :
    ∃ rcode, (rcode = 0 ↔ d.Takes plan i) ∧ d.nxFwCmdSetMtu plan newMtu i =
      (rcode, d.setAll newMtu ([i].filter (d.reaches plan)),
        ([i].filter (d.reaches plan)).map .accepted) := by
  rw [MtuPort.nxFwCmdSetMtu]
  cases hentry : d.nic.rxCtxs i with
  | none =>
    have hreaches : ¬d.reaches plan i = true := by rw [MtuPort.reaches, hentry]; exact nofun
    refine ⟨nxRcodeInvalidArgs, iff_of_false (by decide) fun htakes => ?_, ?_⟩
    · rw [MtuPort.Takes, hentry] at htakes
      exact absurd htakes.1 nofun
    · rw [List.filter_cons_of_neg hreaches, List.filter_nil, MtuPort.setAll_nil]
      rfl
  | some c =>
    refine ⟨(plan.setMtu i).issueCmd, ?_, ?_⟩
    · rw [MtuPort.Takes, hentry]
      exact (and_iff_right rfl).symm
    · dsimp only
      by_cases hreaches : d.reaches plan i = true
      · rw [if_pos hreaches, List.filter_cons_of_pos hreaches, List.filter_nil,
          ← MtuPort.setAll_cons, MtuPort.setAll_nil]
        rfl
      · rw [if_neg hreaches, List.filter_cons_of_neg hreaches, List.filter_nil,
          MtuPort.setAll_nil]
        rfl

theorem MtuPort.setAll_append (d : MtuPort k) (newMtu : Nat) (l l' : List (Fin (k + 1))) :
    (d.setAll newMtu l).setAll newMtu l' = d.setAll newMtu (l ++ l') := by
  have hsame : (fun i => if i ∈ l' then newMtu else if i ∈ l then newMtu else d.ctxMtu i) =
      fun i => if i ∈ l ++ l' then newMtu else d.ctxMtu i := by
    funext i
    by_cases hi : i ∈ l'
    · rw [if_pos hi, if_pos (List.mem_append_right l hi)]
    · rw [if_neg hi]
      exact if_congr (List.mem_append.trans (or_iff_left hi)).symm rfl rfl
  exact congrArg (fun ctxMtu => ({ d with ctxMtu := ctxMtu } : MtuPort k)) hsame

/-- The entries for which a command is issued: those up to the first for which it does not return
success, and that one. -/
theorem setMtuLoop_append (newMtu : Nat) (h : ∀ i ∈ l, d.Takes plan i)
    (rest : List (Fin (k + 1))) (hrest : ∀ j ∈ rest.head?, ¬d.Takes plan j) :
    setMtuLoop plan newMtu (l ++ rest) d =
      (rest.isEmpty, d.setAll newMtu ((l ++ rest.take 1).filter (d.reaches plan)),
        ((l ++ rest.take 1).filter (d.reaches plan)).map .accepted) := by
  induction l generalizing d with
  | nil =>
    cases rest with
    | nil =>
      rw [List.append_nil, List.take_nil, List.append_nil, List.filter_nil, MtuPort.setAll_nil]
      rfl
    | cons j rest =>
      obtain ⟨rcode, hrcode, heq⟩ := nxFwCmdSetMtu_eq d plan newMtu j
      rw [List.nil_append, setMtuLoop, heq]
      dsimp only
      rw [if_pos fun hzero => hrest j rfl (hrcode.mp hzero)]
      rfl
  | cons i l ih =>
    obtain ⟨rcode, hrcode, heq⟩ := nxFwCmdSetMtu_eq d plan newMtu i
    -- what is carried out does not depend on the MTUs that the firmware has
    have hnext : setMtuLoop plan newMtu (l ++ rest)
        (d.setAll newMtu ([i].filter (d.reaches plan))) =
          (rest.isEmpty, d.setAll newMtu (([i] ++ (l ++ rest.take 1)).filter (d.reaches plan)),
            ((l ++ rest.take 1).filter (d.reaches plan)).map .accepted) := by
      rw [List.filter_append, ← MtuPort.setAll_append]
      exact ih (fun j hj => h j (List.mem_cons_of_mem i hj)) hrest
    rw [List.cons_append, setMtuLoop, heq]
    dsimp only
    rw [if_neg (not_not_intro (hrcode.mpr (h i List.mem_cons_self))), hnext]
    dsimp only
    rw [← List.map_append, ← List.filter_append]
    rfl

/-- The entries up to entry `j` and those from there on. -/
theorem take_finRange_split {j : Fin (k + 1)} {n : Nat} (hj : j.val < n) : ∃ rest,
    (List.finRange (k + 1)).take n = (List.finRange (k + 1)).take j.val ++ j :: rest := by
  have hlength : j.val < ((List.finRange (k + 1)).take n).length := by
    rw [List.length_take, List.length_finRange]
    exact Nat.lt_min.mpr ⟨hj, j.isLt⟩
  refine ⟨((List.finRange (k + 1)).take n).drop (j.val + 1), ?_⟩
  have hsplit := List.take_append_drop j.val ((List.finRange (k + 1)).take n)
  rw [List.drop_eq_getElem_cons hlength, List.getElem_take, List.getElem_finRange, List.take_take,
    Nat.min_eq_left (Nat.le_of_lt hj)] at hsplit
  exact hsplit.symm

/-- All of the entries take the new MTU, or there is a first one that does not. -/
theorem takes_or_first (d : MtuPort k) (plan : MtuPlan k) (n : Nat) :
    (∀ i : Fin (k + 1), i.val < n → d.Takes plan i) ∨
      ∃ j : Fin (k + 1), j.val < n ∧ ¬d.Takes plan j ∧ ∀ i < j, d.Takes plan i := by
  induction n with
  | zero => exact .inl fun i hi => absurd hi (Nat.not_lt_zero i)
  | succ n ih =>
    rcases ih with hall | ⟨j, hj, hnot, hbefore⟩
    · by_cases hn : ∃ j : Fin (k + 1), j.val = n ∧ ¬d.Takes plan j
      · obtain ⟨j, rfl, hnot⟩ := hn
        exact .inr ⟨j, Nat.lt_succ_self _, hnot, fun i hi => hall i hi⟩
      · refine .inl fun i hi => ?_
        rcases Nat.lt_succ_iff_lt_or_eq.mp hi with hlt | heq
        · exact hall i hlt
        · exact Classical.byContradiction fun hnot => hn ⟨i, heq, hnot⟩
    · exact .inr ⟨j, Nat.lt_succ_of_lt hj, hnot, hbefore⟩

end

/-! ## The call -/

section
variable {d : MtuPort k} {plan : MtuPlan k} {newMtu : Int}

theorem change_rejects (h : plan.Rejects newMtu) :
    ∃ rc, rc ≠ 0 ∧ d.nxNicFw40ChangeMtu plan newMtu = (rc, d, []) := by
  rw [MtuPort.nxNicFw40ChangeMtu]
  cases hmax : plan.maxMtu with
  | none => exact ⟨eio, by decide, rfl⟩
  | some maxMtu =>
    dsimp only
    by_cases hssid : plan.ssid = nxSsidNc375t ∧ 1500 < newMtu
    · exact ⟨einval, by decide, if_pos hssid⟩
    · rw [if_neg hssid, if_pos ((h maxMtu hmax).resolve_left hssid)]
      exact ⟨einval, by decide, rfl⟩

theorem change_goes (h : ¬plan.Rejects newMtu) :
    d.nxNicFw40ChangeMtu plan newMtu = afterSetMtu newMtu (setMtuLoop plan newMtu.toNat
      ((List.finRange (k + 1)).take d.nic.activeRxCtxs) d) := by
  rw [MtuPort.nxNicFw40ChangeMtu]
  cases hmax : plan.maxMtu with
  | none =>
    refine absurd (fun m hm => ?_) h
    rw [hmax] at hm
    exact absurd hm.symm (Option.some_ne_none m)
  | some maxMtu =>
    have hneg : ¬(plan.ssid = nxSsidNc375t ∧ 1500 < newMtu ∨ newMtu < 0 ∨ maxMtu < newMtu) := by
      intro hrejects
      refine h fun m hm => ?_
      obtain rfl := Option.some.inj (hmax.symm.trans hm)
      exact hrejects
    dsimp only
    rw [if_neg fun hssid => hneg (.inl hssid), if_neg fun hrange => hneg (.inr hrange)]

/-- Every command returns success. -/
theorem clean_all (hall : ∀ i : Fin (k + 1), i.val < d.nic.activeRxCtxs → d.Takes plan i) :
    d.Clean newMtu (afterSetMtu newMtu (setMtuLoop plan newMtu.toNat
      ((List.finRange (k + 1)).take d.nic.activeRxCtxs) d)) ↔
      ∀ i : Fin (k + 1), i.val < d.nic.activeRxCtxs → d.reaches plan i = true := by
  have hpacked : d.nic.Packed := fun i hi => (hall i hi).1
  have hloop := setMtuLoop_append newMtu.toNat
    (fun i hi => hall i (Bits.mem_take_finRange.mp hi)) [] fun j hj => absurd hj nofun
  rw [List.append_nil, List.take_nil, List.append_nil] at hloop
  rw [hloop]
  constructor
  · intro hclean i hi
    rcases List.mem_append.mp ((hclean.zero_iff.mp rfl).1 i (hall i hi).1) with hmem | hmem
    · obtain ⟨i', hi', heq⟩ := List.mem_map.mp hmem
      cases heq
      exact (List.mem_filter.mp hi').2
    · cases List.mem_singleton.mp hmem
  · intro hreaches
    have hmem : ∀ i, (d.nic.rxCtxs i).isSome = true →
        i ∈ ((List.finRange (k + 1)).take d.nic.activeRxCtxs).filter (d.reaches plan) :=
      fun i hi => List.mem_filter.mpr
        ⟨Bits.mem_take_finRange.mpr (hpacked.lt hi), hreaches i (hpacked.lt hi)⟩
    refine ⟨iff_of_true rfl ⟨fun i hi => ?_, List.mem_append_right _ List.mem_cons_self⟩,
      fun _ => ⟨rfl, fun i hi => if_pos (hmem i hi)⟩, fun hrc => absurd rfl hrc⟩
    exact List.mem_append_left _ (List.mem_map_of_mem (hmem i hi))

/-- The first command that does not return success. -/
theorem clean_first {j : Fin (k + 1)} (hj : j.val < d.nic.activeRxCtxs) (hnot : ¬d.Takes plan j)
    (hbefore : ∀ i < j, d.Takes plan i) :
    d.Clean newMtu (afterSetMtu newMtu (setMtuLoop plan newMtu.toNat
      ((List.finRange (k + 1)).take d.nic.activeRxCtxs) d)) ↔
      ∀ i ≤ j, d.reaches plan i = true → d.ctxMtu i = newMtu.toNat := by
  have heio : eio ≠ 0 := by decide
  obtain ⟨rest, hsplit⟩ := take_finRange_split hj
  have hloop := setMtuLoop_append newMtu.toNat
    (fun i hi => hbefore i (Bits.mem_take_finRange.mp hi)) (j :: rest)
    fun i hi => Option.some.inj hi ▸ hnot
  have hmem : ∀ i, i ∈ (List.finRange (k + 1)).take j.val ++ (j :: rest).take 1 ↔ i ≤ j := by
    intro i
    refine List.mem_append.trans (Iff.trans (or_congr Bits.mem_take_finRange List.mem_singleton) ?_)
    exact (le_iff_lt_or_eq (a := i) (b := j)).symm
  rw [hsplit, hloop]
  constructor
  · intro hclean i hi hreaches
    have hlive : (d.nic.rxCtxs i).isSome = true :=
      (Bool.and_eq_true_iff.mp (Bool.and_eq_true_iff.mp hreaches).1).1
    have hsame := (hclean.unchanged heio).2 i hlive
    exact hsame.symm.trans (if_pos (List.mem_filter.mpr ⟨(hmem i).mpr hi, hreaches⟩))
  · intro hold
    refine ⟨iff_of_false heio ?_, fun hrc => absurd hrc heio, fun _ => ⟨rfl, fun i _ => ?_⟩⟩
    · rintro ⟨-, hset⟩
      obtain ⟨i, -, hi⟩ := List.mem_map.mp hset
      cases hi
    · show (if i ∈ _ then _ else _) = _
      split
      · rename_i hi
        exact (hold i ((hmem i).mp (List.mem_filter.mp hi).1) (List.mem_filter.mp hi).2).symm
      · rfl

end

/-- **Changing the MTU is all or nothing** just under the condition: for every table of contexts,
with or without holes, every requested MTU, and every way in which each of the commands may go for
the driver and for the firmware. -/
theorem mtu_allOrNothing_iff (d : MtuPort k) (plan : MtuPlan k) (newMtu : Int) :
    d.AllOrNothing plan newMtu ↔ d.Keeps plan newMtu := by
  rw [MtuPort.AllOrNothing, MtuPort.Keeps]
  by_cases hrejects : plan.Rejects newMtu
  · obtain ⟨rc, hrc, hres⟩ := change_rejects (d := d) hrejects
    rw [hres]
    refine iff_of_true ⟨iff_of_false hrc fun h => absurd h.2 List.not_mem_nil,
      fun h => absurd h hrc, fun _ => ⟨rfl, fun _ _ => rfl⟩⟩ (.inl hrejects)
  · rw [change_goes hrejects, or_iff_right hrejects]
    rcases takes_or_first d plan d.nic.activeRxCtxs with hall | ⟨j, hj, hnot, hbefore⟩
    · rw [clean_all hall]
      exact ⟨fun hreaches => ⟨fun _ => hreaches, fun j hj _ hnot => absurd (hall j hj) hnot⟩,
        fun hkeeps => hkeeps.1 hall⟩
    · rw [clean_first hj hnot hbefore]
      constructor
      · intro hold
        refine ⟨fun hall => absurd (hall j hj) hnot, fun j' hj' hbefore' hnot' => ?_⟩
        have heq : j' = j := le_antisymm (not_lt.mp fun hlt => hnot (hbefore' j hlt))
          (not_lt.mp fun hlt => hnot' (hbefore j' hlt))
        exact heq ▸ hold
      · exact fun hkeeps => hkeeps.2 j hj hbefore hnot

/-- A port with two contexts, and a firmware that takes the command for the first of them and
answers that for the second with `FAIL` and an error. -/
def twoContexts : MtuPort 1 :=
  ⟨⟨fun i => some ⟨100 + i, nxHostCtxStateActive⟩, none, none, none, .adapterUpMagic⟩,
    fun _ => 1500, 1500, 1500⟩

def firstTaken : MtuPlan 1 :=
  ⟨4, 0, 556, ⟨true, some nxCdrpRspOk, 9600⟩, 0, 0,
    fun i => ⟨true, some (if i.val = 0 then nxCdrpRspOk else nxCdrpRspFail), 1⟩,
    fun i => i.val = 0⟩

/-- The first context is left with the new MTU. -/
theorem mtu_changed_for_one : ¬∀ newMtu, twoContexts.AllOrNothing firstTaken newMtu := by
  intro hall
  have hres : (twoContexts.nxNicFw40ChangeMtu firstTaken 9000).1 = eio ∧
      (twoContexts.nxNicFw40ChangeMtu firstTaken 9000).2.1.ctxMtu 0 = 9000 := by
    decide +kernel
  have hsame := ((hall 9000).unchanged (hres.1 ▸ by decide)).2 0 rfl
  exact absurd (hres.2.symm.trans hsame) (by decide)

end Ctx
end NxNic

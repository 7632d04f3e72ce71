import Mathlib.Logic.Function.Basic
import NxNic.Lib.Machine

/-! # The interrupt of a status ring and its poll routine

The card sends one interrupt after the host has written 1 to the interrupt register of a
ring (`unm_nic_enable_int`) and there are messages.  The handler schedules
`nx_nic_poll_sts`, which processes messages up to its weight; when there were fewer it
gives up `NAPI_STATE_SCHED` and enables the interrupt again.  `unm_nic_poll_controller`
calls the handler without an interrupt, and `unm_nic_open`, `unm_nic_close` and
`unm_nic_set_mac` switch the ring on and off meanwhile, with `nx_napi_disable` waiting for
the poll but not for what it does afterwards.  This is with MSI or MSI-X interrupts, and no
callback for LSA registered.

The state (`NapiRing`) has the messages on the ring, the interrupt, `NAPI_STATE_SCHED`, where
each CPU is in the poll routine, and what is being done to the interface.  A step is one access
of the card, of a CPU or of those who switch the ring.

A message is not lost as long as somebody will look at the ring: `Token` is the card with its
interrupt enabled, an interrupt on its way, a CPU that polls, or one that is about to enable the
interrupt.  That there is one token while the ring is up, and one CPU at most that has the ring
(`Owned`), is the invariant of all runs, and `napi_run` is what it says.

`napi_quiet` is the other half, that the token leads somewhere: from each state that is reached the
card and the CPUs have steps that empty the ring and leave its interrupt enabled.
-/
namespace NxNic
namespace Rx

/-- `UNM_NETDEV_WEIGHT` -/
def unmNetdevWeight : Nat := 256

/-! ## The machine -/

/-- Where a CPU is in the poll routine of the ring. -/
inductive PollPc where
  | out
  /-- On the list of polls. -/
  | queued
  /-- In `unm_process_rcv_ring`. -/
  | processing (workDone : Nat)
  /-- Past it. -/
  | processed (workDone : Nat)
deriving DecidableEq

/-- Why the ring is switched off. -/
inductive Off where
  | close
  | setMac
deriving DecidableEq

/-- What is done to the interface. -/
inductive Phase where
  | down
  /-- Before `nx_napi_enable`. -/
  | opening
  /-- Before `unm_nic_enable_all_int`. -/
  | enabling
  | up
  /-- Before `unm_nic_disable_all_int`. -/
  | disabling (off : Off)
  /-- Before `nx_napi_disable`. -/
  | stopping (off : Off)
  /-- In `nx_napi_disable`, which waits for the poll. -/
  | waiting (off : Off)
deriving DecidableEq

/-- `netif_running` -/
def Phase.running : Phase → Bool
  | .down | .disabling .close | .stopping .close | .waiting .close => false
  | _ => true

/-- `napi_disable_pending` -/
def Phase.pending : Phase → Bool
  | .waiting _ => true
  | _ => false

/-- `NAPI_STATE_SCHED` is taken by `nx_napi_disable`. -/
def Phase.HoldsBit (p : Phase) : Prop := p = .down ∨ p = .opening

instance : DecidablePred Phase.HoldsBit := fun _ => inferInstanceAs (Decidable (_ ∨ _))

/-- A status ring, its interrupt and the CPUs that poll it. -/
structure NapiRing where
  /-- The interrupt register is 1, and no interrupt has been sent since. -/
  armed : Bool
  inFlight : Nat
  /-- The messages in the ring. -/
  work : Nat
  /-- `NAPI_STATE_SCHED` -/
  sched : Bool
  cpus : Nat → PollPc
  /-- The polls past `napi_complete`, before `unm_nic_enable_int`. -/
  tails : Nat
  phase : Phase

/-- The steps of the card, of the CPUs and of those who switch the ring on and off. -/
inductive NapiAction where
  | post
  | fire
  | intr (cpu : Nat)
  | pollController (cpu : Nat)
  | poll (cpu : Nat)
  | process (cpu : Nat)
  | leave (cpu : Nat)
  | finish (cpu : Nat)
  | enable
  | unmNicOpen
  | unmNicClose
  | unmNicSetMac
  | admin

namespace NapiRing
variable (s : NapiRing)

def goto (cpu : Nat) (pc : PollPc) : NapiRing := { s with cpus := Function.update s.cpus cpu pc }

/-- `napi_schedule` -/
def napiSchedule (cpu : Nat) : NapiRing :=
  if s.phase.pending = false ∧ s.sched = false then { s.goto cpu .queued with sched := true }
  else s

/-- `nx_nic_msix_intr` and `nx_nic_msi_intr` -/
def nxNicMsixIntr (cpu : Nat) : NapiRing :=
  if s.phase.running = true then s.napiSchedule cpu else s

/-- `napi_complete` -/
def napiComplete (cpu : Nat) : NapiRing := { s.goto cpu .out with sched := false }

/-- What the poll routine returns decides who completes the poll: the routine itself, or
`net_rx_action`, which puts it on the list again unless `nx_napi_disable` waits. -/
def finishPoll (cpu workDone : Nat) : NapiRing :=
  if unmNetdevWeight ≤ workDone then
    if s.phase.pending = true then s.napiComplete cpu else s.goto cpu .queued
  else { s.napiComplete cpu with tails := s.tails + 1 }

/-- The next step of `unm_nic_open`, `unm_nic_close` or `unm_nic_set_mac`. -/
def adminStep : Option NapiRing :=
  match s.phase with
  | .opening => some { s with sched := false, phase := .enabling }
  | .enabling => some { s with armed := true, phase := .up }
  | .disabling off => some { s with armed := false, phase := .stopping off }
  | .stopping off => some { s with phase := .waiting off }
  | .waiting off =>
    if s.sched = false then
      some { s with sched := true, phase := if off = .close then .down else .opening }
    else none
  | .down | .up => none

def step : NapiAction → Option NapiRing
  | .post => some { s with work := s.work + 1 }
  | .fire =>
    if s.armed = true ∧ 0 < s.work then some { s with armed := false, inFlight := s.inFlight + 1 }
    else none
  | .intr cpu =>
    if 0 < s.inFlight then some ({ s with inFlight := s.inFlight - 1 }.nxNicMsixIntr cpu) else none
  | .pollController cpu => some (s.nxNicMsixIntr cpu)
  | .poll cpu => if s.cpus cpu = .queued then some (s.goto cpu (.processing 0)) else none
  | .process cpu =>
    match s.cpus cpu with
    | .processing k =>
      if k < unmNetdevWeight ∧ 0 < s.work then
        some { s.goto cpu (.processing (k + 1)) with work := s.work - 1 }
      else none
    | _ => none
  | .leave cpu =>
    match s.cpus cpu with
    | .processing k =>
      if k < unmNetdevWeight ∧ 0 < s.work then none else some (s.goto cpu (.processed k))
    | _ => none
  | .finish cpu =>
    match s.cpus cpu with
    | .processed k => some (s.finishPoll cpu k)
    | _ => none
  | .enable =>
    if 0 < s.tails then some { s with armed := true, tails := s.tails - 1 } else none
  | .unmNicOpen => if s.phase = .down then some { s with phase := .opening } else none
  | .unmNicClose => if s.phase = .up then some { s with phase := .disabling .close } else none
  | .unmNicSetMac => if s.phase = .up then some { s with phase := .disabling .setMac } else none
  | .admin => s.adminStep

end NapiRing

def napiMachine : Machine NapiRing NapiAction where
  next s := s.step

/-- The ring before it is first switched on. -/
def NapiRing.initial : NapiRing where
  armed := false
  inFlight := 0
  work := 0
  sched := true
  cpus := fun _ => .out
  tails := 0
  phase := .down

/-! ## One poll, and no interrupt lost -/

namespace NapiRing
variable (s : NapiRing)

/-- The CPU polls the ring, or is going to. -/
def Busy (cpu : Nat) : Prop := s.cpus cpu ≠ .out

/-- Somebody will look at the ring: the card when there are messages, or a CPU. -/
def Token : Prop := s.armed = true ∨ 0 < s.inFlight ∨ 0 < s.tails ∨ ∃ cpu, s.Busy cpu

/-- One CPU at most has the ring, and `NAPI_STATE_SCHED` tells whether it is taken. -/
structure Owned : Prop where
  single : ∀ c d, s.Busy c → s.Busy d → c = d
  holder : s.sched = true ↔ (∃ c, s.Busy c) ∨ s.phase.HoldsBit
  apart : s.phase.HoldsBit → ∀ c, ¬ s.Busy c
  bound : ∀ c k, s.cpus c = .processing k → k ≤ unmNetdevWeight

variable {s} {cpu : Nat}

theorem cpus_goto (pc : PollPc) : (s.goto cpu pc).cpus = Function.update s.cpus cpu pc := rfl

theorem busy_goto {pc : PollPc} {c : Nat} :
    (s.goto cpu pc).Busy c ↔ if c = cpu then pc ≠ .out else s.Busy c := by
  rw [Busy, cpus_goto, Function.update_apply]
  split <;> rfl

theorem busy_of_eq {pc : PollPc} (h : s.cpus cpu = pc) (hpc : pc ≠ .out) : s.Busy cpu := by
  rw [Busy, h]
  exact hpc

/-- What nobody looks at when it is asked who has the ring. -/
theorem Owned.of_same {t : NapiRing} (h : s.Owned) (hcpus : t.cpus = s.cpus)
    (hsched : t.sched = s.sched) (hbit : t.phase.HoldsBit ↔ s.phase.HoldsBit) : t.Owned := by
  have hbusy : ∀ c, t.Busy c ↔ s.Busy c := fun c => by rw [Busy, hcpus, Busy]
  refine ⟨?_, ?_, ?_, ?_⟩
  · intro c d hc hd
    exact h.single c d ((hbusy c).mp hc) ((hbusy d).mp hd)
  · rw [hsched, hbit, h.holder]
    exact or_congr (exists_congr fun c => (hbusy c).symm) Iff.rfl
  · intro ht c hc
    exact h.apart (hbit.mp ht) c ((hbusy c).mp hc)
  · rw [hcpus]
    exact h.bound

/-- The CPU that has the ring goes on. -/
theorem Owned.goto (h : s.Owned) (hbusy : s.Busy cpu) {pc : PollPc} (hpc : pc ≠ .out)
    (hbound : ∀ k, pc = .processing k → k ≤ unmNetdevWeight) : (s.goto cpu pc).Owned := by
  have hsame : ∀ c, (s.goto cpu pc).Busy c ↔ s.Busy c := by
    intro c
    rw [busy_goto]
    split
    · rename_i hc
      exact iff_of_true hpc (hc ▸ hbusy)
    · exact Iff.rfl
  refine ⟨?_, ?_, ?_, ?_⟩
  · intro c d hc hd
    exact h.single c d ((hsame c).mp hc) ((hsame d).mp hd)
  · refine h.holder.trans (or_congr ?_ Iff.rfl)
    exact exists_congr fun c => (hsame c).symm
  · intro hbit c hc
    exact h.apart hbit c ((hsame c).mp hc)
  · intro c k hk
    rw [cpus_goto, Function.update_apply] at hk
    split at hk
    · exact hbound k hk
    · exact h.bound c k hk

/-- Nobody has the ring after its poll is complete. -/
theorem Owned.not_busy_napiComplete (h : s.Owned) (hbusy : s.Busy cpu) (c : Nat) :
    ¬ (s.napiComplete cpu).Busy c := by
  intro hc
  have hgoto : (s.goto cpu .out).Busy c := hc
  rw [busy_goto] at hgoto
  split at hgoto
  · exact hgoto rfl
  · rename_i hne
    exact hne (h.single c cpu hgoto hbusy)

theorem Owned.napiComplete (h : s.Owned) (hbusy : s.Busy cpu) : (s.napiComplete cpu).Owned := by
  have hnone := h.not_busy_napiComplete hbusy
  have hbit : ¬ s.phase.HoldsBit := fun hbit => h.apart hbit cpu hbusy
  refine ⟨?_, ?_, ?_, ?_⟩
  · intro c d hc
    exact absurd hc (hnone c)
  · refine iff_of_false Bool.false_ne_true ?_
    rintro (⟨c, hc⟩ | hbit')
    · exact hnone c hc
    · exact hbit hbit'
  · intro _
    exact hnone
  · intro c k hk
    exact absurd (busy_of_eq hk PollPc.noConfusion) (hnone c)

/-- The ring is scheduled on a CPU, if nobody has it. -/
theorem Owned.napiSchedule (h : s.Owned) (cpu : Nat) : (s.napiSchedule cpu).Owned := by
  rw [NapiRing.napiSchedule]
  split
  · rename_i hfree
    have hnone : ¬ ((∃ c, s.Busy c) ∨ s.phase.HoldsBit) := by
      rw [← h.holder, hfree.2]
      exact Bool.false_ne_true
    have hbusy : ∀ c, (s.goto cpu .queued).Busy c ↔ c = cpu := by
      intro c
      rw [busy_goto]
      split
      · rename_i hc
        exact iff_of_true PollPc.noConfusion hc
      · rename_i hc
        exact iff_of_false (fun hb => hnone (.inl ⟨c, hb⟩)) hc
    refine ⟨?_, ?_, ?_, ?_⟩
    · intro c d hc hd
      exact ((hbusy c).mp hc).trans ((hbusy d).mp hd).symm
    · exact iff_of_true rfl (.inl ⟨cpu, (hbusy cpu).mpr rfl⟩)
    · intro hbit
      exact absurd (.inr hbit) hnone
    · intro c k hk
      have hgoto : Function.update s.cpus cpu .queued c = .processing k := hk
      rw [Function.update_apply] at hgoto
      split at hgoto
      · cases hgoto
      · exact h.bound c k hgoto
  · exact h

/-- After a ring that is up has been scheduled, somebody has it. -/
theorem Owned.busy_napiSchedule (h : s.Owned) (hup : s.phase = .up) (cpu : Nat) :
    ∃ c, (s.napiSchedule cpu).Busy c := by
  rw [NapiRing.napiSchedule]
  split
  · exact ⟨cpu, busy_goto.mpr (by rw [if_pos rfl]; exact PollPc.noConfusion)⟩
  · rename_i htaken
    have hpending : s.phase.pending = false := by rw [hup]; rfl
    have hsched : s.sched = true := by
      cases hs : s.sched with
      | true => rfl
      | false => exact absurd ⟨hpending, hs⟩ htaken
    rcases h.holder.mp hsched with hbusy | hbit
    · exact hbusy
    · rw [hup] at hbit
      rcases hbit with hbit | hbit <;> cases hbit

theorem phase_nxNicMsixIntr (s : NapiRing) (cpu : Nat) :
    (s.nxNicMsixIntr cpu).phase = s.phase := by
  rw [nxNicMsixIntr, NapiRing.napiSchedule]
  split
  · split <;> rfl
  · rfl

theorem Owned.nxNicMsixIntr (h : s.Owned) (cpu : Nat) : (s.nxNicMsixIntr cpu).Owned := by
  rw [NapiRing.nxNicMsixIntr]
  split
  · exact h.napiSchedule cpu
  · exact h

theorem Owned.busy_nxNicMsixIntr (h : s.Owned) (hup : s.phase = .up) (cpu : Nat) :
    ∃ c, (s.nxNicMsixIntr cpu).Busy c := by
  rw [NapiRing.nxNicMsixIntr, if_pos (by rw [hup]; rfl)]
  exact h.busy_napiSchedule hup cpu

theorem finishPoll_cases (s : NapiRing) (cpu k : Nat) :
    s.finishPoll cpu k = s.goto cpu .queued ∨
      (s.finishPoll cpu k = s.napiComplete cpu ∧ s.phase.pending = true) ∨
      s.finishPoll cpu k = { s.napiComplete cpu with tails := s.tails + 1 } := by
  rw [finishPoll]
  split
  · split
    · rename_i hpending
      exact .inr (.inl ⟨rfl, hpending⟩)
    · exact .inl rfl
  · exact .inr (.inr rfl)

/-- One CPU at most has the ring, and a ring that is up has a token. -/
structure Inv (s : NapiRing) : Prop where
  owned : s.Owned
  awake : s.phase = .up → s.Token

/-- The steps of the CPU that has the ring. -/
theorem Inv.goto (h : s.Inv) (pc' : PollPc) {pc : PollPc} (hpc : s.cpus cpu = pc) (hne : pc ≠ .out)
    (hne' : pc' ≠ .out) (hbound : ∀ k, pc' = .processing k → k ≤ unmNetdevWeight) :
    (s.goto cpu pc').Inv := by
  refine ⟨h.owned.goto (busy_of_eq hpc hne) hne' hbound, fun _ => .inr (.inr (.inr ⟨cpu, ?_⟩))⟩
  rw [busy_goto, if_pos rfl]
  exact hne'

theorem inv_adminStep {t : NapiRing} (h : s.Inv) (hstep : s.adminStep = some t) : t.Inv := by
  rw [adminStep] at hstep
  split at hstep
  · rename_i hphase
    have hnone := h.owned.apart (.inr hphase)
    obtain rfl := Option.some.inj hstep
    refine ⟨⟨h.owned.single, ?_, fun _ => hnone, h.owned.bound⟩, fun hup => Phase.noConfusion hup⟩
    refine iff_of_false Bool.false_ne_true ?_
    rintro (⟨c, hc⟩ | hbit | hbit)
    · exact hnone c hc
    · cases hbit
    · cases hbit
  · rename_i hphase
    obtain rfl := Option.some.inj hstep
    refine ⟨h.owned.of_same rfl rfl ?_, fun _ => .inl rfl⟩
    rw [hphase]
    simp [Phase.HoldsBit]
  · rename_i off hphase
    obtain rfl := Option.some.inj hstep
    refine ⟨h.owned.of_same rfl rfl ?_, fun hup => Phase.noConfusion hup⟩
    rw [hphase]
    simp [Phase.HoldsBit]
  · rename_i off hphase
    obtain rfl := Option.some.inj hstep
    refine ⟨h.owned.of_same rfl rfl ?_, fun hup => Phase.noConfusion hup⟩
    rw [hphase]
    simp [Phase.HoldsBit]
  · rename_i off hphase
    split at hstep
    · rename_i hfree
      have hnone : ∀ c, ¬ s.Busy c := by
        intro c hc
        have htaken := h.owned.holder.mpr (.inl ⟨c, hc⟩)
        rw [hfree] at htaken
        exact Bool.false_ne_true htaken
      obtain rfl := Option.some.inj hstep
      refine ⟨⟨h.owned.single, iff_of_true rfl (.inr ?_), fun _ => hnone, h.owned.bound⟩, ?_⟩
      · cases off with
        | close => exact .inl rfl
        | setMac => exact .inr rfl
      · intro hup
        cases off <;> cases hup
    · cases hstep
  · cases hstep
  · cases hstep

/-- One step keeps the invariant. -/
theorem inv_step {t : NapiRing} {a : NapiAction} (h : s.Inv) (hstep : s.step a = some t) :
    t.Inv := by
  cases a with
  | post =>
    obtain rfl := Option.some.inj hstep
    exact ⟨h.owned.of_same rfl rfl Iff.rfl, h.awake⟩
  | fire =>
    rw [step] at hstep
    split at hstep
    · obtain rfl := Option.some.inj hstep
      exact ⟨h.owned.of_same rfl rfl Iff.rfl, fun _ => .inr (.inl (Nat.succ_pos _))⟩
    · cases hstep
  | intr cpu =>
    rw [step] at hstep
    split at hstep
    · obtain rfl := Option.some.inj hstep
      have howned : { s with inFlight := s.inFlight - 1 }.Owned :=
        h.owned.of_same rfl rfl Iff.rfl
      refine ⟨howned.nxNicMsixIntr cpu, fun hup => .inr (.inr (.inr ?_))⟩
      rw [phase_nxNicMsixIntr] at hup
      exact howned.busy_nxNicMsixIntr hup cpu
    · cases hstep
  | pollController cpu =>
    obtain rfl := Option.some.inj hstep
    refine ⟨h.owned.nxNicMsixIntr cpu, fun hup => .inr (.inr (.inr ?_))⟩
    rw [phase_nxNicMsixIntr] at hup
    exact h.owned.busy_nxNicMsixIntr hup cpu
  | poll cpu =>
    rw [step] at hstep
    split at hstep
    · rename_i hpc
      obtain rfl := Option.some.inj hstep
      refine h.goto _ hpc PollPc.noConfusion PollPc.noConfusion fun k hk => ?_
      cases hk
      exact Nat.zero_le _
    · cases hstep
  | process cpu =>
    rw [step] at hstep
    split at hstep
    · rename_i k hpc
      split at hstep
      · rename_i hmore
        obtain rfl := Option.some.inj hstep
        have hgoto := h.goto (.processing (k + 1)) hpc PollPc.noConfusion
          PollPc.noConfusion fun n hn => by
            cases hn
            exact hmore.1
        exact ⟨hgoto.owned.of_same rfl rfl Iff.rfl, hgoto.awake⟩
      · cases hstep
    · cases hstep
  | leave cpu =>
    rw [step] at hstep
    split at hstep
    · rename_i k hpc
      split at hstep
      · cases hstep
      · obtain rfl := Option.some.inj hstep
        exact h.goto _ hpc PollPc.noConfusion PollPc.noConfusion fun n hn => by cases hn
    · cases hstep
  | finish cpu =>
    rw [step] at hstep
    split at hstep
    · rename_i k hpc
      obtain rfl := Option.some.inj hstep
      have hbusy : s.Busy cpu := busy_of_eq hpc PollPc.noConfusion
      rcases finishPoll_cases s cpu k with heq | ⟨heq, hpending⟩ | heq
      · rw [heq]
        exact h.goto _ hpc PollPc.noConfusion PollPc.noConfusion fun n hn => by cases hn
      · rw [heq]
        refine ⟨h.owned.napiComplete hbusy, fun hup => ?_⟩
        have hphase : s.phase = .up := hup
        rw [hphase] at hpending
        cases hpending
      · rw [heq]
        exact ⟨(h.owned.napiComplete hbusy).of_same rfl rfl Iff.rfl,
          fun _ => .inr (.inr (.inl (Nat.succ_pos _)))⟩
    · cases hstep
  | enable =>
    rw [step] at hstep
    split at hstep
    · obtain rfl := Option.some.inj hstep
      exact ⟨h.owned.of_same rfl rfl Iff.rfl, fun _ => .inl rfl⟩
    · cases hstep
  | unmNicOpen =>
    rw [step] at hstep
    split at hstep
    · rename_i hphase
      obtain rfl := Option.some.inj hstep
      refine ⟨h.owned.of_same rfl rfl ?_, fun hup => Phase.noConfusion hup⟩
      rw [hphase]
      simp [Phase.HoldsBit]
    · cases hstep
  | unmNicClose =>
    rw [step] at hstep
    split at hstep
    · rename_i hphase
      obtain rfl := Option.some.inj hstep
      refine ⟨h.owned.of_same rfl rfl ?_, fun hup => Phase.noConfusion hup⟩
      rw [hphase]
      simp [Phase.HoldsBit]
    · cases hstep
  | unmNicSetMac =>
    rw [step] at hstep
    split at hstep
    · rename_i hphase
      obtain rfl := Option.some.inj hstep
      refine ⟨h.owned.of_same rfl rfl ?_, fun hup => Phase.noConfusion hup⟩
      rw [hphase]
      simp [Phase.HoldsBit]
    · cases hstep
  | admin => exact inv_adminStep h hstep

theorem inv_initial : initial.Inv := by
  have hnone : ∀ c, ¬ initial.Busy c := fun c hc => hc rfl
  refine ⟨⟨fun c d hc => absurd hc (hnone c), iff_of_true rfl (.inr (.inl rfl)), fun _ => hnone,
    fun c k hk => ?_⟩, fun hup => Phase.noConfusion hup⟩
  cases hk

theorem inv_run {l : List NapiAction} {t : NapiRing} (h : napiMachine.run initial l = some t) :
    t.Inv :=
  napiMachine.run_invariant (fun _ _ _ hs hstep => inv_step hs hstep) inv_initial h

/-- **One poll, and no interrupt lost**: however the card, the CPUs and those who switch
the ring on and off take their steps, two CPUs never have the ring at once, and while it
is up the card will send an interrupt for the next message, or has sent one, or a CPU has
the ring or is about to enable the interrupt. -/
theorem napi_run {l : List NapiAction} {t : NapiRing} (h : napiMachine.run initial l = some t) :
    (∀ c d, t.Busy c → t.Busy d → c = d) ∧ (t.phase = .up → t.Token) :=
  ⟨(inv_run h).owned.single, (inv_run h).awake⟩

/-- The ring is switched on, and a message comes. -/
def busyRun : List NapiAction := [.unmNicOpen, .admin, .admin, .post, .fire]

/-- The ring after that. -/
def busyRing : NapiRing where
  armed := false
  inFlight := 1
  work := 1
  sched := false
  cpus := fun _ => .out
  tails := 0
  phase := .up

theorem napi_run_busy : (∀ c d, busyRing.Busy c → busyRing.Busy d → c = d) ∧
    (busyRing.phase = .up → busyRing.Token) := napi_run (l := busyRun) rfl

end NapiRing

/-! ## The ring is emptied -/

/-- The card and the CPUs handle what is there. -/
def NapiAction.handles : NapiAction → Bool
  | .fire | .intr _ | .poll _ | .process _ | .leave _ | .finish _ | .enable => true
  | _ => false

namespace NapiRing
variable {s : NapiRing} {cpu : Nat}

/-- The ring is up, it is empty and its interrupt enabled, and nobody is busy with it. -/
structure Quiet (s : NapiRing) : Prop where
  up : s.phase = .up
  work : s.work = 0
  inFlight : s.inFlight = 0
  tails : s.tails = 0
  armed : s.armed = true
  free : ∀ c, ¬ s.Busy c

/-- A run of steps that handle what is there. -/
abbrev Leads (s t : NapiRing) : Prop := napiMachine.Leads (fun a => a.handles = true) s t

theorem Leads.inv {t : NapiRing} (h : Leads s t) (hs : s.Inv) : t.Inv :=
  Machine.Leads.invariant (fun _ _ _ hI hstep => inv_step hI hstep) h hs

theorem Leads.step {a : NapiAction} {t : NapiRing} (ha : a.handles = true)
    (h : s.step a = some t) : Leads s t := Machine.Leads.step ha h

/-- A poll that has ended early. -/
structure Polled (s t : NapiRing) : Prop where
  up : t.phase = .up
  work : t.work = 0
  inFlight : t.inFlight = s.inFlight
  tails : 0 < t.tails
  free : ∀ c, ¬ t.Busy c

/-- A poll that finds the ring empty before its weight is reached. -/
theorem leads_empty (h : s.Inv) (hup : s.phase = .up) {k : Nat} (hpc : s.cpus cpu = .processing k)
    (hk : k < unmNetdevWeight) (hwork : s.work = 0) : ∃ t, Leads s t ∧ Polled s t := by
  have hleave : s.step (.leave cpu) = some (s.goto cpu (.processed k)) := by
    simp only [step, hpc]
    rw [if_neg fun hmore => Nat.ne_of_gt hmore.2 hwork]
  have hself : (s.goto cpu (.processed k)).cpus cpu = .processed k := by
    rw [cpus_goto, Function.update_self]
  have hfinish : (s.goto cpu (.processed k)).step (.finish cpu) =
      some { (s.goto cpu (.processed k)).napiComplete cpu with tails := s.tails + 1 } := by
    simp only [step, hself]
    rw [finishPoll, if_neg (Nat.not_le.mpr hk)]
    rfl
  have hfree := (inv_step h hleave).owned.not_busy_napiComplete
    (busy_of_eq hself PollPc.noConfusion)
  have hleads := (Leads.step rfl hleave).trans (Leads.step rfl hfinish)
  exact ⟨_, hleads, hup, hwork, rfl, Nat.succ_pos s.tails, hfree⟩

/-- A poll that has reached its weight begins anew. -/
theorem leads_again (hup : s.phase = .up) (hpc : s.cpus cpu = .processing unmNetdevWeight) :
    ∃ t, Leads s t ∧ t.cpus cpu = .processing 0 ∧ t.phase = .up ∧ t.work = s.work ∧
      t.inFlight = s.inFlight := by
  have hleave : s.step (.leave cpu) = some (s.goto cpu (.processed unmNetdevWeight)) := by
    simp only [step, hpc]
    rw [if_neg fun hmore => Nat.lt_irrefl _ hmore.1]
  obtain ⟨s₁, hs₁⟩ : ∃ s₁, s.goto cpu (.processed unmNetdevWeight) = s₁ := ⟨_, rfl⟩
  have hself₁ : s₁.cpus cpu = .processed unmNetdevWeight := by
    rw [← hs₁, cpus_goto, Function.update_self]
  have hup₁ : s₁.phase = .up := by rw [← hs₁]; exact hup
  have hfinish : s₁.step (.finish cpu) = some (s₁.goto cpu .queued) := by
    simp only [step, hself₁]
    rw [finishPoll, if_pos (Nat.le_refl _), hup₁]
    rfl
  obtain ⟨s₂, hs₂⟩ : ∃ s₂, s₁.goto cpu .queued = s₂ := ⟨_, rfl⟩
  have hself₂ : s₂.cpus cpu = .queued := by rw [← hs₂, cpus_goto, Function.update_self]
  have hpoll : s₂.step (.poll cpu) = some (s₂.goto cpu (.processing 0)) := by
    rw [step, if_pos hself₂]
  rw [hs₁] at hleave
  rw [hs₂] at hfinish
  refine ⟨_, ((Leads.step rfl hleave).trans (Leads.step rfl hfinish)).trans
    (Leads.step rfl hpoll), ?_, ?_, ?_, ?_⟩
  · rw [cpus_goto, Function.update_self]
  · rw [← hs₂, ← hs₁]
    exact hup
  · rw [← hs₂, ← hs₁]
    rfl
  · rw [← hs₂, ← hs₁]
    rfl

/-- One message more is processed. -/
theorem step_process {k n : Nat} (hpc : s.cpus cpu = .processing k) (hk : k < unmNetdevWeight)
    (hwork : s.work = n + 1) :
    s.step (.process cpu) = some { s.goto cpu (.processing (k + 1)) with work := n } := by
  simp only [step, hpc]
  rw [if_pos ⟨hk, by omega⟩, hwork]
  rfl

/-- **A poll empties the ring**, in as many rounds as it takes. -/
theorem leads_polled (n : Nat) (h : s.Inv) (hup : s.phase = .up) (hwork : s.work = n) {k : Nat}
    (hpc : s.cpus cpu = .processing k) : ∃ t, Leads s t ∧ Polled s t := by
  induction n generalizing s k with
  | zero =>
    rcases Nat.lt_or_ge k unmNetdevWeight with hk | hk
    · exact leads_empty h hup hpc hk hwork
    · obtain rfl := Nat.le_antisymm (h.owned.bound cpu k hpc) hk
      obtain ⟨s₁, hleads, hpc₁, hup₁, hwork₁, hflight⟩ := leads_again hup hpc
      obtain ⟨t, hleads', hpolled⟩ :=
        leads_empty (hleads.inv h) hup₁ hpc₁ (by decide) (hwork₁.trans hwork)
      exact ⟨t, hleads.trans hleads', { hpolled with
        inFlight := hpolled.inFlight.trans hflight }⟩
  | succ n ih =>
    -- the poll goes on, or begins anew and goes on
    have hround : ∀ (u : NapiRing) (j : Nat), Leads s u → u.cpus cpu = .processing j →
        j < unmNetdevWeight → u.phase = .up → u.work = n + 1 → u.inFlight = s.inFlight →
          ∃ t, Leads s t ∧ Polled s t := by
      intro u j hleads hj hlt hup' hwork' hflight
      have hstep := step_process hj hlt hwork'
      obtain ⟨t, hleads', hpolled⟩ := ih (inv_step (hleads.inv h) hstep) hup' rfl
        (k := j + 1) (by rw [cpus_goto, Function.update_self])
      exact ⟨t, (hleads.trans (Leads.step rfl hstep)).trans hleads', { hpolled with
        inFlight := hpolled.inFlight.trans hflight }⟩
    rcases Nat.lt_or_ge k unmNetdevWeight with hk | hk
    · exact hround s k Machine.Leads.refl hpc hk hup hwork rfl
    · obtain rfl := Nat.le_antisymm (h.owned.bound cpu k hpc) hk
      obtain ⟨s₁, hleads, hpc₁, hup₁, hwork₁, hflight⟩ := leads_again hup hpc
      exact hround s₁ 0 hleads hpc₁ (by decide) hup₁ (hwork₁.trans hwork) hflight

theorem leads_queued (cpu : Nat) (h : s.Inv) (hup : s.phase = .up)
    (hpc : s.cpus cpu = .queued) :
    ∃ t, Leads s t ∧ Polled s t := by
  have hpoll : s.step (.poll cpu) = some (s.goto cpu (.processing 0)) := by rw [step, if_pos hpc]
  obtain ⟨t, hleads, hpolled⟩ := leads_polled s.work (inv_step h hpoll) hup rfl (k := 0)
    (by rw [cpus_goto, Function.update_self])
  exact ⟨t, (Leads.step rfl hpoll).trans hleads, { hpolled with }⟩

/-- A CPU that has the ring gives it up. -/
theorem leads_free (h : s.Inv) (hup : s.phase = .up) :
    ∃ t, Leads s t ∧ t.phase = .up ∧ ∀ c, ¬ t.Busy c := by
  by_cases hbusy : ∃ cpu, s.Busy cpu
  · obtain ⟨cpu, hbusy⟩ := hbusy
    cases hpc : s.cpus cpu with
    | out => exact absurd hpc hbusy
    | queued =>
      obtain ⟨t, hleads, hpolled⟩ := leads_queued cpu h hup hpc
      exact ⟨t, hleads, hpolled.up, hpolled.free⟩
    | processing k =>
      obtain ⟨t, hleads, hpolled⟩ := leads_polled s.work h hup rfl hpc
      exact ⟨t, hleads, hpolled.up, hpolled.free⟩
    | processed k =>
      have hfinish : s.step (.finish cpu) = some (s.finishPoll cpu k) := by simp only [step, hpc]
      rcases finishPoll_cases s cpu k with heq | ⟨-, hpending⟩ | heq
      · rw [heq] at hfinish
        obtain ⟨t, hleads, hpolled⟩ := leads_queued cpu (inv_step h hfinish) hup
          (by rw [cpus_goto, Function.update_self])
        exact ⟨t, (Leads.step rfl hfinish).trans hleads, hpolled.up, hpolled.free⟩
      · rw [hup] at hpending
        cases hpending
      · rw [heq] at hfinish
        exact ⟨_, Leads.step rfl hfinish, hup, h.owned.not_busy_napiComplete hbusy⟩
  · exact ⟨s, Machine.Leads.refl, hup, fun c hc => hbusy ⟨c, hc⟩⟩

/-- The polls that are complete enable the interrupt. -/
theorem leads_enabled (n : Nat) (htails : s.tails = n) :
    Leads s { s with tails := 0, armed := s.armed || decide (0 < n) } := by
  induction n generalizing s with
  | zero =>
    have hsame : { s with tails := 0, armed := s.armed || decide (0 < 0) } = s := by
      rw [← htails]
      simp
    rw [hsame]
    exact Machine.Leads.refl
  | succ n ih =>
    have hstep : s.step .enable = some { s with armed := true, tails := n } := by
      rw [step, if_pos (by omega), htails]
      rfl
    have hrest := ih (s := { s with armed := true, tails := n }) rfl
    have hsame : (s.armed || decide (0 < n + 1)) = true := by simp
    rw [hsame]
    exact (Leads.step rfl hstep).trans hrest

/-- An interrupt has the ring polled, if nobody has it. -/
theorem leads_intr (h : s.Inv) (hup : s.phase = .up) (hfree : ∀ c, ¬ s.Busy c) {n : Nat}
    (hflight : s.inFlight = n + 1) :
    ∃ t, Leads s t ∧ t.phase = .up ∧ t.work = 0 ∧ t.inFlight = n ∧ ∀ c, ¬ t.Busy c := by
  have hbit : ¬ s.phase.HoldsBit := by
    rw [hup]
    decide
  have hsched : s.sched = false := by
    cases hs : s.sched with
    | false => rfl
    | true =>
      rcases h.owned.holder.mp hs with ⟨c, hc⟩ | hb
      · exact absurd hc (hfree c)
      · exact absurd hb hbit
  have hstep : s.step (.intr 0) =
      some { { s with inFlight := n }.goto 0 .queued with sched := true } := by
    rw [step, if_pos (by omega), hflight, nxNicMsixIntr, if_pos (by rw [hup]; rfl), napiSchedule,
      if_pos ⟨by rw [hup]; rfl, hsched⟩]
    rfl
  have hpc : Function.update s.cpus 0 .queued 0 = .queued := by rw [Function.update_self]
  obtain ⟨t, hleads, hpolled⟩ := leads_queued 0 (inv_step h hstep) hup hpc
  exact ⟨t, (Leads.step rfl hstep).trans hleads, hpolled.up, hpolled.work, hpolled.inFlight,
    hpolled.free⟩

/-- The interrupts that have been sent are handled. -/
theorem leads_landed (n : Nat) (h : s.Inv) (hup : s.phase = .up) (hfree : ∀ c, ¬ s.Busy c)
    (hwork : s.work = 0) (hflight : s.inFlight = n) :
    ∃ t, Leads s t ∧ t.phase = .up ∧ t.work = 0 ∧ t.inFlight = 0 ∧ ∀ c, ¬ t.Busy c := by
  induction n generalizing s with
  | zero => exact ⟨s, Machine.Leads.refl, hup, hwork, hflight, hfree⟩
  | succ n ih =>
    obtain ⟨u, hleads, hup', hwork', hflight', hfree'⟩ := leads_intr h hup hfree hflight
    obtain ⟨t, hleads', ht⟩ := ih (hleads.inv h) hup' hfree' hwork' hflight'
    exact ⟨t, hleads.trans hleads', ht⟩

/-- A ring with nothing to do is quiet once the interrupt is enabled. -/
theorem leads_quiet (h : s.Inv) (hup : s.phase = .up) (hfree : ∀ c, ¬ s.Busy c)
    (hwork : s.work = 0) : ∃ t, Leads s t ∧ t.Quiet := by
  obtain ⟨u, hleads, hup', hwork', hflight', hfree'⟩ :=
    leads_landed s.inFlight h hup hfree hwork rfl
  have htoken := (hleads.inv h).awake hup'
  have harmed : (u.armed || decide (0 < u.tails)) = true := by
    rw [Bool.or_eq_true, decide_eq_true_eq]
    rcases htoken with harmed | hflight | htails | ⟨c, hc⟩
    · exact .inl harmed
    · omega
    · exact .inr htails
    · exact absurd hc (hfree' c)
  exact ⟨_, hleads.trans (leads_enabled u.tails rfl), hup', hwork', hflight', rfl, harmed, hfree'⟩

/-- **The ring is emptied**: from every state in which it is up, the card and the CPUs can
handle all that is there, with no new message and no call from elsewhere, until the ring is
empty and its interrupt enabled. -/
theorem napi_quiet {l : List NapiAction} (h : napiMachine.run initial l = some s)
    (hup : s.phase = .up) : ∃ t, Leads s t ∧ t.Quiet := by
  have hinv := inv_run h
  obtain ⟨u, hleads, hup', hfree⟩ := leads_free hinv hup
  have hinv' := hleads.inv hinv
  by_cases hwork : u.work = 0
  · obtain ⟨t, hleads', hquiet⟩ := leads_quiet hinv' hup' hfree hwork
    exact ⟨t, hleads.trans hleads', hquiet⟩
  -- an interrupt is on its way, or the card sends one
  obtain ⟨v, hleads', hinv'', hupv, hfreev, hflight⟩ : ∃ v, Leads u v ∧ v.Inv ∧ v.phase = .up ∧
      (∀ c, ¬ v.Busy c) ∧ 0 < v.inFlight := by
    by_cases hsent : 0 < u.inFlight
    · exact ⟨u, Machine.Leads.refl, hinv', hup', hfree, hsent⟩
    · have henabled := leads_enabled u.tails (s := u) rfl
      have harmed : (u.armed || decide (0 < u.tails)) = true := by
        rw [Bool.or_eq_true, decide_eq_true_eq]
        rcases hinv'.awake hup' with harmed | hflight | htails | ⟨c, hc⟩
        · exact .inl harmed
        · exact absurd hflight hsent
        · exact .inr htails
        · exact absurd hc (hfree c)
      have hfire := henabled.trans (Leads.step (a := .fire) rfl
        (by rw [step, if_pos ⟨harmed, Nat.pos_of_ne_zero hwork⟩]))
      exact ⟨_, hfire, Leads.inv hfire hinv', hup', hfree, Nat.succ_pos _⟩
  obtain ⟨n, hn⟩ : ∃ n, v.inFlight = n + 1 := ⟨v.inFlight - 1, by omega⟩
  obtain ⟨w, hleadsw, hupw, hworkw, -, hfreew⟩ := leads_intr hinv'' hupv hfreev hn
  obtain ⟨t, hleadst, hquiet⟩ := leads_quiet (hleadsw.inv hinv'') hupw hfreew hworkw
  exact ⟨t, ((hleads.trans hleads').trans hleadsw).trans hleadst, hquiet⟩

theorem napi_quiet_busy : ∃ t, Leads busyRing t ∧ t.Quiet := napi_quiet (l := busyRun) rfl rfl

end NapiRing

end Rx
end NxNic

import NxNic.Fw.Reset

/-! # Recoveries exclude one another

What each task relies on, by where it is: whether it holds the semaphore (`Pc.holds`), and what it
knows of the register, a value it has read and would overwrite or one that claims the device for it
(`Pc.known`).  `FwInv` is the invariant that this is so of every task at once.

The register leaves a state claimed by one kind of recovery only through a store of that kind, so
the two never overlap.  The invariant is kept by each step, by cases on where the task is, with the
lemmas on the semaphore from `Lib/Locked`; `Fw/Recoveries` reads the results off it.
-/
namespace NxNic
namespace Fw

/-! ## What the tasks rely on -/

/-- The semaphore is held inside a section. -/
def SectionPc.inside : SectionPc → Bool
  | .entering => false
  | _ => true

def ReadyPc.inside : ReadyPc → Bool
  | .entering => false
  | _ => true

namespace Pc

def holds : Pc → Bool
  | .txTimeout pc => pc.inside
  | .firstRead pc => pc.inside
  | .secondRead pc => pc.inside
  | .requestReset pc => pc.inside
  | .setReady _ pc => pc.inside
  | .requestAer _ pc => pc.inside
  | .clearAer pc => pc.inside
  | _ => false

/-- The request that the watchdog acts on. -/
def claim (own : Bool) : DevState := if own then .reset else .txTimeout

/-- What a task knows of the register: a value it has read and would overwrite, or
one that claims the device for it. -/
def known : Pc → Option DevState
  | .txTimeout (.seen .ready) => some .ready
  | .secondRead (.seen .txTimeout) => some .txTimeout
  | .secondRead (.leaving .txTimeout) => some .txTimeout
  | .timedOut => some .txTimeout
  | .requestReset (.seen .ready) => some .ready
  | .requestReset (.seen .reset) => some .reset
  | .requestReset (.leaving .ready) => some .reset
  | .requestReset (.leaving .reset) => some .reset
  | .requested => some .reset
  | .failing => some .reset
  | .recover own => some (claim own)
  | .setReady own .entering => some (claim own)
  | .setReady own .locked => some (claim own)
  | .requestAer _ (.seen .ready) => some .ready
  | .requestAer _ (.seen .aer) => some .aer
  | .requestAer f (.leaving v) => if (nxDevRequestAer f v).ok then some .aer else none
  | .detaching => some .aer
  | .clearAer (.seen .aer) => some .aer
  | _ => none

/-- The phase in which a callback is there. -/
def phase : Pc → Option Phase
  | .requestAer _ _ => some .errorDetected
  | .detaching => some .errorDetected
  | .attaching => some .slotReset
  | .clearAer _ => some .resume
  | _ => none

/-- The tasks that can be there. -/
def belongs : Pc → Party → Bool
  | .idle, .tx _ => true
  | .txTimeout _, .tx _ => true
  | .idle, .watchdog => true
  | .firstRead _, .watchdog => true
  | .checks, .watchdog => true
  | .secondRead _, .watchdog => true
  | .timedOut, .watchdog => true
  | .alive, .watchdog => true
  | .requestReset _, .watchdog => true
  | .requested, .watchdog => true
  | .recover _, .watchdog => true
  | .setReady _ _, .watchdog => true
  | .failing, .watchdog => true
  | .todo, .aer _ => true
  | .requestAer g _, .aer f => g = f
  | .detaching, .aer _ => true
  | .attaching, .aer _ => true
  | .clearAer _, .aer _ => true
  | .done, .aer _ => true
  | _, _ => false

/-- Only inside a section is the device known to be ready. -/
theorem holds_of_known_ready {pc : Pc} (h : pc.known = some .ready) : pc.holds = true := by
  cases pc with
  | txTimeout pc => cases pc <;> first | rfl | cases h
  | requestReset pc => cases pc <;> first | rfl | cases h
  | requestAer f pc => cases pc <;> first | rfl | cases h
  | recover own => cases own <;> cases h
  | setReady own pc => cases own <;> cases pc <;> cases h
  | secondRead pc => cases pc <;> first | rfl | cases h
  | clearAer pc => cases pc <;> first | rfl | cases h
  | _ => cases h

/-- Outside a section only a callback in the first phase relies on a claim for
the error callbacks. -/
theorem of_known_aer {pc : Pc} (h : pc.known = some .aer) :
    pc.holds = true ∨ pc.phase = some .errorDetected := by
  cases pc with
  | txTimeout pc => cases pc <;> first | exact Or.inl rfl | cases h
  | requestReset pc => cases pc <;> first | exact Or.inl rfl | cases h
  | requestAer f pc => exact Or.inr rfl
  | detaching => exact Or.inr rfl
  | recover own => cases own <;> cases h
  | setReady own pc => cases own <;> cases pc <;> cases h
  | secondRead pc => cases pc <;> first | exact Or.inl rfl | cases h
  | clearAer pc => cases pc <;> first | exact Or.inl rfl | cases h
  | _ => cases h

/-- Only the watchdog relies on a claim for the watchdog. -/
theorem watchdog_of_known {pc : Pc} {v : DevState} (h : pc.known = some v)
    (hv : v = .txTimeout ∨ v = .reset) {p : Party} (hp : pc.belongs p = true) : p = .watchdog := by
  cases p with
  | watchdog => rfl
  | tx f =>
    exfalso
    cases pc with
    | txTimeout pc =>
      cases pc with
      | seen w =>
        cases w with
        | ready =>
          obtain rfl := Option.some.inj h
          simp at hv
        | _ => cases h
      | _ => cases h
    | idle => cases h
    | _ => cases hp
  | aer f =>
    exfalso
    cases pc with
    | requestAer g pc =>
      cases pc with
      | seen w =>
        cases w with
        | ready =>
          obtain rfl := Option.some.inj h
          simp at hv
        | aer =>
          obtain rfl := Option.some.inj h
          simp at hv
        | _ => cases h
      | leaving w =>
        simp only [known] at h
        split at h
        · obtain rfl := Option.some.inj h
          simp at hv
        · cases h
      | _ => cases h
    | detaching =>
      obtain rfl := Option.some.inj h
      simp at hv
    | clearAer pc =>
      cases pc with
      | seen w =>
        cases w with
        | aer =>
          obtain rfl := Option.some.inj h
          simp at hv
        | _ => cases h
      | _ => cases h
    | todo => cases h
    | attaching => cases h
    | done => cases h
    | _ => cases hp

end Pc

/-- What the tasks rely on. -/
def reliance : Reliance Pc DevState := ⟨fun pc => pc.holds = true, fun pc v => pc.known = some v⟩

/-- The recovery that a value of the register stands for. -/
inductive Kind where
  | watchdog
  | aer
deriving DecidableEq

def DevState.claimedBy : DevState → Option Kind
  | .ready => none
  | .txTimeout => some .watchdog
  | .reset => some .watchdog
  | .failed => some .watchdog
  | .aer => some .aer

/-- The recovery that a task requests or runs. -/
def Party.kind : Party → Kind
  | .tx _ => .watchdog
  | .watchdog => .watchdog
  | .aer _ => .aer

/-- The invariant. -/
structure FwInv (st : FwState) : Prop where
  consistent : Consistent reliance st.toLocked
  belongs : ∀ p, (st.pc p).belongs p = true
  phase : ∀ p φ, (st.pc p).phase = some φ → st.phase = φ
  wdOpen : st.wdOpen = true ↔ st.reg.claimedBy = some .watchdog
  aerOpen : st.aerOpen = true ↔ st.reg.claimedBy = some .aer

namespace FwInv
variable {st st' : FwState}

/-- The watchdog's own count is no part of it. -/
theorem withFails (h : FwInv st) (fails : Nat) : FwInv { st with fwAliveFailures := fails } :=
  ⟨h.consistent, h.belongs, h.phase, h.wdOpen, h.aerOpen⟩

/-- A task goes on, and perhaps takes the semaphore or leaves it. -/
theorem goto (h : FwInv st) {me : Party} {pc : Pc} (sem : Option Party) (fails : Nat)
    (hbelongs : pc.belongs me = true) (hphase : ∀ φ, pc.phase = some φ → st.phase = φ)
    (hholds : pc.holds = true → sem = some me) (hknown : ∀ v, pc.known = some v → st.reg = v)
    (hsem : sem = st.sem ∨ st.sem = none ∨ st.sem = some me) :
    FwInv { st.goto me pc with sem := sem, fwAliveFailures := fails } := by
  refine ⟨?_, ?_, ?_, h.wdOpen, h.aerOpen⟩
  · exact h.consistent.step me hholds hknown (hsem.imp_right h.consistent.not_holds) (Or.inl rfl)
  · exact (Function.forall_update_iff st.pc fun p pc => pc.belongs p = true).mpr
      ⟨hbelongs, fun p _ => h.belongs p⟩
  · exact (Function.forall_update_iff st.pc fun _ pc => ∀ φ, pc.phase = some φ → st.phase = φ).mpr
      ⟨hphase, fun p _ => h.phase p⟩

/-- A task stores to the register, of which nobody else knows the value. -/
theorem put (h : FwInv st) {me : Party} {pc : Pc} {w : DevState}
    (hbelongs : pc.belongs me = true) (hphase : ∀ φ, pc.phase = some φ → st.phase = φ)
    (hholds : pc.holds = true → st.sem = some me) (hknown : ∀ v, pc.known = some v → w = v)
    (hothers : ∀ p, p ≠ me → (st.pc p).known ≠ some st.reg)
    (hwd : (st.put me w).wdOpen = true ↔ w.claimedBy = some .watchdog)
    (haer : (st.put me w).aerOpen = true ↔ w.claimedBy = some .aer) :
    FwInv ((st.put me w).goto me pc) := by
  refine ⟨?_, ?_, ?_, hwd, haer⟩
  · exact h.consistent.step me hholds hknown (Or.inl rfl) (Or.inr hothers)
  · exact (Function.forall_update_iff st.pc fun p pc => pc.belongs p = true).mpr
      ⟨hbelongs, fun p _ => h.belongs p⟩
  · exact (Function.forall_update_iff st.pc fun _ pc => ∀ φ, pc.phase = some φ → st.phase = φ).mpr
      ⟨hphase, fun p _ => h.phase p⟩

/-! Nobody else relies on the value that a store replaces. -/

theorem others_ready (h : FwInv st) {me : Party} (hheld : (st.pc me).holds = true)
    (hreg : st.reg = .ready) : ∀ p, p ≠ me → (st.pc p).known ≠ some st.reg := by
  intro p hp hknown
  rw [hreg] at hknown
  exact hp (h.consistent.holder_unique (Pc.holds_of_known_ready hknown) hheld)

theorem others_aer (h : FwInv st) {me : Party} (hheld : (st.pc me).holds = true)
    (hphase : st.phase = .resume) (hreg : st.reg = .aer) :
    ∀ p, p ≠ me → (st.pc p).known ≠ some st.reg := by
  intro p hp hknown
  rw [hreg] at hknown
  rcases Pc.of_known_aer hknown with hholds | hearly
  · exact hp (h.consistent.holder_unique hholds hheld)
  · rw [h.phase p _ hearly] at hphase
    cases hphase

theorem others_claim (h : FwInv st) (hreg : st.reg = .txTimeout ∨ st.reg = .reset) :
    ∀ p, p ≠ .watchdog → (st.pc p).known ≠ some st.reg :=
  fun p hp hknown => hp (Pc.watchdog_of_known hknown hreg (h.belongs p))

/-- A request, which is stored to a register that is ready. -/
theorem put_request (h : FwInv st) {me : Party} {pc : Pc} {w : DevState}
    (hheld : (st.pc me).holds = true) (hreg : st.reg = .ready)
    (hw : w = .txTimeout ∨ w = .reset ∨ w = .aer) (hbelongs : pc.belongs me = true)
    (hphase : ∀ φ, pc.phase = some φ → st.phase = φ) (hknown : ∀ v, pc.known = some v → w = v) :
    FwInv ((st.put me w).goto me pc) := by
  have hwd := h.wdOpen
  have haer := h.aerOpen
  rw [hreg] at hwd haer
  refine h.put hbelongs hphase (fun _ => h.consistent.holds me hheld) hknown
    (h.others_ready hheld hreg) ?_ ?_
  · rcases hw with rfl | rfl | rfl
    · exact iff_of_true rfl rfl
    · exact iff_of_true rfl rfl
    · exact iff_of_false (fun ho => by cases hwd.mp ho) nofun
  · rcases hw with rfl | rfl | rfl
    · exact iff_of_false (fun ho => by cases haer.mp ho) nofun
    · exact iff_of_false (fun ho => by cases haer.mp ho) nofun
    · exact iff_of_true rfl rfl

/-- The end of a recovery by the error callbacks. -/
theorem put_clear (h : FwInv st) {f : Nat} {pc : Pc} (hheld : (st.pc (.aer f)).holds = true)
    (hreg : st.reg = .aer) (hresume : st.phase = .resume) (hbelongs : pc.belongs (.aer f) = true)
    (hphase : ∀ φ, pc.phase = some φ → st.phase = φ) (hknown : pc.known = none) :
    FwInv ((st.put (.aer f) .ready).goto (.aer f) pc) := by
  have hwd := h.wdOpen
  rw [hreg] at hwd
  refine h.put hbelongs hphase (fun _ => h.consistent.holds _ hheld)
    (fun v hv => by rw [hknown] at hv; cases hv) (h.others_aer hheld hresume hreg) ?_ ?_
  · exact iff_of_false (fun ho => by cases hwd.mp ho) nofun
  · exact iff_of_false Bool.false_ne_true nofun

/-- The end of a recovery by the watchdog, or its failure. -/
theorem put_end (h : FwInv st) {pc : Pc} {w : DevState}
    (hreg : st.reg = .txTimeout ∨ st.reg = .reset) (hw : w = .ready ∨ w = .failed)
    (hbelongs : pc.belongs .watchdog = true)
    (hphase : ∀ φ, pc.phase = some φ → st.phase = φ)
    (hholds : pc.holds = true → st.sem = some .watchdog) (hknown : pc.known = none) :
    FwInv ((st.put .watchdog w).goto .watchdog pc) := by
  have hwd : st.wdOpen = true :=
    h.wdOpen.mpr (by rcases hreg with hreg | hreg <;> rw [hreg] <;> rfl)
  have haer : st.aerOpen ≠ true := fun ho => by
    have := h.aerOpen.mp ho
    rcases hreg with hreg | hreg <;> rw [hreg] at this <;> cases this
  refine h.put hbelongs hphase hholds (fun v hv => by rw [hknown] at hv; cases hv)
    (h.others_claim hreg) ?_ ?_
  · rcases hw with rfl | rfl
    · exact iff_of_false Bool.false_ne_true nofun
    · exact iff_of_true hwd rfl
  · rcases hw with rfl | rfl
    · exact iff_of_false haer nofun
    · exact iff_of_false haer nofun

/-- **A section.**  The read gives what the task then knows, and a store is a
matter of the function. -/
theorem inSection (h : FwInv st) {me : Party} {mk : SectionPc → Pc} {f : DevState → Answer}
    {ret : DevState → Pc} {pc : SectionPc} (hpc : st.pc me = mk pc)
    (hstep : st.inSection me mk f ret pc = some st')
    (hbelongs : ∀ pc, (mk pc).belongs me = true) (hret : ∀ v, (ret v).belongs me = true)
    (hinside : ∀ pc, (mk pc).holds = pc.inside) (hout : ∀ v, (ret v).holds = false)
    (hphase : ∀ pc, (mk pc).phase = (mk .entering).phase)
    (hlater : ∀ v, (ret v).phase = none ∨ (ret v).phase = (mk .entering).phase)
    (hlocked : (mk .locked).known = none)
    (hseen : ∀ v u, (mk (.seen v)).known = some u → v = u)
    (hkeep : ∀ v u, (f v).store = none → (mk (.leaving v)).known = some u →
      (mk (.seen v)).known = some u)
    (hstore : ∀ v w, (f v).store = some w → st.pc me = mk (.seen v) →
      FwInv ((st.put me w).goto me (mk (.leaving v))))
    (hleave : ∀ v u, (ret v).known = some u → (mk (.leaving v)).known = some u) : FwInv st' := by
  -- the phase is the same throughout a section
  have hin : ∀ pc' φ, (mk pc').phase = some φ → st.phase = φ := fun pc' φ hφ =>
    h.phase me φ (by rw [hpc, hphase pc, ← hphase pc', hφ])
  have hheld : pc.inside = true → st.sem = some me := fun hi =>
    h.consistent.holds me (by show (st.pc me).holds = true; rw [hpc, hinside, hi])
  have hknows : ∀ v, (mk pc).known = some v → st.reg = v := fun v hv =>
    h.consistent.knows me v (by show (st.pc me).known = some v; rw [hpc, hv])
  unfold FwState.inSection at hstep
  cases pc with
  | entering =>
    simp only at hstep
    by_cases hfree : st.sem = none
    · rw [if_pos hfree] at hstep
      obtain rfl := Option.some.inj hstep
      exact h.goto (some me) st.fwAliveFailures (hbelongs _) (hin _) (fun _ => rfl)
        (fun v hv => by rw [hlocked] at hv; cases hv) (Or.inr (Or.inl hfree))
    · rw [if_neg hfree] at hstep
      cases hstep
  | locked =>
    obtain rfl := Option.some.inj hstep
    exact h.goto st.sem st.fwAliveFailures (hbelongs _) (hin _) (fun _ => hheld rfl)
      (fun v hv => hseen _ _ hv) (Or.inl rfl)
  | seen v =>
    simp only at hstep
    cases hanswer : (f v).store with
    | none =>
      rw [hanswer] at hstep
      obtain rfl := Option.some.inj hstep
      exact h.goto st.sem st.fwAliveFailures (hbelongs _) (hin _) (fun _ => hheld rfl)
        (fun u hu => hknows u (hkeep v u hanswer hu)) (Or.inl rfl)
    | some w =>
      rw [hanswer] at hstep
      obtain rfl := Option.some.inj hstep
      exact hstore v w hanswer hpc
  | leaving v =>
    obtain rfl := Option.some.inj hstep
    -- what the task has found out goes with it when it unlocks
    refine h.goto none st.fwAliveFailures (hret v) (fun φ hφ => ?_)
      (fun hh => by rw [hout v] at hh; cases hh) (fun u hu => hknows u (hleave v u hu))
      (Or.inr (Or.inr (hheld rfl)))
    rcases hlater v with hno | hsame
    · rw [hno] at hφ
      cases hφ
    · exact hin _ φ (hsame ▸ hφ)

/-- What the task `me` knows, once it is known where it is. -/
theorem knows (h : FwInv st) {me : Party} {pc : Pc} (hpc : st.pc me = pc) {v : DevState}
    (hv : pc.known = some v) : st.reg = v :=
  h.consistent.knows me v (by show (st.pc me).known = some v; rw [hpc, hv])

/-- A task goes on outside a section, and relies on nothing new. -/
theorem goto_outside (h : FwInv st) {me : Party} {old pc : Pc} (hold : st.pc me = old)
    (fails : Nat) (hbelongs : pc.belongs me = true) (hholds : pc.holds = false)
    (hphase : ∀ φ, pc.phase = some φ → st.phase = φ)
    (hknown : ∀ v, pc.known = some v → old.known = some v) :
    FwInv { st.goto me pc with fwAliveFailures := fails } :=
  h.goto st.sem fails hbelongs hphase (fun hh => by rw [hholds] at hh; cases hh)
    (fun v hv => h.knows hold (hknown v hv)) (Or.inl rfl)

/-! ## The tasks -/

theorem txStep (h : FwInv st) {f : Nat} (hstep : st.txStep f = some st') : FwInv st' := by
  unfold FwState.txStep at hstep
  split at hstep
  · obtain rfl := Option.some.inj hstep
    exact h.goto_outside rfl st.fwAliveFailures rfl rfl nofun nofun
  · rename_i pc hpc
    refine h.inSection hpc hstep (fun _ => rfl) (fun _ => rfl) (fun _ => rfl) (fun _ => rfl)
      (fun _ => rfl) (fun _ => Or.inl rfl) rfl ?_ ?_ ?_ ?_
    · intro v u hu
      cases v <;> cases hu
      rfl
    · intro v u _ hu
      cases v <;> cases hu
    · intro v w hw hseen
      have hheld : (st.pc (.tx f)).holds = true := by rw [hseen]; rfl
      have hknows : ∀ u, (Pc.txTimeout (.seen v)).known = some u → st.reg = u := fun u hu =>
        h.consistent.knows (.tx f) u (by show (st.pc (.tx f)).known = some u; rw [hseen, hu])
      cases v <;> cases hw
      exact h.put_request hheld (hknows _ rfl) (Or.inl rfl) rfl nofun
        nofun
    · intro v u hu
      cases hu
  · cases hstep

/-- A section of the watchdog that only reads. -/
theorem watchdog_read (h : FwInv st) {mk : SectionPc → Pc} {ret : DevState → Pc} {pc : SectionPc}
    (hpc : st.pc .watchdog = mk pc)
    (hstep : st.inSection .watchdog mk FwState.readOnly ret pc = some st')
    (hbelongs : ∀ pc, (mk pc).belongs .watchdog = true)
    (hret : ∀ v, (ret v).belongs .watchdog = true)
    (hinside : ∀ pc, (mk pc).holds = pc.inside) (hout : ∀ v, (ret v).holds = false)
    (hphase : ∀ pc, (mk pc).phase = none) (hlater : ∀ v, (ret v).phase = none)
    (hlocked : (mk .locked).known = none) (hseen : ∀ v u, (mk (.seen v)).known = some u → v = u)
    (hkeep : ∀ v, (mk (.leaving v)).known = (mk (.seen v)).known)
    (hleave : ∀ v u, (ret v).known = some u → (mk (.leaving v)).known = some u) : FwInv st' :=
  h.inSection hpc hstep hbelongs hret hinside hout (fun pc => by rw [hphase, hphase])
    (fun v => Or.inl (hlater v)) hlocked hseen (fun v u _ hu => hkeep v ▸ hu)
    nofun hleave

/-- What the second look finds holds on: nobody else ends a timeout. -/
theorem watchdog_secondRead (h : FwInv st) {pc : SectionPc} (hpc : st.pc .watchdog = .secondRead pc)
    (hstep : st.inSection .watchdog .secondRead FwState.readOnly
      (fun v => if v = .txTimeout then .timedOut else .alive) pc = some st') : FwInv st' := by
  have hret : ∀ v : DevState, v = .txTimeout ∧
      (if v = .txTimeout then Pc.timedOut else Pc.alive) = .timedOut ∨
      (if v = .txTimeout then Pc.timedOut else Pc.alive) = .alive := by
    intro v
    by_cases hv : v = .txTimeout
    · exact Or.inl ⟨hv, if_pos hv⟩
    · exact Or.inr (if_neg hv)
  refine h.watchdog_read hpc hstep (fun _ => rfl)
    (fun v => by rcases hret v with ⟨-, he⟩ | he <;> rw [he] <;> rfl) (fun _ => rfl)
    (fun v => by rcases hret v with ⟨-, he⟩ | he <;> rw [he] <;> rfl) (fun _ => rfl)
    (fun v => by rcases hret v with ⟨-, he⟩ | he <;> rw [he] <;> rfl) rfl ?_ ?_ ?_
  · intro v u hu
    cases v <;> cases hu
    rfl
  · intro v
    cases v <;> rfl
  · intro v u hu
    rcases hret v with ⟨rfl, he⟩ | he
    · exact hu
    · rw [he] at hu
      cases hu

/-- Once the request is granted the register says so. -/
theorem watchdog_requestReset (h : FwInv st) {pc : SectionPc}
    (hpc : st.pc .watchdog = .requestReset pc)
    (hstep : st.inSection .watchdog .requestReset nxDevRequestReset
      (fun v => if (nxDevRequestReset v).ok then .requested else .idle) pc = some st') :
    FwInv st' := by
  have hret : ∀ v : DevState, (v = .ready ∨ v = .reset) ∧
      (if (nxDevRequestReset v).ok = true then Pc.requested else Pc.idle) = .requested ∨
      (if (nxDevRequestReset v).ok = true then Pc.requested else Pc.idle) = .idle := by
    intro v
    cases v
    · exact Or.inl ⟨Or.inl rfl, rfl⟩
    · exact Or.inr rfl
    · exact Or.inl ⟨Or.inr rfl, rfl⟩
    · exact Or.inr rfl
    · exact Or.inr rfl
  refine h.inSection hpc hstep (fun _ => rfl)
    (fun v => by rcases hret v with ⟨-, he⟩ | he <;> rw [he] <;> rfl) (fun _ => rfl)
    (fun v => by rcases hret v with ⟨-, he⟩ | he <;> rw [he] <;> rfl) (fun _ => rfl)
    (fun v => by rcases hret v with ⟨-, he⟩ | he <;> rw [he] <;> exact Or.inl rfl) rfl ?_ ?_ ?_ ?_
  · intro v u hu
    cases v <;> cases hu <;> rfl
  · intro v u hnone hu
    cases v with
    | ready => cases hnone
    | reset => exact hu
    | _ => cases hu
  · intro v w hw hseen
    have hheld : (st.pc .watchdog).holds = true := by rw [hseen]; rfl
    cases v <;> cases hw
    exact h.put_request hheld (h.knows hseen rfl) (Or.inr (Or.inl rfl)) rfl
      nofun (fun u hu => by cases hu; rfl)
  · intro v u hu
    rcases hret v with ⟨hv, he⟩ | he
    · rw [he] at hu
      rcases hv with rfl | rfl <;> exact hu
    · rw [he] at hu
      cases hu

/-- The device is set ready. -/
theorem watchdog_setReady (h : FwInv st) {own : Bool} {pc : ReadyPc}
    (hpc : st.pc .watchdog = .setReady own pc) {u : FwState}
    (hu : st.inSetReady .watchdog (.setReady own) pc = some u) (fails : Nat) :
    FwInv { u with fwAliveFailures := fails } := by
  -- the claim is still there: the watchdog alone can end it
  have hclaim : ∀ {pc'}, pc = pc' → (Pc.setReady own pc').known = some (Pc.claim own) →
      st.reg = .txTimeout ∨ st.reg = .reset := by
    rintro _ rfl hk
    rw [h.knows hpc hk]
    cases own
    · exact Or.inl rfl
    · exact Or.inr rfl
  unfold FwState.inSetReady at hu
  cases pc with
  | entering =>
    simp only at hu
    by_cases hfree : st.sem = none
    · rw [if_pos hfree] at hu
      obtain rfl := Option.some.inj hu
      exact h.goto (some .watchdog) _ rfl nofun (fun _ => rfl)
        (fun v hv => h.knows hpc hv) (Or.inr (Or.inl hfree))
    · rw [if_neg hfree] at hu
      cases hu
  | locked =>
    obtain rfl := Option.some.inj hu
    have hheld : st.sem = some .watchdog :=
      h.consistent.holds _ (by show (st.pc _).holds = true; rw [hpc]; rfl)
    have hend : FwInv ((st.put .watchdog .ready).goto .watchdog (.setReady own .leaving)) :=
      h.put_end (hclaim rfl rfl) (Or.inl rfl) rfl nofun (fun _ => hheld) rfl
    exact hend.withFails _
  | leaving =>
    obtain rfl := Option.some.inj hu
    have hheld : st.sem = some .watchdog :=
      h.consistent.holds _ (by show (st.pc _).holds = true; rw [hpc]; rfl)
    exact h.goto none _ rfl nofun nofun
      nofun (Or.inr (Or.inr hheld))

theorem watchdogStep (h : FwInv st) {env : Env} (hstep : st.watchdogStep env = some st') :
    FwInv st' := by
  unfold FwState.watchdogStep at hstep
  split at hstep
  · -- the task begins
    rename_i hpc
    obtain rfl := Option.some.inj hstep
    exact h.goto_outside hpc st.fwAliveFailures rfl rfl nofun nofun
  · rename_i pc hpc
    have hret : ∀ v : DevState, (if DevState.txTimeout.val < v.val then Pc.idle else Pc.checks) =
        .idle ∨ (if DevState.txTimeout.val < v.val then Pc.idle else Pc.checks) = .checks :=
      fun v => ite_eq_or_eq _ _ _
    exact h.watchdog_read hpc hstep (fun _ => rfl)
      (fun v => by rcases hret v with he | he <;> rw [he] <;> rfl) (fun _ => rfl)
      (fun v => by rcases hret v with he | he <;> rw [he] <;> rfl) (fun _ => rfl)
      (fun v => by rcases hret v with he | he <;> rw [he] <;> rfl) rfl nofun
      (fun _ => rfl)
      (fun v u hu => by rcases hret v with he | he <;> rw [he] at hu <;> cases hu)
  · rename_i hpc
    obtain rfl := Option.some.inj hstep
    have hnext := ite_eq_or_eq (env.overheated || !env.autoFwReset) Pc.idle
      (Pc.secondRead .entering)
    rcases hnext with he | he <;> rw [he] <;>
      exact h.goto_outside hpc st.fwAliveFailures rfl rfl nofun nofun
  · rename_i pc hpc
    exact h.watchdog_secondRead hpc hstep
  · rename_i hpc
    obtain rfl := Option.some.inj hstep
    rcases ite_eq_or_eq env.resetFailure Pc.idle (Pc.recover false) with he | he <;> rw [he]
    · exact h.goto_outside hpc st.fwAliveFailures rfl rfl nofun nofun
    · exact h.goto_outside hpc st.fwAliveFailures rfl rfl nofun fun _ hv => hv
  · rename_i hpc
    by_cases hold : env.oldFirmware = true
    · rw [if_pos hold] at hstep
      obtain rfl := Option.some.inj hstep
      exact h.goto_outside hpc st.fwAliveFailures rfl rfl nofun nofun
    · rw [if_neg hold] at hstep
      by_cases hmoved : env.counterMoved = true
      · rw [if_pos hmoved] at hstep
        obtain rfl := Option.some.inj hstep
        exact h.goto_outside hpc 0 rfl rfl nofun nofun
      · rw [if_neg hmoved] at hstep
        by_cases hfails : st.fwAliveFailures &&& 7 = 0 ∧ st.fwAliveFailures ≠ 0
        · rw [if_pos hfails] at hstep
          obtain rfl := Option.some.inj hstep
          exact h.goto_outside hpc st.fwAliveFailures rfl rfl nofun nofun
        · rw [if_neg hfails] at hstep
          obtain rfl := Option.some.inj hstep
          exact h.goto_outside hpc (st.fwAliveFailures + 1) rfl rfl nofun nofun
  · rename_i pc hpc
    exact h.watchdog_requestReset hpc hstep
  · rename_i hpc
    obtain rfl := Option.some.inj hstep
    rcases ite_eq_or_eq (env.resetFailure || env.fatal) Pc.failing (Pc.recover true)
      with he | he <;> rw [he] <;>
      exact h.goto_outside hpc st.fwAliveFailures rfl rfl nofun fun _ hv => hv
  · rename_i own hpc
    obtain rfl := Option.some.inj hstep
    exact h.goto_outside hpc st.fwAliveFailures rfl rfl nofun fun _ hv => hv
  · rename_i own pc hpc
    obtain ⟨u, hu, rfl⟩ := Option.map_eq_some_iff.mp hstep
    exact h.watchdog_setReady hpc hu _
  · rename_i hpc
    obtain rfl := Option.some.inj hstep
    exact h.put_end (Or.inr (h.knows hpc rfl)) (Or.inr rfl) rfl nofun
      nofun rfl
  · cases hstep

/-- Only function 0 claims the device; the others join. -/
theorem aer_request (h : FwInv st) {f g : Nat} {pc : SectionPc}
    (hpc : st.pc (.aer f) = .requestAer g pc)
    (hstep : st.inSection (.aer f) (.requestAer g) (nxDevRequestAer g)
      (fun v => if (nxDevRequestAer g v).ok then .detaching else .done) pc = some st') :
    FwInv st' := by
  have hg : g = f := by
    have hb := h.belongs (.aer f)
    rw [hpc] at hb
    exact of_decide_eq_true hb
  subst hg
  have hret : ∀ v : DevState, (nxDevRequestAer g v).ok = true ∧
      (if (nxDevRequestAer g v).ok = true then Pc.detaching else Pc.done) = .detaching ∨
      (if (nxDevRequestAer g v).ok = true then Pc.detaching else Pc.done) = .done := by
    intro v
    by_cases hok : (nxDevRequestAer g v).ok = true
    · exact Or.inl ⟨hok, if_pos hok⟩
    · exact Or.inr (if_neg hok)
  refine h.inSection hpc hstep (fun _ => decide_eq_true rfl)
    (fun v => by rcases hret v with ⟨-, he⟩ | he <;> rw [he] <;> rfl) (fun _ => rfl)
    (fun v => by rcases hret v with ⟨-, he⟩ | he <;> rw [he] <;> rfl) (fun _ => rfl)
    (fun v => ?_) rfl ?_ ?_ ?_ ?_
  · rcases hret v with ⟨-, he⟩ | he <;> rw [he]
    · exact Or.inr rfl
    · exact Or.inl rfl
  · intro v u hu
    cases v <;> cases hu <;> rfl
  · intro v u hnone hu
    have hv : (nxDevRequestAer g v).ok = true → v = .aer := nxDevRequestAer_joins hnone
    simp only [Pc.known] at hu
    split at hu
    · rename_i hok
      rw [hv hok]
      exact hu
    · cases hu
  · intro v w hw hseen
    have hheld : (st.pc (.aer g)).holds = true := by rw [hseen]; rfl
    obtain ⟨rfl, -, rfl⟩ := nxDevRequestAer_store.mp hw
    refine h.put_request hheld (h.knows hseen rfl) (Or.inr (Or.inr rfl)) (decide_eq_true rfl)
      (fun φ hφ => h.phase _ φ (by rw [hseen]; exact hφ)) fun u hu => ?_
    simp only [Pc.known] at hu
    split at hu
    · exact Option.some.inj hu
    · cases hu
  · intro v u hu
    rcases hret v with ⟨hok, he⟩ | he
    · rw [he] at hu
      simp only [Pc.known, hok, if_true]
      exact hu
    · rw [he] at hu
      cases hu

theorem aerStep (h : FwInv st) {f : Nat} {env : Env} (hstep : st.aerStep f env = some st') :
    FwInv st' := by
  unfold FwState.aerStep at hstep
  split at hstep
  · -- the callback that the phase is about is called
    split at hstep
    · cases hstep
    · rename_i hphase
      obtain rfl := Option.some.inj hstep
      rcases ite_eq_or_eq env.permFailure Pc.done (Pc.requestAer f .entering)
        with he | he <;> rw [he]
      · exact h.goto_outside rfl st.fwAliveFailures rfl rfl nofun nofun
      · exact h.goto_outside rfl st.fwAliveFailures (decide_eq_true rfl) rfl
          (fun φ hφ => hphase.trans (Option.some.inj hφ)) nofun
    · rename_i hphase
      obtain rfl := Option.some.inj hstep
      exact h.goto_outside rfl st.fwAliveFailures rfl rfl
        (fun φ hφ => hphase.trans (Option.some.inj hφ)) nofun
    · rename_i hphase
      obtain rfl := Option.some.inj hstep
      exact h.goto_outside rfl st.fwAliveFailures rfl rfl
        (fun φ hφ => hphase.trans (Option.some.inj hφ)) nofun
  · rename_i g pc hpc
    exact h.aer_request hpc hstep
  · obtain rfl := Option.some.inj hstep
    exact h.goto_outside rfl st.fwAliveFailures rfl rfl nofun nofun
  · obtain rfl := Option.some.inj hstep
    exact h.goto_outside rfl st.fwAliveFailures rfl rfl nofun nofun
  · rename_i pc hpc
    refine h.inSection hpc hstep (fun _ => rfl) (fun _ => rfl) (fun _ => rfl) (fun _ => rfl)
      (fun _ => rfl) (fun _ => Or.inl rfl) rfl ?_ ?_ ?_ ?_
    · intro v u hu
      cases v <;> cases hu
      rfl
    · intro v u _ hu
      cases hu
    · intro v w hw hseen
      have hheld : (st.pc (.aer f)).holds = true := by rw [hseen]; rfl
      have hresume : st.phase = .resume := h.phase (.aer f) _ (by rw [hseen]; rfl)
      cases v <;> cases hw
      exact h.put_clear hheld (h.knows hseen rfl) hresume rfl
        (fun φ hφ => hresume.trans (Option.some.inj hφ)) rfl
    · intro v u hu
      cases hu
  · cases hstep

/-- The PCI core goes on: no callback is in a section then. -/
theorem nextPhase (h : FwInv st) (phase : Phase) : FwInv (st.nextPhase phase) := by
  refine ⟨⟨fun p hp => ?_, fun p v hv => ?_⟩, fun p => ?_, fun p φ hφ => ?_, h.wdOpen, h.aerOpen⟩
  · cases p with
    | tx f => exact h.consistent.holds (.tx f) hp
    | watchdog => exact h.consistent.holds .watchdog hp
    | aer f => cases hp
  · cases p with
    | tx f => exact h.consistent.knows (.tx f) v hv
    | watchdog => exact h.consistent.knows .watchdog v hv
    | aer f => cases hv
  · cases p with
    | tx f => exact h.belongs (.tx f)
    | watchdog => exact h.belongs .watchdog
    | aer f => rfl
  · -- only callbacks are bound to a phase
    have hnone : ∀ {pc : Pc} {q : Party}, pc.belongs q = true → (∀ f, q ≠ .aer f) →
        pc.phase = none := by
      intro pc q hb hq
      cases pc <;> cases q <;> first | exact absurd rfl (hq _) | rfl | cases hb
    cases p with
    | tx f =>
      have hφ : (st.pc (.tx f)).phase = some φ := hφ
      rw [hnone (h.belongs (.tx f)) nofun] at hφ
      cases hφ
    | watchdog =>
      have hφ : (st.pc .watchdog).phase = some φ := hφ
      rw [hnone (h.belongs .watchdog) nofun] at hφ
      cases hφ
    | aer f => cases hφ

/-- **One step** keeps the invariant. -/
theorem step {n : Nat} (h : FwInv st) {a : FwAction} (hstep : (fwMachine n).next st a = some st') :
    FwInv st' := by
  cases a with
  | phase next =>
    simp only [fwMachine] at hstep
    split at hstep
    · exact Option.some.inj hstep ▸ h.nextPhase next
    · cases hstep
  | step p env =>
    cases p with
    | watchdog => exact h.watchdogStep hstep
    | tx f =>
      simp only [fwMachine] at hstep
      split at hstep
      · exact h.txStep hstep
      · cases hstep
    | aer f =>
      simp only [fwMachine] at hstep
      split at hstep
      · exact h.aerStep hstep
      · cases hstep

theorem init : FwInv initialFw := by
  refine ⟨⟨fun p hp => ?_, fun p v hv => ?_⟩, fun p => ?_, fun p φ hφ => ?_, ?_, ?_⟩
  · cases p <;> cases hp
  · cases p <;> cases hv
  · cases p <;> rfl
  · cases p <;> cases hφ
  · exact iff_of_false Bool.false_ne_true nofun
  · exact iff_of_false Bool.false_ne_true nofun

/-- **Every run** keeps it. -/
theorem reachable {n : Nat} (h : ReachableFw n st) : FwInv st := by
  obtain ⟨l, hl⟩ := h
  exact (fwMachine n).run_invariant (fun _ _ _ hs hn => hs.step hn) init hl

end FwInv

end Fw
end NxNic

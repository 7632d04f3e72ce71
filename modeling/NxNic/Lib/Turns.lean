import NxNic.Lib.Machine
import Mathlib.Logic.Function.Basic

/-! # Programs that take turns

Processes `i : ι` run programs that read and write the same registers, one access at a
time and in any order.  Process `i` relies on the registers that it sees, which nobody else
writes; it may write whatever nobody else sees.  Some registers are live: each read of one
brings whatever it brings.

`Prog.Meets` says of a program alone that it keeps to that and ends in what meets `Q`;
it is proved along the program.  A process each of whose calls meets what it is for does so
among the others too (`turns_run`).

A program is a tree of accesses (`Prog`), and a run interleaves the processes' accesses at will.
The postcondition of a call may speak of registers that its process sees, for these the others
leave alone; that is `Turns.Local`, and with `Prog.Meets` of each call it is all that `turns_run`
asks for.
-/
namespace NxNic
variable {ι ρ v α β σ κ : Type}

/-- A program that reads and writes registers. -/
inductive Prog (ρ v α : Type) where
  | ret (a : α)
  | read (x : ρ) (next : v → Prog ρ v α)
  | write (x : ρ) (d : v) (next : Prog ρ v α)

namespace Prog

def bind : Prog ρ v α → (α → Prog ρ v β) → Prog ρ v β
  | .ret a, f => f a
  | .read x next, f => .read x fun d => (next d).bind f
  | .write x d next, f => .write x d (next.bind f)

instance instMonadProg : Monad (Prog ρ v) where
  pure := .ret
  bind := bind

/-- The program keeps to what is seen and to what is its own, and ends in what meets `Q`. -/
def Meets [DecidableEq ρ] (sees owns live : ρ → Prop) (Q : α → (ρ → v) → Prop) :
    Prog ρ v α → (ρ → v) → Prop
  | .ret a, r => Q a r
  | .read x next, r =>
    (live x ∧ ∀ d, (next d).Meets sees owns live Q r) ∨
      (¬ live x ∧ sees x ∧ (next (r x)).Meets sees owns live Q r)
  | .write x d next, r => owns x ∧ next.Meets sees owns live Q (Function.update r x d)

section Meets
variable [DecidableEq ρ] {sees owns live : ρ → Prop} {Q Q' : α → (ρ → v) → Prop}
variable {r r' : ρ → v}

/-- **One program after another.** -/
theorem meets_bind {p : Prog ρ v α} {f : α → Prog ρ v β} {R : β → (ρ → v) → Prop} :
    (p >>= f).Meets sees owns live R r ↔
      p.Meets sees owns live (fun a r => (f a).Meets sees owns live R r) r := by
  show (p.bind f).Meets sees owns live R r ↔ _
  induction p generalizing r with
  | ret a => exact Iff.rfl
  | read x next ih =>
    rw [bind, Meets, Meets]
    exact or_congr (and_congr_right fun _ => forall_congr' fun d => ih d)
      (and_congr_right fun _ => and_congr_right fun _ => ih _)
  | write x d next ih =>
    rw [bind, Meets, Meets]
    exact and_congr_right fun _ => ih

theorem Meets.mono {p : Prog ρ v α} (h : p.Meets sees owns live Q r)
    (himp : ∀ a r, Q a r → Q' a r) : p.Meets sees owns live Q' r := by
  induction p generalizing r with
  | ret a => exact himp a r h
  | read x next ih =>
    rcases h with ⟨hlive, hall⟩ | ⟨hlive, hsees, hnext⟩
    · exact .inl ⟨hlive, fun d => ih d (hall d)⟩
    · exact .inr ⟨hlive, hsees, ih _ hnext⟩
  | write x d next ih => exact ⟨h.1, ih h.2⟩

/-- A program and what it is for do not depend on what is not seen. -/
theorem Meets.congr {p : Prog ρ v α} (h : p.Meets sees owns live Q r)
    (hlocal : ∀ a r r', (∀ x, sees x → r x = r' x) → Q a r → Q a r')
    (hsame : ∀ x, sees x → r x = r' x) : p.Meets sees owns live Q r' := by
  induction p generalizing r r' with
  | ret a => exact hlocal a r r' hsame h
  | read x next ih =>
    rcases h with ⟨hlive, hall⟩ | ⟨hlive, hsees, hnext⟩
    · exact .inl ⟨hlive, fun d => ih d (hall d) hsame⟩
    · refine .inr ⟨hlive, hsees, ?_⟩
      rw [← hsame x hsees]
      exact ih _ hnext hsame
  | write x d next ih =>
    refine ⟨h.1, ih h.2 fun y hy => ?_⟩
    rw [Function.update_apply, Function.update_apply]
    exact if_congr Iff.rfl rfl (hsame y hy)

end Meets

end Prog

/-! ## Processes -/

/-- A process is between two calls, or has a call to finish. -/
inductive Proc (ρ v σ : Type) where
  | idle (a : σ)
  | busy (p : Prog ρ v σ)

/-- The registers and the processes. -/
structure Turns (ι ρ v σ : Type) where
  regs : ρ → v
  proc : ι → Proc ρ v σ

/-- A process begins a call, or makes its next access; `d` is what a live register brings. -/
inductive Turn (ι v κ : Type) where
  | call (i : ι) (c : κ)
  | access (i : ι) (d : v)

section Machine
variable [DecidableEq ι] [DecidableEq ρ] (live : ρ → Prop) [DecidablePred live]
variable (prog : ι → κ → σ → Option (Prog ρ v σ))

/-- The next access of a program. -/
def Turns.access (s : Turns ι ρ v σ) (i : ι) (d : v) : Prog ρ v σ → Turns ι ρ v σ
  | .ret a => { s with proc := Function.update s.proc i (.idle a) }
  | .read x next =>
    { s with proc := Function.update s.proc i (.busy (next (if live x then d else s.regs x))) }
  | .write x word next =>
    { regs := Function.update s.regs x word, proc := Function.update s.proc i (.busy next) }

/-- The processes take turns. -/
def turns : Machine (Turns ι ρ v σ) (Turn ι v κ) where
  next s
    | .call i c =>
      match s.proc i with
      | .idle a => (prog i c a).map fun p => { s with proc := Function.update s.proc i (.busy p) }
      | .busy _ => none
    | .access i d =>
      match s.proc i with
      | .idle _ => none
      | .busy p => some (s.access live i d p)

end Machine

/-! ## Each process among the others -/

section Rely
variable [DecidableEq ρ] {live : ρ → Prop} {sees : ι → ρ → Prop} {I : ι → σ → (ρ → v) → Prop}

/-- What nobody else sees. -/
def Turns.Owns (sees : ι → ρ → Prop) (i : ι) (x : ρ) : Prop := ∀ j, j ≠ i → ¬ sees j x

/-- A process is as it should be: `I` holds between calls, and the rest of a call brings it
about. -/
def Proc.Fine (live : ρ → Prop) (sees : ι → ρ → Prop) (I : ι → σ → (ρ → v) → Prop) (i : ι)
    (r : ρ → v) : Proc ρ v σ → Prop
  | .idle a => I i a r
  | .busy p => p.Meets (sees i) (Turns.Owns sees i) live (I i) r

/-- What `I` says of a process is about what the process sees. -/
def Turns.Local (sees : ι → ρ → Prop) (I : ι → σ → (ρ → v) → Prop) : Prop :=
  ∀ i a r r', (∀ x, sees i x → r x = r' x) → I i a r → I i a r'

theorem Proc.Fine.congr (hlocal : Turns.Local sees I) {i : ι} {p : Proc ρ v σ} {r r' : ρ → v}
    (h : p.Fine live sees I i r) (hsame : ∀ x, sees i x → r x = r' x) :
    p.Fine live sees I i r' := by
  cases p with
  | idle a => exact hlocal i a r r' hsame h
  | busy p => exact Prog.Meets.congr h (hlocal i) hsame

variable [DecidableEq ι] [DecidablePred live] {prog : ι → κ → σ → Option (Prog ρ v σ)}
variable {s t : Turns ι ρ v σ}

/-- An access of a process leaves the others as they should be. -/
theorem access_fine (hlocal : Turns.Local sees I) (h : ∀ i, (s.proc i).Fine live sees I i s.regs)
    {i : ι} {p : Prog ρ v σ} (hp : s.proc i = .busy p) (d : v) :
    ∀ j, ((s.access live i d p).proc j).Fine live sees I j (s.access live i d p).regs := by
  have hfine := h i
  rw [hp] at hfine
  cases p with
  | ret a =>
    exact (Function.forall_update_iff s.proc fun j q => q.Fine live sees I j s.regs).mpr
      ⟨hfine, fun j _ => h j⟩
  | read x next =>
    refine (Function.forall_update_iff s.proc fun j q => q.Fine live sees I j s.regs).mpr
      ⟨?_, fun j _ => h j⟩
    rcases hfine with ⟨hlive, hall⟩ | ⟨hlive, -, hnext⟩
    · rw [if_pos hlive]
      exact hall d
    · rw [if_neg hlive]
      exact hnext
  | write x word next =>
    obtain ⟨howns, hnext⟩ := hfine
    refine (Function.forall_update_iff s.proc fun j q =>
      q.Fine live sees I j (Function.update s.regs x word)).mpr ⟨hnext, fun j hj => ?_⟩
    -- nobody else sees what is written
    refine (h j).congr hlocal fun y hy => ?_
    have hne : y ≠ x := fun heq => howns j hj (heq ▸ hy)
    rw [Function.update_of_ne hne]

/-- **Each process among the others**: if every call of every process, made where `I` holds,
keeps to what the process sees and owns and brings `I` about, then `I` holds of each process
between its calls, whatever turns they take. -/
theorem turns_run (hlocal : Turns.Local sees I)
    (hcalls : ∀ i c a p r, prog i c a = some p → I i a r →
      p.Meets (sees i) (Turns.Owns sees i) live (I i) r)
    {l : List (Turn ι v κ)} (hs : ∀ i, (s.proc i).Fine live sees I i s.regs)
    (h : (turns live prog).run s l = some t) : ∀ i, (t.proc i).Fine live sees I i t.regs := by
  refine (turns live prog).run_invariant (I := fun s => ∀ i, (s.proc i).Fine live sees I i s.regs)
    (fun s a t hs h => ?_) hs h
  cases a with
  | call i c =>
    rw [turns] at h
    dsimp only at h
    split at h
    · rename_i a hidle
      obtain ⟨p, hp, rfl⟩ := Option.map_eq_some_iff.mp h
      have hfine := hs i
      rw [hidle] at hfine
      exact (Function.forall_update_iff s.proc fun j q => q.Fine live sees I j s.regs).mpr
        ⟨hcalls i c a p s.regs hp hfine, fun j _ => hs j⟩
    · cases h
  | access i d =>
    rw [turns] at h
    dsimp only at h
    split at h
    · cases h
    · rename_i p hbusy
      obtain rfl := Option.some.inj h
      exact access_fine hlocal hs hbusy d

end Rely
end NxNic

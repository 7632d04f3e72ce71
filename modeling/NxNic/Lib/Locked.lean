import Mathlib.Logic.Function.Basic

/-! # A register under a lock

Processes `i : ι`, each with a local state, share a register and a lock.  What a
process may rely on is a matter of its local state alone: in some local states it
holds the lock (`holds`), in some it knows the value of the register (`knows`).
`Consistent` says that what they rely on is so.  A step of one process keeps it
if that process relies on what it leaves behind, takes the lock from nobody, and
changes the register only when no other process knows its value
(`Consistent.step`).

An invariant of this form is proved task by task: that two processes do not hold the lock at once
(`holder_unique`) and that nobody's knowledge is spoilt are then the same for every protocol with a
lock and a register.
-/
namespace NxNic
variable {ι π ρ : Type}

/-- The local states, the lock's holder and the register. -/
structure Locked (ι π ρ : Type) where
  pc : ι → π
  sem : Option ι
  reg : ρ

/-- What a process relies on in each local state. -/
structure Reliance (π ρ : Type) where
  holds : π → Prop
  knows : π → ρ → Prop

/-- What the processes rely on is so. -/
structure Consistent (K : Reliance π ρ) (s : Locked ι π ρ) : Prop where
  holds : ∀ i, K.holds (s.pc i) → s.sem = some i
  knows : ∀ i v, K.knows (s.pc i) v → s.reg = v

namespace Consistent
variable {K : Reliance π ρ} {s : Locked ι π ρ}

/-- Two holders of the lock are one. -/
theorem holder_unique (h : Consistent K s) {i j : ι} (hi : K.holds (s.pc i))
    (hj : K.holds (s.pc j)) : i = j :=
  Option.some.inj ((h.holds i hi).symm.trans (h.holds j hj))

/-- **One step** of the process `i`. -/
theorem step [DecidableEq ι] (h : Consistent K s) (i : ι) {pc : π} {sem : Option ι} {reg : ρ}
    (hholds : K.holds pc → sem = some i) (hknows : ∀ v, K.knows pc v → reg = v)
    (hsem : sem = s.sem ∨ ∀ j, j ≠ i → ¬ K.holds (s.pc j))
    (hreg : reg = s.reg ∨ ∀ j, j ≠ i → ¬ K.knows (s.pc j) s.reg) :
    Consistent K ⟨Function.update s.pc i pc, sem, reg⟩ := by
  refine ⟨?_, ?_⟩
  · refine (Function.forall_update_iff s.pc fun j pc => K.holds pc → sem = some j).mpr
      ⟨hholds, fun j hj hheld => ?_⟩
    rcases hsem with rfl | hfree
    · exact h.holds j hheld
    · exact absurd hheld (hfree j hj)
  · refine (Function.forall_update_iff s.pc fun _ pc => ∀ v, K.knows pc v → reg = v).mpr
      ⟨hknows, fun j hj v hv => ?_⟩
    have hsame := h.knows j v hv
    rcases hreg with rfl | hnone
    · exact hsame
    · exact absurd (hsame ▸ hv) (hnone j hj)

/-- Nobody else holds a lock that is free or held by `i`. -/
theorem not_holds (h : Consistent K s) {i : ι} (hsem : s.sem = none ∨ s.sem = some i) :
    ∀ j, j ≠ i → ¬ K.holds (s.pc j) := by
  intro j hij hj
  have hheld := h.holds j hj
  rcases hsem with hsem | hsem
  · rw [hsem] at hheld
    cases hheld
  · rw [hsem] at hheld
    exact hij (Option.some.inj hheld).symm

end Consistent
end NxNic

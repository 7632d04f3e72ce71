import Mathlib.Logic.Basic

/-! # Effects and what they may touch

A computation that touches places and then returns a value or crashes.  Its weakest
precondition (`Effect.wp`) says that it touches only places that meet `P`, does not crash,
and returns a value that meets `Q`; it is computed along the structure of the computation.

There is one rule for each way to build a computation (`wp_pure`, `wp_touch`, `wp_bind`,
`wp_when`).  Of a computation that is known not to crash the precondition says just that each
place it touches meets `P` (`wp_iff_touched`), so that leaving the bounds is failing it.
-/
namespace NxNic

/-- What a computation touches, in order, and how it ends. -/
structure Effect (τ ε ρ : Type) where
  touched : List τ
  exit : Except ε ρ

namespace Effect
variable {τ ε ρ κ : Type}

def touch (t : τ) : Effect τ ε Unit := ⟨[t], .ok ()⟩

def crash (e : ε) : Effect τ ε ρ := ⟨[], .error e⟩

def bind (x : Effect τ ε ρ) (f : ρ → Effect τ ε κ) : Effect τ ε κ :=
  match x.exit with
  | .ok r => ⟨x.touched ++ (f r).touched, (f r).exit⟩
  | .error e => ⟨x.touched, .error e⟩

instance : Monad (Effect τ ε) where
  pure r := ⟨[], .ok r⟩
  bind := bind

/-- The computation, where the condition holds. -/
def when (c : Prop) [Decidable c] (x : Effect τ ε Unit) : Effect τ ε Unit :=
  if c then x else pure ()

/-- The computation touches only what meets `P`, and returns what meets `Q`. -/
def wp (P : τ → Prop) (Q : ρ → Prop) (x : Effect τ ε ρ) : Prop :=
  (∀ t ∈ x.touched, P t) ∧ ∃ r, x.exit = .ok r ∧ Q r

variable {P : τ → Prop} {Q Q' : ρ → Prop} {x : Effect τ ε ρ}

@[simp] theorem wp_pure {r : ρ} : wp P Q (pure r : Effect τ ε ρ) ↔ Q r := by
  constructor
  · rintro ⟨-, r', hr, hQ⟩
    exact (Except.ok.inj hr) ▸ hQ
  · exact fun hQ => ⟨nofun, r, rfl, hQ⟩

@[simp] theorem wp_touch {t : τ} {R : Unit → Prop} :
    wp P R (touch t : Effect τ ε Unit) ↔ P t ∧ R () := by
  constructor
  · rintro ⟨hP, ⟨⟩, -, hR⟩
    exact ⟨hP t (List.mem_singleton_self t), hR⟩
  · rintro ⟨hP, hR⟩
    exact ⟨fun t' ht' => List.mem_singleton.mp ht' ▸ hP, (), rfl, hR⟩

@[simp] theorem wp_crash {e : ε} : ¬ wp P Q (crash e : Effect τ ε ρ) := by
  rintro ⟨-, r, hr, -⟩
  cases hr

/-- **One computation after another.** -/
@[simp] theorem wp_bind {R : κ → Prop} {f : ρ → Effect τ ε κ} :
    wp P R (x >>= f) ↔ wp P (fun r => wp P R (f r)) x := by
  show wp P R (x.bind f) ↔ _
  rw [bind]
  cases hexit : x.exit with
  | error e => exact iff_of_false (fun h => by simp [wp] at h) fun h => by simp [wp, hexit] at h
  | ok r =>
    constructor
    · rintro ⟨htouched, hend⟩
      exact ⟨fun t ht => htouched t (List.mem_append_left _ ht), r, hexit,
        fun t ht => htouched t (List.mem_append_right _ ht), hend⟩
    · rintro ⟨htouched, r', hr', htouched', hend⟩
      obtain rfl := Except.ok.inj (hexit.symm.trans hr')
      exact ⟨fun t ht => (List.mem_append.mp ht).elim (htouched t) (htouched' t), hend⟩

theorem wp_when {c : Prop} [Decidable c] {y : Effect τ ε Unit} {R : Unit → Prop}
    (hthen : c → wp P R y) (helse : ¬ c → R ()) : wp P R (when c y) := by
  rw [when]
  split
  · rename_i hc
    exact hthen hc
  · rename_i hc
    exact wp_pure.mpr (helse hc)

/-! ## What is touched -/

theorem touched_bind_of_ok {f : ρ → Effect τ ε κ} {r : ρ} (h : x.exit = .ok r) :
    (x >>= f).touched = x.touched ++ (f r).touched := by
  show (x.bind f).touched = _
  rw [bind, h]

theorem exit_bind_of_ok {f : ρ → Effect τ ε κ} {r : ρ} (h : x.exit = .ok r) :
    (x >>= f).exit = (f r).exit := by
  show (x.bind f).exit = _
  rw [bind, h]

/-- What the first computation touches is touched, however it ends. -/
theorem mem_touched_bind {f : ρ → Effect τ ε κ} {t : τ} (h : t ∈ x.touched) :
    t ∈ (x >>= f).touched := by
  show t ∈ (x.bind f).touched
  rw [bind]
  split
  · exact List.mem_append_left _ h
  · exact h

/-- What a computation that returns touches. -/
theorem wp_iff_touched (h : wp (fun _ => True) (fun _ => True) x) :
    wp P (fun _ => True) x ↔ ∀ t ∈ x.touched, P t := by
  obtain ⟨-, r, hr, -⟩ := h
  exact ⟨fun hx => hx.1, fun htouched => ⟨htouched, r, hr, trivial⟩⟩

theorem wp_mono (h : ∀ r, Q r → Q' r) (hx : wp P Q x) : wp P Q' x := by
  obtain ⟨htouched, r, hr, hQ⟩ := hx
  exact ⟨htouched, r, hr, h r hQ⟩

end Effect
end NxNic

import Mathlib.Logic.Basic

/-! # Machines and their runs

A machine is a partial transition function: `next s a` is the state after the
action `a`, and `none` when `a` cannot be taken in `s`.  A run is a list of
actions, executed from left to right.  An invariant is proved once for one step
and holds of every run from then on (`Machine.run_invariant`).  A machine can be
restricted to the steps that meet a condition (`Machine.guard`): the runs of the
restricted machine are the runs all of whose steps meet it.  A condition on the
steps of a run may be just what a property of its states needs
(`Machine.visits_iff_takes`).  If one step of a machine is a run of another one,
all its runs are (`Machine.run_simulates`).
-/
namespace NxNic

/-- A machine over states `σ` and actions `α`. -/
structure Machine (σ α : Type) where
  /-- The state after an action, `none` where the action is not enabled. -/
  next : σ → α → Option σ

namespace Machine
variable {σ α : Type} (M : Machine σ α)

/-- The state a list of actions ends in. -/
def run : σ → List α → Option σ
  | s, [] => some s
  | s, a :: l => (M.next s a).bind fun t => run t l

/-- The machine whose actions are those of `M` that meet `P`. -/
def guard (P : σ → α → Prop) [∀ s a, Decidable (P s a)] : Machine σ α where
  next s a := if P s a then M.next s a else none

@[simp] theorem run_nil (s : σ) : M.run s [] = some s := rfl

theorem run_cons (s : σ) (a : α) (l : List α) :
    M.run s (a :: l) = (M.next s a).bind fun t => M.run t l := rfl

/-- A run splits at its first step. -/
theorem run_cons_eq_some {s t : σ} {a : α} {l : List α} :
    M.run s (a :: l) = some t ↔ ∃ u, M.next s a = some u ∧ M.run u l = some t := by
  rw [run_cons, Option.bind_eq_some_iff]

theorem run_append (s : σ) (l₁ l₂ : List α) :
    M.run s (l₁ ++ l₂) = (M.run s l₁).bind fun t => M.run t l₂ := by
  induction l₁ generalizing s with
  | nil => rfl
  | cons a l ih =>
    rw [List.cons_append, run_cons, run_cons, Option.bind_assoc]
    exact congrArg _ (funext ih)

/-- One action taken `n` times, if `f i` is the state after `i` of them. -/
theorem run_replicate {f : Nat → σ} {a : α} {n : Nat}
    (h : ∀ i, i < n → M.next (f i) a = some (f (i + 1))) :
    M.run (f 0) (List.replicate n a) = some (f n) := by
  induction n with
  | zero => rfl
  | succ n ih =>
    have hfirst : M.run (f 0) (List.replicate n a) = some (f n) :=
      ih fun i hi => h i (Nat.lt_succ_of_lt hi)
    rw [List.replicate_succ', run_append, hfirst, Option.bind_some, run_cons,
      h n (Nat.lt_succ_self n)]
    rfl

/-- Two machines with the same steps, up to the names of the actions. -/
theorem run_map {β : Type} {N : Machine σ β} (f : β → α)
    (h : ∀ s b, M.next s (f b) = N.next s b) (s : σ) (l : List β) :
    M.run s (l.map f) = N.run s l := by
  induction l generalizing s with
  | nil => rfl
  | cons b l ih =>
    rw [List.map_cons, run_cons, run_cons, h]
    exact congrArg _ (funext ih)

/-- **The invariant rule**: what one step preserves, every run preserves. -/
theorem run_invariant {I : σ → Prop}
    (step : ∀ s a t, I s → M.next s a = some t → I t) {s t : σ} {l : List α}
    (hs : I s) (h : M.run s l = some t) : I t := by
  induction l generalizing s with
  | nil => exact Option.some.inj h ▸ hs
  | cons a l ih =>
    obtain ⟨u, hu, ht⟩ := M.run_cons_eq_some.mp h
    exact ih (step s a u hs hu) ht

/-- A run of actions that meet `P` leads from `s` to `t`. -/
def Leads (P : α → Prop) (s t : σ) : Prop := ∃ l, (∀ a ∈ l, P a) ∧ M.run s l = some t

section Leads
variable {M} {P : α → Prop} {s t u : σ}

theorem Leads.refl : M.Leads P s s := ⟨[], fun _ h => absurd h List.not_mem_nil, rfl⟩

theorem Leads.step {a : α} (ha : P a) (h : M.next s a = some t) : M.Leads P s t := by
  refine ⟨[a], fun b hb => List.mem_singleton.mp hb ▸ ha, ?_⟩
  rw [run_cons, h]
  rfl

theorem Leads.trans (h : M.Leads P s t) (h' : M.Leads P t u) : M.Leads P s u := by
  obtain ⟨l, hl, hrun⟩ := h
  obtain ⟨l', hl', hrun'⟩ := h'
  refine ⟨l ++ l', ?_, ?_⟩
  · intro a ha
    rcases List.mem_append.mp ha with ha | ha
    · exact hl a ha
    · exact hl' a ha
  · rw [run_append, hrun, Option.bind_some, hrun']

theorem Leads.invariant {I : σ → Prop} (step : ∀ s a t, I s → M.next s a = some t → I t)
    (h : M.Leads P s t) (hs : I s) : I t := by
  obtain ⟨l, -, hrun⟩ := h
  exact M.run_invariant step hs hrun

end Leads

/-- **The simulation rule**: if each step of `M` between related states is a run of another
machine, then so is each run of `M`. -/
theorem run_simulates {τ β : Type} {N : Machine τ β} {P : β → Prop} {R : σ → τ → Prop}
    (step : ∀ s a s' t, R s t → M.next s a = some s' → ∃ t', N.Leads P t t' ∧ R s' t')
    {s s' : σ} {t : τ} {l : List α} (hs : R s t) (h : M.run s l = some s') :
    ∃ t', N.Leads P t t' ∧ R s' t' := by
  induction l generalizing s t with
  | nil => exact ⟨t, .refl, Option.some.inj h ▸ hs⟩
  | cons a l ih =>
    obtain ⟨u, hu, hrest⟩ := M.run_cons_eq_some.mp h
    obtain ⟨v, hv, huv⟩ := step s a u t hs hu
    obtain ⟨t', ht', hst⟩ := ih huv hrest
    exact ⟨t', hv.trans ht', hst⟩

/-- A run from `s` ends in `t`, where no action can be taken. -/
def Halts (s t : σ) : Prop := ∃ l, M.run s l = some t ∧ ∀ a, M.next t a = none

/-- What every step preserves holds where a run ends. -/
theorem halts_invariant {I : σ → Prop} (step : ∀ s a t, I s → M.next s a = some t → I t) {s t : σ}
    (hs : I s) (h : M.Halts s t) : I t := by
  obtain ⟨l, hrun, -⟩ := h
  exact M.run_invariant step hs hrun

variable {M} {P : σ → α → Prop} [∀ s a, Decidable (P s a)]

theorem guard_next_eq_some {s t : σ} {a : α} :
    (M.guard P).next s a = some t ↔ P s a ∧ M.next s a = some t := by
  simp only [guard]
  split <;> simp_all

/-- The invariant rule for runs all of whose steps meet `P`. -/
theorem run_guard_invariant {I : σ → Prop}
    (step : ∀ s a t, I s → P s a → M.next s a = some t → I t) {s t : σ} {l : List α}
    (hs : I s) (h : (M.guard P).run s l = some t) : I t :=
  (M.guard P).run_invariant
    (fun s a t hI hn => step s a t hI (guard_next_eq_some.mp hn).1 (guard_next_eq_some.mp hn).2)
    hs h

/-- A run of the restricted machine is a run. -/
theorem run_of_guard {s t : σ} {l : List α} (h : (M.guard P).run s l = some t) :
    M.run s l = some t := by
  induction l generalizing s with
  | nil => exact h
  | cons a l ih =>
    obtain ⟨u, hu, ht⟩ := (M.guard P).run_cons_eq_some.mp h
    exact M.run_cons_eq_some.mpr ⟨u, (guard_next_eq_some.mp hu).2, ih ht⟩

/-! ## Exact conditions -/

variable (M)

/-- A run from `s` visits the state `u`. -/
def Visits (s : σ) (l : List α) (u : σ) : Prop := ∃ l₁ l₂, l = l₁ ++ l₂ ∧ M.run s l₁ = some u

/-- A run from `s` takes the action `a` in the state `u`. -/
def Takes (s : σ) (l : List α) (u : σ) (a : α) : Prop :=
  ∃ l₁ l₂, l = l₁ ++ a :: l₂ ∧ M.run s l₁ = some u

theorem visits_start (s : σ) (l : List α) : M.Visits s l s := ⟨[], l, rfl, rfl⟩

variable {M} {P : σ → α → Prop}

theorem Visits.cons {s v u : σ} {a : α} {l : List α} (hnext : M.next s a = some v)
    (h : M.Visits v l u) : M.Visits s (a :: l) u := by
  obtain ⟨l₁, l₂, rfl, hrun⟩ := h
  exact ⟨a :: l₁, l₂, rfl, M.run_cons_eq_some.mpr ⟨v, hnext, hrun⟩⟩

theorem Takes.cons {s v u : σ} {a b : α} {l : List α} (hnext : M.next s a = some v)
    (h : M.Takes v l u b) : M.Takes s (a :: l) u b := by
  obtain ⟨l₁, l₂, rfl, hrun⟩ := h
  exact ⟨a :: l₁, l₂, rfl, M.run_cons_eq_some.mpr ⟨v, hnext, hrun⟩⟩

/-- All the steps of a run of the restricted machine meet its condition. -/
theorem takes_of_guard [∀ s a, Decidable (P s a)] {s t u : σ} {a : α} {l : List α}
    (h : (M.guard P).run s l = some t) (htakes : M.Takes s l u a) : P u a := by
  obtain ⟨l₁, l₂, rfl, hu⟩ := htakes
  induction l₁ generalizing s with
  | nil =>
    obtain ⟨v, hv, -⟩ := (M.guard P).run_cons_eq_some.mp h
    exact Option.some.inj hu ▸ (guard_next_eq_some.mp hv).1
  | cons b l₁ ih =>
    obtain ⟨v, hv, hrest⟩ := (M.guard P).run_cons_eq_some.mp h
    obtain ⟨w, hw, hu⟩ := M.run_cons_eq_some.mp hu
    obtain rfl := Option.some.inj (hw.symm.trans (guard_next_eq_some.mp hv).2)
    exact ih hu hrest

/-- **The exact condition**: if steps that meet `P` keep an invariant that gives
`I`, and every other step ends in a state without `I`, then a run has `I`
throughout just if all its steps meet `P`. -/
theorem visits_iff_takes {K I : σ → Prop} (sound : ∀ s, K s → I s)
    (keeps : ∀ s a t, K s → P s a → M.next s a = some t → K t)
    (needs : ∀ s a t, K s → M.next s a = some t → I t → P s a) {s t : σ} {l : List α}
    (hs : K s) (h : M.run s l = some t) :
    (∀ u, M.Visits s l u → I u) ↔ ∀ u a, M.Takes s l u a → P u a := by
  induction l generalizing s with
  | nil =>
    refine iff_of_true ?_ ?_
    · rintro u ⟨l₁, l₂, hl, hrun⟩
      obtain ⟨rfl, -⟩ := List.append_eq_nil_iff.mp hl.symm
      exact Option.some.inj hrun ▸ sound s hs
    · rintro u a ⟨l₁, l₂, hl, -⟩
      simp at hl
  | cons a l ih =>
    obtain ⟨v, hnext, hrun⟩ := M.run_cons_eq_some.mp h
    constructor
    · intro hall
      have hP : P s a := needs s a v hs hnext (hall v ((M.visits_start v l).cons hnext))
      have hrest := (ih (keeps s a v hs hP hnext) hrun).mp fun u hu => hall u (hu.cons hnext)
      rintro u b ⟨l₁, l₂, hl, hu⟩
      cases l₁ with
      | nil =>
        obtain ⟨rfl, -⟩ := List.cons.inj hl
        exact Option.some.inj hu ▸ hP
      | cons c l₁ =>
        obtain ⟨rfl, rfl⟩ := List.cons.inj hl
        obtain ⟨w, hw, hu⟩ := M.run_cons_eq_some.mp hu
        obtain rfl := Option.some.inj (hnext.symm.trans hw)
        exact hrest u b ⟨l₁, l₂, rfl, hu⟩
    · intro hall
      have hP : P s a := hall s a ⟨[], l, rfl, rfl⟩
      have hrest := (ih (keeps s a v hs hP hnext) hrun).mpr fun u b hu => hall u b (hu.cons hnext)
      rintro u ⟨l₁, l₂, hl, hu⟩
      cases l₁ with
      | nil => exact Option.some.inj hu ▸ sound s hs
      | cons c l₁ =>
        obtain ⟨rfl, rfl⟩ := List.cons.inj hl
        obtain ⟨w, hw, hu⟩ := M.run_cons_eq_some.mp hu
        obtain rfl := Option.some.inj (hnext.symm.trans hw)
        exact hrest u ⟨l₁, l₂, rfl, hu⟩

/-- A step of a run is its first one, or a step of the rest. -/
theorem takes_cons {s u : σ} {a b : α} {l : List α} : M.Takes s (a :: l) u b ↔
    (u = s ∧ b = a) ∨ ∃ v, M.next s a = some v ∧ M.Takes v l u b := by
  constructor
  · rintro ⟨l₁, l₂, hl, hu⟩
    cases l₁ with
    | nil =>
      obtain ⟨rfl, -⟩ := List.cons.inj hl
      exact .inl ⟨(Option.some.inj hu).symm, rfl⟩
    | cons c l₁ =>
      obtain ⟨rfl, rfl⟩ := List.cons.inj hl
      obtain ⟨v, hv, hu⟩ := M.run_cons_eq_some.mp hu
      exact .inr ⟨v, hv, l₁, l₂, rfl, hu⟩
  · rintro (⟨rfl, rfl⟩ | ⟨v, hv, htakes⟩)
    · exact ⟨[], l, rfl, rfl⟩
    · exact htakes.cons hv

/-- The exact condition, for a property of the steps: where the invariant holds the two say the
same of each step, and a step that meets them keeps it. -/
theorem takes_iff_takes {K : σ → Prop} {Q : σ → α → Prop} (same : ∀ s a, K s → (Q s a ↔ P s a))
    (keeps : ∀ s a t, K s → P s a → M.next s a = some t → K t) {s : σ} (hs : K s) (l : List α) :
    (∀ u a, M.Takes s l u a → Q u a) ↔ ∀ u a, M.Takes s l u a → P u a := by
  induction l generalizing s with
  | nil =>
    have hnone (u : σ) (a : α) : ¬M.Takes s [] u a := fun ⟨l₁, l₂, hl, _⟩ => by simp at hl
    exact iff_of_true (fun u a h => absurd h (hnone u a)) fun u a h => absurd h (hnone u a)
  | cons a l ih =>
    have hfirst : M.Takes s (a :: l) s a := takes_cons.mpr (.inl ⟨rfl, rfl⟩)
    constructor
    · intro hall u b htakes
      have hP : P s a := (same s a hs).mp (hall s a hfirst)
      rcases takes_cons.mp htakes with ⟨rfl, rfl⟩ | ⟨v, hv, hrest⟩
      · exact hP
      · exact (ih (keeps s a v hs hP hv)).mp (fun u b h => hall u b (h.cons hv)) u b hrest
    · intro hall u b htakes
      have hP : P s a := hall s a hfirst
      rcases takes_cons.mp htakes with ⟨rfl, rfl⟩ | ⟨v, hv, hrest⟩
      · exact (same u b hs).mpr hP
      · exact (ih (keeps s a v hs hP hv)).mpr (fun u b h => hall u b (h.cons hv)) u b hrest

end Machine
end NxNic

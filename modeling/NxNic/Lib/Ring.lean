import Mathlib.Algebra.BigOperators.Intervals
import Mathlib.Data.Nat.ModEq
import Mathlib.Order.Interval.Finset.Nat

/-! # Ring indices

Arithmetic of a ring of `N` slots whose two ends are kept as slot indices.  Time
is counted by unbounded counters: the `n`-th item ever put on the ring sits in
slot `n % N`.  The lemmas relate the index computations code makes (`next`,
`Between`, `bound`, `span`) to these counters, for two counters less than a lap apart.

The last items put on the ring are in its cells (`Holds`); an item put on it takes the
cell of an item that is no longer needed.
-/
namespace NxNic
namespace Ring

/-- The slot after slot `i`. -/
def next (N i : Nat) : Nat := if i + 1 = N then 0 else i + 1

/-- Slot `s` is in the half-open ring interval from slot `a` to slot `b`, which
is empty when the two coincide. -/
def Between (a b s : Nat) : Prop := if a ≤ b then a ≤ s ∧ s < b else a ≤ s ∨ s < b

instance (a b s : Nat) : Decidable (Between a b s) := by
  unfold Between; infer_instance

/-- The end of the free space that begins at slot `k`, as a number of at least
`k`: the slot `last`, one lap later when it is not ahead of `k`. -/
def bound (N last k : Nat) : Nat := if last ≤ k then last + N else last

/-- The number of slots from slot `a` up to slot `b`. -/
def span (N a b : Nat) : Nat := (b + N - a) % N

/-- Of the items `l` ever put on the ring, those from the `lo`-th on are in their cells. -/
def Holds {α : Type} (N lo : Nat) (cell : Nat → α) (l : List α) : Prop :=
  ∀ i, lo ≤ i → ∀ h : i < l.length, cell (i % N) = l[i]

variable {N : Nat}

/-- `n` items after the counter `m`, the slot is `m % N + n`, less one lap where
that is past the end. -/
theorem add_mod_cases (m n : Nat) (hn : n ≤ N) (hN : 0 < N) :
    (m + n) % N = if m % N + n < N then m % N + n else m % N + n - N := by
  have hm := Nat.mod_lt m hN
  rw [Nat.add_mod, ← Nat.mod_add_mod]
  split
  · rename_i h
    rcases Nat.lt_or_eq_of_le hn with hlt | rfl
    · rw [Nat.mod_eq_of_lt hlt, Nat.mod_mod, Nat.mod_eq_of_lt h]
    · omega
  · rename_i h
    rcases Nat.lt_or_eq_of_le hn with hlt | rfl
    · rw [Nat.mod_eq_of_lt hlt, Nat.mod_mod, Nat.mod_eq_sub_mod (by omega),
        Nat.mod_eq_of_lt (by omega)]
    · rw [Nat.mod_self, Nat.add_zero, Nat.mod_mod, Nat.mod_mod, Nat.add_sub_cancel]

theorem next_mod (n : Nat) (hN : 0 < N) : next N (n % N) = (n + 1) % N := by
  have hn := Nat.mod_lt n hN
  rw [add_mod_cases n 1 hN hN]
  unfold next
  split <;> split <;> omega

/-- `d` slots after the slot of a counter. -/
theorem iterate_next (m d : Nat) (hN : 0 < N) : (next N)^[d] (m % N) = (m + d) % N := by
  induction d with
  | zero => rfl
  | succ d ih => rw [Function.iterate_succ_apply', ih, next_mod _ hN, Nat.add_assoc]

/-- Two counters less than a lap apart that share a slot are equal. -/
theorem eq_of_mod_eq {a b : Nat} (hab : a ≤ b) (hlt : b < a + N) (h : a % N = b % N) :
    a = b := by
  obtain ⟨d, rfl⟩ := Nat.exists_eq_add_of_le hab
  have hN : 0 < N := by omega
  have ha := Nat.mod_lt a hN
  rw [add_mod_cases a d (by omega) hN] at h
  split at h <;> omega

/-- **The ring interval between two counters less than a lap apart** holds the
slots of the counters between them. -/
theorem between_mod_iff {lo hi s : Nat} (hle : lo ≤ hi) (hlt : hi < lo + N) (hs : s < N) :
    Between (lo % N) (hi % N) s ↔ ∃ i, lo ≤ i ∧ i < hi ∧ i % N = s := by
  obtain ⟨d, rfl⟩ := Nat.exists_eq_add_of_le hle
  have hN : 0 < N := by omega
  have hlo := Nat.mod_lt lo hN
  rw [add_mod_cases lo d (by omega) hN]
  unfold Between
  constructor
  · intro h
    by_cases hcase : lo % N ≤ s
    · refine ⟨lo + (s - lo % N), by omega, ?_, ?_⟩
      · split at h <;> split at h <;> omega
      · rw [add_mod_cases lo _ (by omega) hN]
        split <;> omega
    · refine ⟨lo + (s + N - lo % N), by omega, ?_, ?_⟩
      · split at h <;> split at h <;> omega
      · rw [add_mod_cases lo _ (by omega) hN]
        split <;> omega
  · rintro ⟨i, hi, hd, rfl⟩
    obtain ⟨e, rfl⟩ := Nat.exists_eq_add_of_le hi
    rw [add_mod_cases lo e (by omega) hN]
    split <;> split <;> split <;> omega

/-- The room before `bound` is what a full lap leaves over the counters in use. -/
theorem bound_mod {lo hi : Nat} (hle : lo ≤ hi) (hlt : hi < lo + N) :
    bound N (lo % N) (hi % N) + (hi - lo) = hi % N + N := by
  obtain ⟨d, rfl⟩ := Nat.exists_eq_add_of_le hle
  have hN : 0 < N := by omega
  have hlo := Nat.mod_lt lo hN
  rw [add_mod_cases lo d (by omega) hN]
  unfold bound
  split <;> split <;> omega

/-- A counter in the lap after `hi` shares no slot with the interval that ends
at `hi`. -/
theorem not_between_of_room {lo hi n : Nat} (hle : lo ≤ hi) (h1 : hi ≤ n) (h2 : n < lo + N) :
    ¬ Between (lo % N) (hi % N) (n % N) := by
  have hN : 0 < N := by omega
  rw [between_mod_iff hle (by omega) (Nat.mod_lt n hN)]
  rintro ⟨i, hi1, hi2, he⟩
  have := eq_of_mod_eq (N := N) (a := i) (b := n) (by omega) (by omega) he
  omega

/-- A sum over the slots is a sum over any lap of the counters. -/
theorem sum_lap {M : Type} [AddCommMonoid M] (f : Nat → M) (lo : Nat) :
    ∑ i ∈ Finset.Ico lo (lo + N), f (i % N) = ∑ s ∈ Finset.range N, f s := by
  have h := congrArg (fun m => (m.map f).sum) (Nat.multiset_Ico_map_mod lo N)
  simp only [Multiset.map_map] at h
  exact h

theorem span_mod {a b : Nat} (hab : a ≤ b) (hlt : b < a + N) :
    span N (a % N) (b % N) = b - a := by
  obtain ⟨d, rfl⟩ := Nat.exists_eq_add_of_le hab
  have hN : 0 < N := by omega
  have ha := Nat.mod_lt a hN
  rw [span, add_mod_cases a d (by omega) hN]
  split
  · rw [show a % N + d + N - a % N = d + N by omega, Nat.add_mod_right,
      Nat.mod_eq_of_lt (by omega)]
    omega
  · rw [show a % N + d - N + N - a % N = d by omega, Nat.mod_eq_of_lt (by omega)]
    omega

section Holds
variable {α : Type} {lo : Nat} {cell : Nat → α} {l : List α}

theorem Holds.mono (h : Holds N lo cell l) {hi : Nat} (hle : lo ≤ hi) : Holds N hi cell l :=
  fun i hi => h i (Nat.le_trans hle hi)

/-- An item is put on a ring that is not full. -/
theorem Holds.push (h : Holds N lo cell l) (hlt : l.length < lo + N) (a : α) :
    Holds N lo (Function.update cell (l.length % N) a) (l ++ [a]) := by
  intro i hi hlen
  rw [List.length_append, List.length_singleton] at hlen
  by_cases heq : i = l.length
  · subst heq
    rw [Function.update_self, List.getElem_append_right (Nat.le_refl _)]
    simp
  · have hil : i < l.length := by omega
    have hne : i % N ≠ l.length % N := fun hmod =>
      heq (eq_of_mod_eq (Nat.le_of_lt hil) (by omega) hmod)
    rw [Function.update_of_ne hne, List.getElem_append_left hil]
    exact h i hi hil

/-- The cells from that of the counter `P` on hold what was put on the ring since. -/
theorem Holds.read (h : Holds N lo cell l) {P : Nat} (hlo : lo ≤ P) (hP : P ≤ l.length) :
    (List.range (l.length - P)).map (fun i => cell ((P % N + i) % N)) = l.drop P := by
  apply List.ext_getElem
  · rw [List.length_map, List.length_range, List.length_drop]
  · intro i hi _
    rw [List.length_map, List.length_range] at hi
    rw [List.getElem_map, List.getElem_range, List.getElem_drop, Nat.mod_add_mod]
    exact h (P + i) (by omega) (by omega)

end Holds

end Ring
end NxNic

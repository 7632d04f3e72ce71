import Mathlib.Algebra.BigOperators.Group.Finset.Basic
import Mathlib.Data.Multiset.AddSub
import Mathlib.Data.Multiset.Count
import Mathlib.Data.Multiset.Filter

/-! # Ledgers of resources

A ledger is a list of acquisitions and releases, read from left to right.  A
resource may be held several times at once, so what is held is a multiset.
`settle m es` is what is held after `es` when `m` was held before, and `none`
when `es` releases something that is not held at that moment.

What a ledger acquires and does not release is what is held after it
(`count_settle`).
-/
namespace NxNic

/-- An entry of a ledger. -/
inductive Entry (α : Type) where
  | acquire (x : α)
  | release (x : α)
deriving DecidableEq

namespace Ledger
variable {α : Type} [DecidableEq α]

/-- What is held after the entries, `none` when one releases what is not held. -/
def settle : Multiset α → List (Entry α) → Option (Multiset α)
  | m, [] => some m
  | m, .acquire x :: es => settle (x ::ₘ m) es
  | m, .release x :: es => if x ∈ m then settle (m.erase x) es else none

@[simp] theorem settle_nil (m : Multiset α) : settle m [] = some m := rfl

@[simp] theorem settle_acquire (m : Multiset α) (x : α) (es : List (Entry α)) :
    settle m (.acquire x :: es) = settle (x ::ₘ m) es := rfl

theorem settle_append (m : Multiset α) (es fs : List (Entry α)) :
    settle m (es ++ fs) = (settle m es).bind fun k => settle k fs := by
  induction es generalizing m with
  | nil => rfl
  | cons e es ih =>
    cases e with
    | acquire x => exact ih _
    | release x =>
      simp only [List.cons_append, settle]
      split
      · exact ih _
      · rfl

/-- Two stretches of a ledger. -/
theorem settle_append_of {m k l : Multiset α} {es fs : List (Entry α)}
    (h1 : settle m es = some k) (h2 : settle k fs = some l) : settle m (es ++ fs) = some l := by
  rw [settle_append, h1]
  exact h2

/-- What is held may be released, in any order. -/
theorem settle_releases (m : Multiset α) (xs : List α) :
    settle (m + (xs : Multiset α)) (xs.map .release) = some m := by
  induction xs with
  | nil => simp
  | cons x xs ih =>
    rw [List.map_cons, settle, if_pos (by simp)]
    have herase : (m + ↑(x :: xs)).erase x = m + ↑xs := by
      rw [← Multiset.cons_coe, Multiset.add_cons, Multiset.erase_cons_head]
    rw [herase, ih]

/-- **Releases settle a ledger exactly when they are what is held.** -/
theorem settle_releases_eq_zero {m : Multiset α} {xs : List α} :
    settle m (xs.map .release) = some 0 ↔ (xs : Multiset α) = m := by
  constructor
  · intro h
    induction xs generalizing m with
    | nil =>
      rw [List.map_nil, settle_nil] at h
      exact (Option.some.inj h).symm
    | cons x xs ih =>
      rw [List.map_cons, settle] at h
      split at h
      · rename_i hx
        rw [← Multiset.cons_coe, ih h, Multiset.cons_erase hx]
      · cases h
  · rintro rfl
    have h := settle_releases (0 : Multiset α) xs
    rwa [Multiset.zero_add] at h

/-- How often the ledger acquires and releases a resource. -/
def acquired (x : α) (es : List (Entry α)) : Nat := es.count (.acquire x)
def released (x : α) (es : List (Entry α)) : Nat := es.count (.release x)

@[simp] theorem acquired_append (x : α) (es fs : List (Entry α)) :
    acquired x (es ++ fs) = acquired x es + acquired x fs := List.count_append

@[simp] theorem released_append (x : α) (es fs : List (Entry α)) :
    released x (es ++ fs) = released x es + released x fs := List.count_append

theorem acquired_pos {x : α} {es : List (Entry α)} : 0 < acquired x es ↔ .acquire x ∈ es :=
  List.count_pos_iff

/-- What was acquired is released or still held. -/
theorem count_settle {m k : Multiset α} {es : List (Entry α)} (h : settle m es = some k) (x : α) :
    m.count x + acquired x es = k.count x + released x es := by
  induction es generalizing m with
  | nil =>
    obtain rfl := Option.some.inj h
    rfl
  | cons e es ih =>
    cases e with
    | acquire y =>
      have := ih h
      rw [Multiset.count_cons] at this
      simp only [acquired, released, List.count_cons, beq_iff_eq, Entry.acquire.injEq,
        reduceCtorEq, if_false] at this ⊢
      simp only [eq_comm (a := y)]
      omega
    | release y =>
      rw [settle] at h
      split at h
      · rename_i hy
        have := ih h
        simp only [acquired, released, List.count_cons, beq_iff_eq, Entry.release.injEq,
          reduceCtorEq, if_false] at this ⊢
        by_cases hxy : y = x
        · subst hxy
          rw [Multiset.count_erase_self] at this
          have := Multiset.count_pos.mpr hy
          simp only [if_true]
          omega
        · rw [Multiset.count_erase_of_ne (Ne.symm hxy)] at this
          rw [if_neg hxy]
          omega
      · cases h

omit [DecidableEq α] in
/-- Of each pair of multisets, the elements that meet `p` are together those of
the first components exactly when `p` tells the components of each pair apart. -/
theorem sum_filter_eq_iff {ι : Type} (s : Finset ι) (held rest : ι → Multiset α) (p : α → Prop)
    [DecidablePred p] :
    ∑ i ∈ s, (held i + rest i).filter p = ∑ i ∈ s, held i ↔
      ∀ i ∈ s, (∀ x ∈ held i, p x) ∧ ∀ x ∈ rest i, ¬ p x := by
  constructor
  · intro h
    have hall : ∀ i ∈ s, ∀ x ∈ held i, p x := by
      intro i hi x hx
      have hmem : x ∈ ∑ i ∈ s, (held i + rest i).filter p := h ▸ Multiset.mem_sum.mpr ⟨i, hi, hx⟩
      obtain ⟨j, -, hj⟩ := Multiset.mem_sum.mp hmem
      exact Multiset.of_mem_filter hj
    have hsplit : ∑ i ∈ s, (held i + rest i).filter p =
        ∑ i ∈ s, held i + ∑ i ∈ s, (rest i).filter p := by
      rw [← Finset.sum_add_distrib]
      refine Finset.sum_congr rfl fun i hi => ?_
      rw [Multiset.filter_add, Multiset.filter_eq_self.mpr (hall i hi)]
    have hzero : ∑ i ∈ s, (rest i).filter p = 0 := by
      rw [hsplit] at h
      exact add_eq_left.mp h
    refine fun i hi => ⟨hall i hi, fun x hx hp => ?_⟩
    have hmem : x ∈ ∑ i ∈ s, (rest i).filter p :=
      Multiset.mem_sum.mpr ⟨i, hi, Multiset.mem_filter.mpr ⟨hx, hp⟩⟩
    rw [hzero] at hmem
    exact Multiset.notMem_zero x hmem
  · intro h
    refine Finset.sum_congr rfl fun i hi => ?_
    rw [Multiset.filter_add, Multiset.filter_eq_self.mpr (h i hi).1,
      Multiset.filter_eq_nil.mpr (h i hi).2, add_zero]

end Ledger
end NxNic

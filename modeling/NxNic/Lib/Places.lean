import Mathlib.Data.Finset.Card
import Mathlib.Data.List.Nodup
import Mathlib.Data.List.Perm.Basic

/-! # Items in places

A fixed set of items is spread over places, each of which holds a list of them.
Every item is in exactly one place, and there once (`Places`).  Whatever is taken
from one place and put into another keeps this (`Places.move`), and so does any
change of order within a place (`Places.reorder`).

The number of items in a place is so bounded by the number of all (`length_add_le`), and what is
in one place is in no other (`existsUnique`).
-/
namespace NxNic
variable {ι α : Type} {L L' : ι → List α} {S : Finset α}

/-- The lists `L i` hold the items of `S`, each item once in one of them. -/
structure Places (L : ι → List α) (S : Finset α) : Prop where
  nodup : ∀ i, (L i).Nodup
  mem_iff : ∀ a, a ∈ S ↔ ∃ i, a ∈ L i
  unique : ∀ {a i j}, a ∈ L i → a ∈ L j → i = j

namespace Places

/-- **Exactly one place** for each item. -/
theorem existsUnique (h : Places L S) {a : α} (ha : a ∈ S) : ∃! i, a ∈ L i := by
  obtain ⟨i, hi⟩ := (h.mem_iff a).mp ha
  exact ⟨i, hi, fun j hj => h.unique hj hi⟩

theorem mem (h : Places L S) {a : α} {i : ι} (ha : a ∈ L i) : a ∈ S := (h.mem_iff a).mpr ⟨i, ha⟩

/-- Two places together hold no item twice. -/
theorem nodup_append (h : Places L S) {i j : ι} (hij : i ≠ j) : (L i ++ L j).Nodup :=
  List.nodup_append.mpr
    ⟨h.nodup i, h.nodup j, fun _ ha _ hb hab => hij (h.unique ha (hab ▸ hb))⟩

/-- Two places hold no more items than there are. -/
theorem length_add_le (h : Places L S) {i j : ι} (hij : i ≠ j) :
    (L i).length + (L j).length ≤ S.card := by
  classical
  rw [← List.length_append, ← List.toFinset_card_of_nodup (h.nodup_append hij)]
  refine Finset.card_le_card fun a ha => ?_
  rcases List.mem_append.mp (List.mem_toFinset.mp ha) with ha | ha
  · exact h.mem ha
  · exact h.mem ha

/-- An item is in one of two places, or in another. -/
theorem exists_mem_iff (L : ι → List α) (i j : ι) (a : α) :
    (∃ k, a ∈ L k) ↔ (a ∈ L i ∨ a ∈ L j) ∨ ∃ k, ¬ (k = i ∨ k = j) ∧ a ∈ L k := by
  constructor
  · rintro ⟨k, hk⟩
    by_cases hk' : k = i ∨ k = j
    · rcases hk' with rfl | rfl
      · exact Or.inl (Or.inl hk)
      · exact Or.inl (Or.inr hk)
    · exact Or.inr ⟨k, hk', hk⟩
  · rintro ((hi | hj) | ⟨k, -, hk⟩)
    · exact ⟨i, hi⟩
    · exact ⟨j, hj⟩
    · exact ⟨k, hk⟩

/-- **Items move** between two places, and nowhere else. -/
theorem move (h : Places L S) {i j : ι} (hij : i ≠ j) (hperm : (L' i ++ L' j).Perm (L i ++ L j))
    (hother : ∀ k, k ≠ i → k ≠ j → L' k = L k) : Places L' S := by
  have hnodup : (L' i ++ L' j).Nodup := hperm.nodup_iff.mpr (h.nodup_append hij)
  obtain ⟨hi, hj, hdisj⟩ := List.nodup_append.mp hnodup
  replace hother : ∀ k, ¬ (k = i ∨ k = j) → L' k = L k := fun k hk =>
    hother k (fun hki => hk (Or.inl hki)) (fun hkj => hk (Or.inr hkj))
  have hboth : ∀ a, a ∈ L' i ∨ a ∈ L' j ↔ a ∈ L i ∨ a ∈ L j := by
    intro a
    rw [← List.mem_append, ← List.mem_append]
    exact hperm.mem_iff
  have hin : ∀ {a k}, (k = i ∨ k = j) → a ∈ L' k → a ∈ L' i ∨ a ∈ L' j := by
    rintro a k (rfl | rfl) hk
    · exact Or.inl hk
    · exact Or.inr hk
  -- an item in one of the two places is in none of the others
  have hapart : ∀ {a k}, a ∈ L' i ∨ a ∈ L' j → a ∈ L' k → k = i ∨ k = j := by
    intro a k ha hk
    by_contra hne
    rw [hother k hne] at hk
    rcases (hboth a).mp ha with ha | ha
    · exact hne (Or.inl (h.unique hk ha))
    · exact hne (Or.inr (h.unique hk ha))
  refine ⟨fun k => ?_, fun a => ?_, fun {a k l} hk hl => ?_⟩
  · by_cases hk : k = i ∨ k = j
    · rcases hk with rfl | rfl
      · exact hi
      · exact hj
    · exact hother k hk ▸ h.nodup k
  · rw [h.mem_iff, exists_mem_iff L i j, exists_mem_iff L' i j, hboth]
    exact or_congr_right (exists_congr fun k => and_congr_right fun hk => by rw [hother k hk])
  · by_cases hk' : k = i ∨ k = j
    · rcases hk' with rfl | rfl <;> rcases hapart (hin (by simp) hk) hl with rfl | rfl
      · rfl
      · exact absurd rfl (hdisj a hk a hl)
      · exact absurd rfl (hdisj a hl a hk)
      · rfl
    · have hl' : ¬ (l = i ∨ l = j) := fun hl' => hk' (hapart (hin hl' hl) hk)
      rw [hother k hk'] at hk
      rw [hother l hl'] at hl
      exact h.unique hk hl

/-- The items of one place change their order. -/
theorem reorder (h : Places L S) {i : ι} (hperm : (L' i).Perm (L i))
    (hother : ∀ k, k ≠ i → L' k = L k) : Places L' S := by
  have hmem : ∀ k a, a ∈ L' k ↔ a ∈ L k := by
    intro k a
    by_cases hk : k = i
    · exact hk ▸ hperm.mem_iff
    · rw [hother k hk]
  refine ⟨fun k => ?_, fun a => ?_, fun hk hl => h.unique ((hmem _ _).mp hk) ((hmem _ _).mp hl)⟩
  · by_cases hk : k = i
    · exact hk ▸ hperm.nodup_iff.mpr (h.nodup i)
    · exact hother k hk ▸ h.nodup k
  · rw [h.mem_iff]
    exact exists_congr fun k => (hmem k a).symm

end Places
end NxNic

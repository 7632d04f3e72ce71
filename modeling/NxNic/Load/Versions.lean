import NxNic.Load.Selection

/-! # The order of versions

The driver compares versions in two ways: `compare_fw_version` goes from field to field, and
`NX_FW_VERSION` packs them into a number.  It leaves 8 bits to the sub-version, which has 16.

`NicVersion.Newer` of `Load/Selection` is the order the fields have.  `OrderedAlike` says of a
pair of versions that both ways put them in that order, whichever is the first.  The comparison by
fields always does (`compareFwVersion_neg_iff`); the packed number is 256 times the release and the
sub-version on top (`NicVersion.code_eq`), so it does just while the sub-version of the earlier
release does not make up for the difference (`SubsFit`).
-/
namespace NxNic
namespace Load
variable {v w : NicVersion}

/-- The part of a version in front of the sub-version, as a number. -/
def NicVersion.release (v : NicVersion) : Nat := v.major.toNat * 2 ^ 8 + v.minor.toNat

/-- **The property**: both ways put the two versions in the order of their fields. -/
structure OrderedAlike (v w : NicVersion) : Prop where
  packed : v.code < w.code ↔ w.Newer v
  packed_symm : w.code < v.code ↔ v.Newer w
  fields : compareFwVersion v w < 0 ↔ w.Newer v
  fields_symm : compareFwVersion w v < 0 ↔ v.Newer w

/-- **The condition**: of versions of two releases, the sub-version of the earlier one is ahead of
that of the later one by less than 256 for every release in between. -/
def SubsFit (v w : NicVersion) : Prop :=
  (v.release < w.release → v.sub.toNat < w.sub.toNat + 2 ^ 8 * (w.release - v.release)) ∧
    (w.release < v.release → w.sub.toNat < v.sub.toNat + 2 ^ 8 * (v.release - w.release))

theorem NicVersion.code_eq (v : NicVersion) : v.code = 2 ^ 8 * v.release + v.sub.toNat := by
  unfold code release
  omega

/-- The later version has the later release, or of one release the later sub-version. -/
theorem NicVersion.newer_iff : w.Newer v ↔
    v.release < w.release ∨ v.release = w.release ∧ v.sub.toNat < w.sub.toNat := by
  have hminor := v.minor.isLt
  have hminor' := w.minor.isLt
  have hmajor : v.major = w.major ↔ v.major.toNat = w.major.toNat := BitVec.toNat_inj.symm
  have hsame : v.minor = w.minor ↔ v.minor.toNat = w.minor.toNat := BitVec.toNat_inj.symm
  rw [Newer, hmajor, hsame, BitVec.lt_def, BitVec.lt_def, BitVec.lt_def]
  unfold release
  omega

/-- The packed versions are in the right order just if no sub-version reaches into the release. -/
theorem code_lt_iff (h : v.release < w.release →
    v.sub.toNat < w.sub.toNat + 2 ^ 8 * (w.release - v.release)) :
    w.Newer v → v.code < w.code := by
  intro hnew
  rw [v.code_eq, w.code_eq]
  rcases NicVersion.newer_iff.mp hnew with hlt | ⟨heq, hsub⟩
  · have hfit := h hlt
    omega
  · omega

/-- **When packed versions compare like versions**: just if the sub-versions are no further apart
than the releases allow.  Of one release any two versions are ordered alike. -/
theorem orderedAlike_iff (v w : NicVersion) : OrderedAlike v w ↔ SubsFit v w := by
  constructor
  · intro h
    refine ⟨fun hlt => ?_, fun hlt => ?_⟩
    · have hcode := h.packed.mpr (NicVersion.newer_iff.mpr (Or.inl hlt))
      rw [v.code_eq, w.code_eq] at hcode
      omega
    · have hcode := h.packed_symm.mpr (NicVersion.newer_iff.mpr (Or.inl hlt))
      rw [v.code_eq, w.code_eq] at hcode
      omega
  · rintro ⟨hvw, hwv⟩
    have hcode := v.code_eq
    have hcode' := w.code_eq
    refine ⟨⟨fun hlt => ?_, code_lt_iff hvw⟩, ⟨fun hlt => ?_, code_lt_iff hwv⟩,
      compareFwVersion_neg_iff, compareFwVersion_neg_iff⟩
    · rw [NicVersion.newer_iff]
      by_cases hrelease : w.release < v.release
      · have hfit := hwv hrelease
        omega
      · omega
    · rw [NicVersion.newer_iff]
      by_cases hrelease : v.release < w.release
      · have hfit := hvw hrelease
        omega
      · omega

/-- 4.1.0 is later than the 4.0.505 that is asked of the flash, and packed it is earlier. -/
theorem later_packed_earlier : ¬OrderedAlike ⟨4, 0, 505⟩ ⟨4, 1, 0⟩ := by
  intro h
  exact absurd (h.packed.mpr (by decide)) (by decide)

/-- Sub-versions of 8 bits fit. -/
theorem SubsFit.of_lt (hv : v.sub.toNat < 2 ^ 8) (hw : w.sub.toNat < 2 ^ 8) : SubsFit v w :=
  ⟨fun _ => by omega, fun _ => by omega⟩

end Load
end NxNic

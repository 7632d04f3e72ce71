import Mathlib.Algebra.GroupWithZero.Nat
import Mathlib.Data.BitVec
import NxNic.Lib.Machine

/-! # Resets in quick succession

`check_fw_reset_failure` (`unm_nic_main.c`) is to give the card up when five resets follow one
another at short intervals.  It keeps a count and the tick counter's value at the last call, and
the latter in 64 bits where the counter may have 32.  The probe presets the stamp, so the first
call takes the time since then, which may be any, for the distance between two resets.

The state, `Watched`, has the two fields of the adapter and beside them the resets as they are: how
many ticks there have been at the last one, without a bound, and which of them were short.  A step
is a reset.  `Stamped.told_iff` says when the subtraction of the tick counters tells a short reset
from the others, `Detects.step` and `Detects.told` that the count is right afterwards just if it
does, and `detects_iff` is the result for runs of resets.
-/
namespace NxNic
namespace Fw

/-! ## The function -/

/-- The kernel: `BITS_PER_LONG`, and `HZ`, for which 25 seconds are an `int` of ticks. -/
structure Kernel where
  bits : Nat
  hz : Nat
  long : bits = 32 ∨ bits = 64
  int : 25 * hz < 2 ^ 31

/-- `UNM_FW_RESET_INTERVAL`. -/
def Kernel.fwResetInterval (k : Kernel) : Nat := 25 * k.hz
/-- `UNM_FW_RESET_FAILED_THRESHOLD`. -/
def fwResetFailedThreshold : Nat := 5

/-- `jiffies` after `t` ticks, as it is converted to 64 bits. -/
def Kernel.jiffies (k : Kernel) (t : Nat) : BitVec 64 := (BitVec.ofNat k.bits t).setWidth 64

/-- `fwload_failed_jiffies` and `fwload_failed_count`. -/
structure FwloadFailed where
  jiffies : BitVec 64
  count : Nat

/-- A call of `check_fw_reset_failure`, which reads `jiffies` twice. -/
structure ResetCall where
  now : Nat
  later : Nat

/-- The difference is below the interval. -/
def countsShort (k : Kernel) (s : FwloadFailed) (now : Nat) : Bool :=
  k.jiffies now - s.jiffies < BitVec.ofNat 64 k.fwResetInterval

/-- `check_fw_reset_failure`. -/
def checkFwResetFailure (k : Kernel) (s : FwloadFailed) (r : ResetCall) : Bool × FwloadFailed :=
  let count := if countsShort k s r.now then s.count + 1 else 0
  if fwResetFailedThreshold ≤ count then (true, ⟨k.jiffies r.later, 0⟩)
  else (false, ⟨k.jiffies r.later, count⟩)

/-! ## Resets as they are -/

/-- The run of short resets that the last one ends, counted from the last report or from the last
reset that was not short.  The resets are listed from the last one on, and a run as long as the
threshold is one that was reported. -/
def stormLength : List Bool → Nat
  | [] => 0
  | short :: earlier =>
      if short then
        if stormLength earlier = fwResetFailedThreshold then 1 else stormLength earlier + 1
      else 0

/-- The adapter since its probe: when the last reset was, or the probe, which resets were short,
and what the function has returned last. -/
structure Watched where
  fw : FwloadFailed
  last : Nat
  resets : List Bool
  failed : Bool

/-- What the probe sets up after `t` ticks. -/
def Watched.probed (k : Kernel) (t : Nat) : Watched := ⟨⟨k.jiffies t, 0⟩, t, [], false⟩

/-- A reset is short if less than the interval has gone by since the one before it. -/
def Watched.isShort (k : Kernel) (s : Watched) (r : ResetCall) : Bool :=
  !s.resets.isEmpty && r.now - s.last < k.fwResetInterval

/-- Resets at gaps below half the range of the tick counter, the first at any time after the
probe. -/
def resetMachine (k : Kernel) : Machine Watched ResetCall where
  next s r :=
    if s.last ≤ r.now ∧ r.now ≤ r.later ∧
        (s.resets.isEmpty = true ∨ r.now - s.last < 2 ^ (k.bits - 1)) then
      let result := checkFwResetFailure k s.fw r
      some ⟨result.2, r.later, s.isShort k r :: s.resets, result.1⟩
    else none

/-- **The property**: the last call has reported just if the run had the length of the threshold,
and the count is that of the run, or zero after a report. -/
structure Detects (s : Watched) : Prop where
  report : s.failed = true ↔ stormLength s.resets = fwResetFailedThreshold
  count : s.fw.count =
    if stormLength s.resets = fwResetFailedThreshold then 0 else stormLength s.resets

/-- A tick counter of 32 bits has come round between the two. -/
def Wraps (k : Kernel) (last now : Nat) : Prop := k.bits = 32 ∧ last / 2 ^ 32 ≠ now / 2 ^ 32

instance decidableWraps (k : Kernel) (last now : Nat) : Decidable (Wraps k last now) :=
  inferInstanceAs (Decidable (_ ∧ _))

/-- The ticks from `last` to `now` as they are after the tick counter has come round, where it can,
taken in 64 bits. -/
def Kernel.wrapped (k : Kernel) (last now : Nat) : Nat :=
  (2 ^ 64 - last % 2 ^ k.bits + now % 2 ^ k.bits) % 2 ^ 64

/-- **The condition** on a reset: the first one comes when the tick counter is not, or no longer,
within the interval of its value at the probe, and no short one has the counter come round
before it. -/
def Told (k : Kernel) (s : Watched) (r : ResetCall) : Prop :=
  (s.resets.isEmpty = true → ¬k.wrapped s.last r.now < k.fwResetInterval) ∧
    (s.resets.isEmpty = false → r.now - s.last < k.fwResetInterval → ¬Wraps k s.last r.now)

instance decidableTold (k : Kernel) (s : Watched) (r : ResetCall) : Decidable (Told k s r) :=
  inferInstanceAs (Decidable ((_ → _) ∧ (_ → _ → _)))

/-! ## One reset -/

variable {k : Kernel} {s t : Watched} {r : ResetCall}

/-- What the difference of the tick counters says. -/
theorem countsShort_iff (k : Kernel) (last now count : Nat) :
    countsShort k ⟨k.jiffies last, count⟩ now = true ↔
      k.wrapped last now < k.fwResetInterval := by
  obtain ⟨bits, hz, hbits, hint⟩ := k
  unfold countsShort Kernel.jiffies Kernel.wrapped Kernel.fwResetInterval
  dsimp only
  have hinterval : 25 * hz % 2 ^ 64 = 25 * hz := Nat.mod_eq_of_lt (by omega)
  have hfits : ∀ t, t % 2 ^ bits % 2 ^ 64 = t % 2 ^ bits := by
    intro t
    refine Nat.mod_eq_of_lt (lt_of_lt_of_le (Nat.mod_lt _ (Nat.two_pow_pos _)) ?_)
    exact Nat.pow_le_pow_right (by decide) (by omega)
  rw [decide_eq_true_eq, BitVec.lt_def, BitVec.toNat_sub, BitVec.toNat_setWidth,
    BitVec.toNat_setWidth, BitVec.toNat_ofNat, BitVec.toNat_ofNat, BitVec.toNat_ofNat,
    hinterval, hfits, hfits]

/-- Between two resets the difference is right unless the counter has come round. -/
theorem wrapped_lt_iff {last now : Nat} (hle : last ≤ now)
    (hgap : now - last < 2 ^ (k.bits - 1)) :
    k.wrapped last now < k.fwResetInterval ↔
      now - last < k.fwResetInterval ∧ ¬Wraps k last now := by
  obtain ⟨bits, hz, hbits, hint⟩ := k
  unfold Kernel.wrapped Wraps Kernel.fwResetInterval
  dsimp only at hgap ⊢
  rcases hbits with rfl | rfl
  · by_cases hsame : last / 2 ^ 32 = now / 2 ^ 32
    · omega
    · have hround : now / 2 ^ 32 = last / 2 ^ 32 + 1 := by omega
      omega
  · omega

theorem checkFwResetFailure_short (h : countsShort k s.fw r.now = true) :
    checkFwResetFailure k s.fw r =
      if fwResetFailedThreshold ≤ s.fw.count + 1 then (true, ⟨k.jiffies r.later, 0⟩)
      else (false, ⟨k.jiffies r.later, s.fw.count + 1⟩) := by
  rw [checkFwResetFailure, h]
  rfl

theorem checkFwResetFailure_long (h : countsShort k s.fw r.now = false) :
    checkFwResetFailure k s.fw r = (false, ⟨k.jiffies r.later, 0⟩) := by
  rw [checkFwResetFailure, h]
  rfl

theorem checkFwResetFailure_jiffies (k : Kernel) (fw : FwloadFailed) (r : ResetCall) :
    (checkFwResetFailure k fw r).2.jiffies = k.jiffies r.later := by
  unfold checkFwResetFailure
  dsimp only
  generalize (if countsShort k fw r.now = true then fw.count + 1 else 0) = count
  split <;> rfl

/-- The count of short resets goes on, and a report ends it. -/
theorem stormLength_le (l : List Bool) : stormLength l ≤ fwResetFailedThreshold := by
  induction l with
  | nil => exact Nat.zero_le _
  | cons short earlier ih =>
    have hmax : fwResetFailedThreshold = 5 := rfl
    rw [stormLength]
    split
    · split <;> omega
    · exact Nat.zero_le _

/-- What is kept: the property, and the stamp. -/
structure Stamped (k : Kernel) (s : Watched) : Prop extends Detects s where
  jiffies : s.fw.jiffies = k.jiffies s.last

theorem Stamped.counts (h : Stamped k s) (r : ResetCall) :
    countsShort k s.fw r.now = true ↔ k.wrapped s.last r.now < k.fwResetInterval := by
  have hfw : s.fw = ⟨k.jiffies s.last, s.fw.count⟩ := by rw [← h.jiffies]
  rw [hfw]
  exact countsShort_iff k s.last r.now s.fw.count

/-- The reset is told for what it is just under the condition. -/
theorem Stamped.told_iff (h : Stamped k s) (hle : s.last ≤ r.now)
    (hgap : s.resets.isEmpty = true ∨ r.now - s.last < 2 ^ (k.bits - 1)) :
    countsShort k s.fw r.now = s.isShort k r ↔ Told k s r := by
  rw [Bool.eq_iff_iff, h.counts r, Watched.isShort, Told]
  cases hfirst : s.resets.isEmpty with
  | true =>
    -- no reset comes before it, so it is not short
    rw [Bool.not_true, Bool.false_and]
    simp only [Bool.false_eq_true, iff_false, true_imp_iff, Bool.true_eq_false, false_imp_iff,
      and_true]
  | false =>
    have hgap := hgap.resolve_left (by rw [hfirst]; exact Bool.false_ne_true)
    rw [wrapped_lt_iff hle hgap, Bool.not_false, Bool.true_and, decide_eq_true_eq]
    simp only [Bool.false_eq_true, false_imp_iff, true_imp_iff, true_and, and_iff_left_iff_imp]

theorem Detects.length (h : Detects s) : stormLength (true :: s.resets) = s.fw.count + 1 := by
  rw [stormLength, if_pos rfl, h.count]
  split <;> rfl

/-- A reset that is told for what it is. -/
theorem Detects.step (h : Detects s) (htold : countsShort k s.fw r.now = s.isShort k r) :
    Detects ⟨(checkFwResetFailure k s.fw r).2, r.later, s.isShort k r :: s.resets,
      (checkFwResetFailure k s.fw r).1⟩ := by
  cases hshort : s.isShort k r with
  | false =>
    have hzero : stormLength (false :: s.resets) ≠ fwResetFailedThreshold :=
      (by decide : 0 ≠ fwResetFailedThreshold)
    rw [checkFwResetFailure_long (htold.trans hshort)]
    exact ⟨iff_of_false Bool.false_ne_true hzero, (if_neg hzero).symm⟩
  | true =>
    have hlength := h.length
    have hbound := stormLength_le (true :: s.resets)
    rw [checkFwResetFailure_short (htold.trans hshort)]
    split
    · rename_i hreport
      have hfive : stormLength (true :: s.resets) = fwResetFailedThreshold := by omega
      exact ⟨iff_of_true rfl hfive, (if_pos hfive).symm⟩
    · rename_i hless
      have hfewer : stormLength (true :: s.resets) ≠ fwResetFailedThreshold := by omega
      exact ⟨iff_of_false Bool.false_ne_true hfewer, hlength.symm.trans (if_neg hfewer).symm⟩

/-- A reset that is not told for what it is leaves a wrong count, or a wrong report. -/
theorem Detects.told (h : Detects s)
    (hnext : Detects ⟨(checkFwResetFailure k s.fw r).2, r.later, s.isShort k r :: s.resets,
      (checkFwResetFailure k s.fw r).1⟩) : countsShort k s.fw r.now = s.isShort k r := by
  obtain ⟨hreport, hcount⟩ := hnext
  dsimp only at hreport hcount
  have hlength := h.length
  cases hcounts : countsShort k s.fw r.now with
  | false =>
    cases hshort : s.isShort k r with
    | false => rfl
    | true =>
      -- the run is one longer, and the count is zero without a report
      rw [checkFwResetFailure_long hcounts, hshort, hlength] at hreport hcount
      have hfewer : s.fw.count + 1 ≠ fwResetFailedThreshold := fun hfive =>
        Bool.false_ne_true (hreport.mpr hfive)
      rw [if_neg hfewer] at hcount
      cases hcount
  | true =>
    cases hshort : s.isShort k r with
    | true => rfl
    | false =>
      -- the run is over, and there is a count or a report
      have hover : stormLength (false :: s.resets) = 0 := rfl
      have hzero : (0 : Nat) ≠ fwResetFailedThreshold := by decide
      rw [checkFwResetFailure_short hcounts, hshort, hover] at hreport hcount
      rw [if_neg hzero] at hcount
      by_cases hfive : fwResetFailedThreshold ≤ s.fw.count + 1
      · rw [if_pos hfive] at hreport
        exact absurd (hreport.mp rfl) hzero
      · rw [if_neg hfive] at hcount
        cases hcount

/-! ## Runs of resets -/

theorem Stamped.probed (k : Kernel) (t : Nat) : Stamped k (Watched.probed k t) where
  report := iff_of_false Bool.false_ne_true (by decide : 0 ≠ fwResetFailedThreshold)
  count := rfl
  jiffies := rfl

/-- **When reset storms are detected exactly**: when each reset is told for what it is. -/
theorem detects_iff (k : Kernel) (probe : Nat) {l : List ResetCall}
    (h : (resetMachine k).run (Watched.probed k probe) l = some t) :
    (∀ u, (resetMachine k).Visits (Watched.probed k probe) l u → Detects u) ↔
      ∀ u r, (resetMachine k).Takes (Watched.probed k probe) l u r → Told k u r := by
  refine Machine.visits_iff_takes (K := Stamped k) (fun s hs => hs.toDetects) ?_ ?_
    (Stamped.probed k probe) h
  · intro s r u hs htold hnext
    obtain ⟨⟨hle, -, hgap⟩, hstep⟩ := Option.ite_none_right_eq_some.mp hnext
    obtain rfl := Option.some.inj hstep
    exact ⟨hs.toDetects.step ((hs.told_iff hle hgap).mpr htold),
      checkFwResetFailure_jiffies k s.fw r⟩
  · intro s r u hs hnext hdetects
    obtain ⟨⟨hle, -, hgap⟩, hstep⟩ := Option.ite_none_right_eq_some.mp hnext
    obtain rfl := Option.some.inj hstep
    exact (hs.told_iff hle hgap).mp (hs.toDetects.told hdetects)

/-- A kernel with a counter of 32 bits. -/
def kernel32 : Kernel where
  bits := 32
  hz := 1000
  long := by decide
  int := by decide

/-- Resets a second apart, after a first one at a minute from the probe. -/
def storm (first n : Nat) : List ResetCall :=
  (List.range n).map fun i => ⟨first + 1000 * i, first + 1000 * i⟩

theorem detects_storm :
    ∃ t, (resetMachine kernel32).run (Watched.probed kernel32 0) (storm 60000 7) = some t ∧
      ∀ u, (resetMachine kernel32).Visits (Watched.probed kernel32 0) (storm 60000 7) u →
        Detects u := by
  have hrun : (((resetMachine kernel32).guard (Told kernel32)).run (Watched.probed kernel32 0)
      (storm 60000 7)).isSome = true := by decide +kernel
  obtain ⟨t, ht⟩ := Option.isSome_iff_exists.mp hrun
  have hresets := Machine.run_of_guard ht
  exact ⟨t, hresets, (detects_iff kernel32 0 hresets).mpr fun u r htakes =>
    Machine.takes_of_guard ht htakes⟩

/-- The counter comes round within the storm; and a first reset follows the probe at once. -/
theorem storms_missed :
    (∃ t, (resetMachine kernel32).run (Watched.probed kernel32 0) [⟨2147483647, 2147483647⟩,
        ⟨4294967290, 4294967290⟩, ⟨4294967300, 4294967300⟩] = some t ∧ ¬Detects t) ∧
      ∃ t, (resetMachine kernel32).run (Watched.probed kernel32 0) (storm 1000 5) = some t ∧
        t.failed = true ∧ stormLength t.resets = 4 ∧ ¬Detects t := by
  constructor
  · have hrun : ((resetMachine kernel32).run (Watched.probed kernel32 0)
        [⟨2147483647, 2147483647⟩, ⟨4294967290, 4294967290⟩,
          ⟨4294967300, 4294967300⟩]).map (fun t => (t.fw.count, stormLength t.resets)) =
            some (0, 1) := by decide +kernel
    obtain ⟨t, ht, hcounts⟩ := Option.map_eq_some_iff.mp hrun
    obtain ⟨hzero, hone⟩ := Prod.mk.inj hcounts
    refine ⟨t, ht, fun hdetects => ?_⟩
    have hcount := hdetects.count
    rw [hzero, hone] at hcount
    revert hcount
    decide
  · have hrun : ((resetMachine kernel32).run (Watched.probed kernel32 0) (storm 1000 5)).map
        (fun t => (t.failed, stormLength t.resets)) = some (true, 4) := by decide +kernel
    obtain ⟨t, ht, hcounts⟩ := Option.map_eq_some_iff.mp hrun
    obtain ⟨hfailed, hfour⟩ := Prod.mk.inj hcounts
    refine ⟨t, ht, hfailed, hfour, fun hdetects => ?_⟩
    have hreport := hdetects.report.mp hfailed
    rw [hfour] at hreport
    revert hreport
    decide

end Fw
end NxNic

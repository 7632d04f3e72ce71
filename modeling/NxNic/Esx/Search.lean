import NxNic.Esx.Bounce

/-! # The search for neighbouring buffers

`nx_find_suitable_bounce_buf` looks for `req` free buffers next to one another.  It begins at the
first free buffer of the list and goes round the array once, and the inner loop counts the free
buffers from each place on, so that a busy one moves the search past it.

A run of free buffers that has the first buffer of the list within it is passed over: its head is
behind the start, and where the search comes round to it, it is cut off at the start.

`search` is the function with the buffers it looks at and an amount of rounds.  `SearchCorrect` is
the property: it ends within one round of the array, looks only at buffers of the array, returns
the head of a run, and returns none only if there is none.  What the rounds have ruled out so far
is `Passed`, the invariant of the loop; `search_correct_iff` reads the condition off it.
-/
namespace NxNic
namespace Esx
namespace VmkBounce
variable {bounce : VmkBounce} {index req : Nat}

/-! ## What is to hold -/

/-- A run of `req` free buffers within the array, from buffer `k` on. -/
def Run (bounce : VmkBounce) (req k : Nat) : Prop :=
  k + req ≤ maxVmkBounce ∧ ∀ j < req, bounce.busy (k + j) = false

/-- The buffers that the inner loop looks at. -/
def runReads (bounce : VmkBounce) (k req : Nat) : List Nat :=
  List.range' k (min (bounce.freeRun k req + 1) req)

/-- The search from `i` on with the buffers that it looks at; `none` where the rounds do not
suffice. -/
def search (bounce : VmkBounce) (index req : Nat) : Nat → Nat → Option (Option Nat × List Nat)
  | 0, _ => none
  | rounds + 1, i =>
      if maxVmkBounce + index ≤ i then some (none, [])
      else
        let k := i % maxVmkBounce
        if k < index ∧ index + 1 < k + req then some (none, [])
        else if index ≤ k ∧ maxVmkBounce < k + req then bounce.search index req rounds maxVmkBounce
        else
          let j := bounce.freeRun k req
          if j = req then some (some k, bounce.runReads k req)
          else
            (bounce.search index req rounds (i + (j + 1))).map fun r =>
              (r.1, bounce.runReads k req ++ r.2)

/-- **The property** of a search for `req` neighbours: it ends, it looks only at buffers of the
array, what it returns is the head of a run, and where it returns none there is none. -/
structure SearchCorrect (bounce : VmkBounce) (req : Nat) : Prop where
  terminates : ∀ index ∈ bounce.free.head?, ∃ reads,
    bounce.search index req (maxVmkBounce + 1) index =
      some (bounce.nxFindSuitableBounceBuf req, reads) ∧ ∀ k ∈ reads, k < maxVmkBounce
  sound : ∀ k, bounce.nxFindSuitableBounceBuf req = some k → bounce.Run req k
  complete : bounce.nxFindSuitableBounceBuf req = none → ∀ k, ¬bounce.Run req k

/-- The run lies ahead of the buffer `index`, or ends with it or before it. -/
def Beside (index req k : Nat) : Prop := index ≤ k ∨ k + req ≤ index + 1

/-! ## The inner loop -/

theorem freeRun_lt (h : bounce.freeRun k req ≠ req) : bounce.freeRun k req < req :=
  Nat.lt_of_le_of_ne (bounce.freeRun_le k req) h

/-- The inner loop stops at a busy buffer. -/
theorem busy_of_freeRun {k : Nat} (h : bounce.freeRun k req ≠ req) :
    bounce.busy (k + bounce.freeRun k req) = true := by
  induction req generalizing k with
  | zero => exact absurd rfl h
  | succ req ih =>
    rw [freeRun] at h ⊢
    split
    · rename_i hbusy
      exact hbusy
    · rename_i hfree
      rw [if_neg hfree] at h
      have hrest := ih (k := k + 1) (by omega)
      rwa [← Nat.add_assoc]

/-- No run begins where the inner loop has been. -/
theorem not_run_of_freeRun {k m : Nat} (h : bounce.freeRun k req ≠ req) (hk : k ≤ m)
    (hm : m < k + (bounce.freeRun k req + 1)) : ¬bounce.Run req m := by
  rintro ⟨-, hfree⟩
  have hbusy := busy_of_freeRun h
  have hlt := freeRun_lt h
  have hthere := hfree (k + bounce.freeRun k req - m) (by omega)
  rw [Nat.add_sub_cancel' (by omega), hbusy] at hthere
  exact Bool.false_ne_true hthere.symm

theorem runReads_lt {k : Nat} (hk : k + req ≤ maxVmkBounce) :
    ∀ m ∈ bounce.runReads k req, m < maxVmkBounce := by
  intro m hm
  rw [runReads, List.mem_range'_1] at hm
  omega

/-! ## The outer loop -/

/-- **The search ends**, with what the loop finds, within the array. -/
theorem search_ends (hindex : index < maxVmkBounce) {rounds i : Nat}
    (hi : maxVmkBounce + index ≤ i + rounds) : ∃ reads,
      bounce.search index req (rounds + 1) i = some (bounce.findLoop index req rounds i, reads) ∧
        ∀ k ∈ reads, k < maxVmkBounce := by
  have hmax : maxVmkBounce = 256 := rfl
  induction rounds generalizing i with
  | zero =>
    refine ⟨[], ?_, fun k hk => absurd hk List.not_mem_nil⟩
    rw [search, if_pos (by omega), findLoop]
  | succ rounds ih =>
    rw [search, findLoop]
    dsimp only
    split
    · exact ⟨[], rfl, fun k hk => absurd hk List.not_mem_nil⟩
    · rename_i hlast
      split
      · exact ⟨[], rfl, fun k hk => absurd hk List.not_mem_nil⟩
      · rename_i hbehind
        split
        · rename_i hahead
          rw [hmax] at hi hlast hahead hindex
          exact ih (by omega)
        · rename_i hahead
          have hwithin : i % maxVmkBounce + req ≤ maxVmkBounce := by omega
          split
          · exact ⟨_, rfl, runReads_lt hwithin⟩
          · obtain ⟨reads, hsearch, hreads⟩ :=
              ih (i := i + (bounce.freeRun (i % maxVmkBounce) req + 1)) (by omega)
            refine ⟨_, by rw [hsearch]; rfl, fun k hk => ?_⟩
            rcases List.mem_append.mp hk with hk | hk
            · exact runReads_lt hwithin k hk
            · exact hreads k hk

/-- What the rounds before `i` have ruled out. -/
def Passed (bounce : VmkBounce) (index req i : Nat) : Prop :=
  ∀ k, bounce.Run req k → (index ≤ k → i ≤ k) ∧
    (k < index → k + req ≤ index + 1 → i ≤ maxVmkBounce + k)

theorem Passed.over {i k : Nat} (h : bounce.Passed index req i) (hreq : 1 ≤ req)
    (hi : maxVmkBounce + index ≤ i) (hk : bounce.Run req k) : ¬Beside index req k := by
  obtain ⟨hahead, hbehind⟩ := h k hk
  have hlen := hk.1
  rintro (hle | hend)
  · have hik := hahead hle
    omega
  · by_cases hle : index ≤ k
    · have hik := hahead hle
      omega
    · have hik := hbehind (Nat.lt_of_not_le hle) hend
      omega

/-- **Where the loop finds none**, there is no run beside the buffer it has begun with. -/
theorem findLoop_none (hindex : index < maxVmkBounce) (hreq : 1 ≤ req) {fuel i : Nat}
    (hstart : index ≤ i) (hfuel : maxVmkBounce + index ≤ i + fuel)
    (hpassed : bounce.Passed index req i) (h : bounce.findLoop index req fuel i = none) {k : Nat}
    (hk : bounce.Run req k) : ¬Beside index req k := by
  have hmax : maxVmkBounce = 256 := rfl
  induction fuel generalizing i with
  | zero => exact hpassed.over hreq (by omega) hk
  | succ fuel ih =>
    rw [findLoop] at h
    split at h
    · rename_i hlast
      exact hpassed.over hreq hlast hk
    · rename_i hlast
      dsimp only at h
      rw [hmax] at hlast hindex hfuel
      split at h
      · -- the second time round, and what is left before the start is too short
        rename_i hcut
        rw [hmax] at hcut
        obtain ⟨hahead, hbehind⟩ := hpassed k hk
        have hlen := hk.1
        rw [hmax] at hbehind hlen
        unfold Beside
        by_cases hle : index ≤ k
        · have hik := hahead hle
          omega
        · by_cases hend : k + req ≤ index + 1
          · have hik := hbehind (by omega) hend
            omega
          · omega
      · rename_i hcut
        split at h
        · -- the end of the array, from where no run begins
          rename_i htail
          rw [hmax] at htail
          refine ih (by omega) (by omega) (fun m hm => ⟨fun hle => ?_, fun hlt _ => ?_⟩) h
          · have hik := (hpassed m hm).1 hle
            have hlen := hm.1
            omega
          · omega
        · rename_i htail
          split at h
          · cases h
          · rename_i hrun
            refine ih (by omega) (by omega) (fun m hm => ?_) h
            have hout := not_run_of_freeRun hrun (m := m)
            have hlt := freeRun_lt hrun
            obtain ⟨hahead, hbehind⟩ := hpassed m hm
            have hlen := hm.1
            rw [hmax] at hbehind hlen hcut htail hout hlt ⊢
            refine ⟨fun hle => ?_, fun hm' hend => ?_⟩
            · have him := hahead hle
              by_contra hbetween
              exact hout (by omega) (by omega) hm
            · have him := hbehind hm' hend
              by_contra hbetween
              exact hout (by omega) (by omega) hm

/-- What is found is beside the buffer that the search has begun with. -/
theorem findLoop_beside {fuel i k : Nat} (h : bounce.findLoop index req fuel i = some k) :
    Beside index req k := by
  induction fuel generalizing i with
  | zero => cases h
  | succ fuel ih =>
    rw [findLoop] at h
    dsimp only at h
    split at h
    · cases h
    · split at h
      · cases h
      · rename_i hcut
        split at h
        · exact ih h
        · split at h
          · obtain rfl := Option.some.inj h
            unfold Beside
            omega
          · exact ih h

/-- **When the search is right**: where there is a run, there is one that does not have the first
free buffer of the list within it.  Which buffers are busy and in which order the list has the
free ones does not matter beyond that. -/
theorem search_correct_iff {rest : List Nat} (hfree : bounce.free = index :: rest)
    (hindex : index < maxVmkBounce) (hreq : 1 ≤ req) :
    bounce.SearchCorrect req ↔
      ((∃ k, bounce.Run req k) → ∃ k, bounce.Run req k ∧ Beside index req k) := by
  have hfind : bounce.nxFindSuitableBounceBuf req =
      bounce.findLoop index req maxVmkBounce index := by
    rw [nxFindSuitableBounceBuf, hfree]
  have hsound : ∀ k, bounce.nxFindSuitableBounceBuf req = some k → bounce.Run req k := by
    intro k hk
    rw [hfind] at hk
    exact findLoop_spec hindex hk
  constructor
  · rintro h ⟨k, hk⟩
    cases hresult : bounce.nxFindSuitableBounceBuf req with
    | none => exact absurd hk (h.complete hresult k)
    | some m =>
      refine ⟨m, hsound m hresult, ?_⟩
      rw [hfind] at hresult
      exact findLoop_beside hresult
  · intro h
    refine ⟨fun first hfirst => ?_, hsound, fun hnone k hk => ?_⟩
    · rw [hfree] at hfirst
      obtain rfl := Option.some.inj hfirst
      rw [hfind]
      exact search_ends hindex (Nat.le_of_eq (Nat.add_comm _ _))
    · obtain ⟨m, hm, hbeside⟩ := h ⟨k, hk⟩
      rw [hfind] at hnone
      exact findLoop_none hindex hreq (Nat.le_refl index) (by omega)
        (fun m _ => ⟨id, fun hlt _ => by omega⟩) hnone hm hbeside

/-- Buffers 3, 4 and 5 are free, and buffer `first` is the first one on the list. -/
def threeFree (first : Nat) : VmkBounce where
  free := first :: [3, 4, 5].erase first
  busy := fun k => !decide (k ∈ [3, 4, 5])

/-- The run begins at the first buffer of the list, and is found. -/
theorem search_finds_three : (threeFree 3).SearchCorrect 3 :=
  have hfree : (threeFree 3).free = 3 :: [4, 5] := rfl
  (search_correct_iff hfree (by decide) (by decide)).mpr fun _ =>
    ⟨3, ⟨by decide, by decide⟩, Or.inl (Nat.le_refl 3)⟩

/-- The run is the same, but the list begins with the buffer in its middle: it is not found. -/
theorem run_passed_over : ¬(threeFree 4).SearchCorrect 3 := by
  intro h
  exact h.complete (by decide +kernel) 3 ⟨by decide, by decide⟩

end VmkBounce
end Esx
end NxNic

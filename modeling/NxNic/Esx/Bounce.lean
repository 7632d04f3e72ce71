import Mathlib.Data.BitVec
import Mathlib.Logic.Function.Basic
import NxNic.Lib.Places

/-! # Bounce buffers

In the ESX build a part of a packet that lies at or above `dma_mask` is copied to bounce buffers
(`nx_nic_vmk.c`).  They are the pages of one array; those that are free are on a list, from which
a run of neighbours is taken.  A fragment keeps the buffers it has in an array that ends with a
null pointer.

The search for neighbours is `nxFindSuitableBounceBuf`, a loop with rounds; taking a run and giving
a buffer back change the list and the busy marks together (`Listed`).
-/
namespace NxNic
namespace Esx

/-- `MAX_VMK_BOUNCE`. -/
def maxVmkBounce : Nat := 256
/-- `MAX_PAGES_PER_FRAG`. -/
def maxPagesPerFrag : Nat := 24
/-- `PAGE_SIZE`. -/
def pageSize : Nat := 4096

/-- `vmk_bounce`: the buffers on `free_vmk_bounce`, by their indices, and the `busy` flags. -/
structure VmkBounce where
  free : List Nat
  busy : Nat → Bool

/-- `bounce_buf` of a fragment.  The entries from `MAX_PAGES_PER_FRAG` on are not of the array. -/
abbrev BounceBuf := Nat → Option Nat

namespace VmkBounce

/-- What `nx_setup_tx_vmkbounce_buffers` sets up. -/
def initial : VmkBounce := ⟨List.range maxVmkBounce, fun _ => false⟩

/-! ## Taking buffers -/

/-- The inner loop of `nx_find_suitable_bounce_buf`: how many buffers from `k` on are not busy. -/
def freeRun (bounce : VmkBounce) : Nat → Nat → Nat
  | _, 0 => 0
  | k, reqBufs + 1 => if bounce.busy k then 0 else 1 + bounce.freeRun (k + 1) reqBufs

/-- The outer loop, which begins at the first free buffer and goes round the array.  Every round
moves `i` on, so the number of buffers is fuel enough (`findLoop_fuel`). -/
def findLoop (bounce : VmkBounce) (index reqBufs : Nat) : Nat → Nat → Option Nat
  | 0, _ => none
  | fuel + 1, i =>
      if maxVmkBounce + index ≤ i then none
      else
        let k := i % maxVmkBounce
        if k < index ∧ index + 1 < k + reqBufs then none
        else if index ≤ k ∧ maxVmkBounce < k + reqBufs then
          bounce.findLoop index reqBufs fuel maxVmkBounce
        else
          let j := bounce.freeRun k reqBufs
          if j = reqBufs then some k else bounce.findLoop index reqBufs fuel (i + (j + 1))

/-- `nx_find_suitable_bounce_buf`. -/
def nxFindSuitableBounceBuf (bounce : VmkBounce) (reqBufs : Nat) : Option Nat :=
  match bounce.free with
  | [] => none
  | index :: _ => bounce.findLoop index reqBufs maxVmkBounce index

/-- The loop of `nx_handle_large_addr` over the buffers that are taken. -/
def take (bounce : VmkBounce) : Nat → Nat → VmkBounce
  | _, 0 => bounce
  | k, reqBufs + 1 =>
      VmkBounce.take ⟨bounce.free.erase k, Function.update bounce.busy k true⟩ (k + 1) reqBufs

end VmkBounce

/-- The same loop's stores to the fragment, with the null pointer behind the last one. -/
def BounceBuf.store (frag : BounceBuf) (k reqBufs : Nat) : BounceBuf := fun i =>
  if i < reqBufs then some (k + i) else if i = reqBufs then none else frag i

/-- `req_bufs`. -/
def reqBufs (totLen : Nat) : Nat :=
  if totLen % pageSize ≠ 0 then 1 + totLen / pageSize else totLen / pageSize

/-- What `nx_handle_large_addr` does; `overrun` says that it stores past the array. -/
structure Bounced where
  bounce : VmkBounce
  frag : BounceBuf
  overrun : Bool

/-- `nx_handle_large_addr`; `none` where it fails. -/
def nxHandleLargeAddr (dmaMask : BitVec 64) (bounce : VmkBounce) (frag : BounceBuf)
    (phys : BitVec 64) (totLen : Nat) : Option Bounced :=
  if dmaMask ≤ phys + BitVec.ofNat 64 totLen then
    (bounce.nxFindSuitableBounceBuf (reqBufs totLen)).map fun k =>
      ⟨bounce.take k (reqBufs totLen), frag.store k (reqBufs totLen),
        decide (maxPagesPerFrag ≤ reqBufs totLen)⟩
  else some ⟨bounce, Function.update frag 0 none, false⟩

/-! ## Giving buffers back -/

/-- The loop of `nx_free_frag_bounce_buf`, from entry `i` on. -/
def freeLoop (frag : BounceBuf) : Nat → Nat → VmkBounce → VmkBounce
  | 0, _, bounce => bounce
  | left + 1, i, bounce =>
      match frag i with
      | none => bounce
      | some k =>
          freeLoop frag left (i + 1) ⟨bounce.free ++ [k], Function.update bounce.busy k false⟩

/-- `nx_free_frag_bounce_buf`. -/
def nxFreeFragBounceBuf (frag : BounceBuf) (bounce : VmkBounce) : VmkBounce :=
  freeLoop frag maxPagesPerFrag 0 bounce

/-- The buffers that a fragment refers to, in the order in which they are given back. -/
def BounceBuf.heldFrom (frag : BounceBuf) : Nat → Nat → List Nat
  | 0, _ => []
  | left + 1, i =>
      match frag i with
      | none => []
      | some k => k :: frag.heldFrom left (i + 1)

def BounceBuf.held (frag : BounceBuf) : List Nat := frag.heldFrom maxPagesPerFrag 0

/-! ## What is found -/

namespace VmkBounce
variable {bounce : VmkBounce} {index req : Nat}

theorem freeRun_le (bounce : VmkBounce) (k req : Nat) : bounce.freeRun k req ≤ req := by
  induction req generalizing k with
  | zero => exact Nat.le_refl 0
  | succ req ih =>
    have hrest := ih (k + 1)
    rw [freeRun]
    split <;> omega

theorem free_of_freeRun {k : Nat} (h : bounce.freeRun k req = req) {j : Nat} (hj : j < req) :
    bounce.busy (k + j) = false := by
  induction req generalizing k j with
  | zero => exact absurd hj (Nat.not_lt_zero j)
  | succ req ih =>
    rw [freeRun] at h
    split at h
    · exact absurd h (by omega)
    · rename_i hk
      cases j with
      | zero => exact Bool.not_eq_true _ ▸ hk
      | succ j =>
        have hrest := ih (k := k + 1) (by omega) (Nat.lt_of_succ_lt_succ hj)
        rwa [Nat.add_assoc, Nat.add_comm 1 j] at hrest

/-- More fuel than rounds are left makes no difference. -/
theorem findLoop_fuel (bounce : VmkBounce) (req : Nat) {fuel i : Nat}
    (h : maxVmkBounce + index ≤ i + fuel) :
    bounce.findLoop index req (fuel + 1) i = bounce.findLoop index req fuel i := by
  have hmax : maxVmkBounce = 256 := rfl
  induction fuel generalizing i with
  | zero => rw [findLoop, findLoop, if_pos (by omega)]
  | succ fuel ih =>
    conv_lhs => rw [findLoop]
    conv_rhs => rw [findLoop]
    dsimp only
    split
    · rfl
    · split
      · rfl
      · split
        · -- the first pass over the array is not over yet
          rename_i hlast _ hahead
          rw [hmax] at h hlast hahead
          exact ih (by omega)
        · rw [ih (by omega)]

/-- **What is found**: a run of buffers of the array, none of them busy. -/
theorem findLoop_spec (hindex : index < maxVmkBounce) {fuel i k : Nat}
    (h : bounce.findLoop index req fuel i = some k) :
    k + req ≤ maxVmkBounce ∧ ∀ j < req, bounce.busy (k + j) = false := by
  induction fuel generalizing i with
  | zero => cases h
  | succ fuel ih =>
    rw [findLoop] at h
    split at h
    · cases h
    · dsimp only at h
      split at h
      · cases h
      · rename_i hbehind
        split at h
        · exact ih h
        · rename_i hahead
          split at h
          · rename_i hrun
            obtain rfl := Option.some.inj h
            exact ⟨by omega, fun j hj => free_of_freeRun hrun hj⟩
          · exact ih h

/-! ## The list and the flags -/

/-- The buffers on the list are those of the array that are not busy, each once. -/
structure Listed (bounce : VmkBounce) : Prop where
  nodup : bounce.free.Nodup
  lt : ∀ k ∈ bounce.free, k < maxVmkBounce
  busy : ∀ k < maxVmkBounce, bounce.busy k = true ↔ k ∉ bounce.free

theorem Listed.find {k : Nat} (h : bounce.Listed)
    (hfind : bounce.nxFindSuitableBounceBuf req = some k) : ∀ j < req, k + j ∈ bounce.free := by
  rw [nxFindSuitableBounceBuf] at hfind
  split at hfind
  · cases hfind
  · rename_i index rest hfree
    have hindex : index < maxVmkBounce := h.lt index (hfree ▸ List.mem_cons_self)
    obtain ⟨hle, hrun⟩ := findLoop_spec hindex hfind
    intro j hj
    by_contra hbusy
    have hset := (h.busy (k + j) (by omega)).mpr hbusy
    exact absurd (hset.symm.trans (hrun j hj)) Bool.false_ne_true.symm

/-- What is taken is off the list and busy, the rest is as it was. -/
theorem Listed.take {k : Nat} (h : bounce.Listed) (hfree : ∀ j < req, k + j ∈ bounce.free) :
    (bounce.take k req).Listed ∧
      bounce.free.Perm ((bounce.take k req).free ++ List.range' k req) := by
  induction req generalizing k bounce with
  | zero => exact ⟨h, by rw [List.range'_zero, List.append_nil]; rfl⟩
  | succ req ih =>
    have hk : k ∈ bounce.free := hfree 0 (Nat.succ_pos req)
    have hnext : Listed ⟨bounce.free.erase k, Function.update bounce.busy k true⟩ := by
      refine ⟨h.nodup.erase k, fun c hc => h.lt c (List.mem_of_mem_erase hc), fun c hc => ?_⟩
      show Function.update bounce.busy k true c = true ↔ c ∉ bounce.free.erase k
      rw [h.nodup.mem_erase_iff]
      by_cases hck : c = k
      · rw [hck, Function.update_self]
        exact iff_of_true rfl fun hmem => hmem.1 rfl
      · rw [Function.update_of_ne hck, h.busy c hc]
        exact not_congr (and_iff_right hck).symm
    obtain ⟨hlisted, hperm⟩ := ih (k := k + 1) hnext fun j hj => by
      have hmem := hfree (j + 1) (Nat.succ_lt_succ hj)
      rw [Nat.add_assoc, Nat.add_comm 1 j]
      exact h.nodup.mem_erase_iff.mpr ⟨by omega, hmem⟩
    refine ⟨hlisted, ?_⟩
    rw [VmkBounce.take, List.range'_succ]
    exact ((List.perm_cons_erase hk).trans (hperm.cons k)).trans List.perm_middle.symm

end VmkBounce

/-! ## What a fragment holds -/

namespace BounceBuf
variable {frag : BounceBuf}

theorem heldFrom_store (k : Nat) {req left i : Nat} (hi : i ≤ req) (hreq : req ≤ i + left) :
    (frag.store k req).heldFrom left i = List.range' (k + i) (req - i) := by
  induction left generalizing i with
  | zero =>
    obtain rfl : i = req := by omega
    rw [Nat.sub_self, List.range'_zero, heldFrom]
  | succ left ih =>
    rw [heldFrom]
    rcases Nat.lt_or_eq_of_le hi with hlt | rfl
    · have hentry : frag.store k req i = some (k + i) := if_pos hlt
      have hrest := ih (i := i + 1) hlt (by omega)
      rw [hentry, show req - i = req - (i + 1) + 1 by omega, List.range'_succ]
      exact congrArg (List.cons (k + i)) hrest
    · have hentry : frag.store k i i = none := by
        rw [store, if_neg (Nat.lt_irrefl i), if_pos rfl]
      rw [hentry, Nat.sub_self, List.range'_zero]

theorem held_store (k : Nat) {req : Nat} (hreq : req ≤ maxPagesPerFrag) :
    (frag.store k req).held = List.range' k req :=
  heldFrom_store k (Nat.zero_le req) (by omega)

theorem held_update_none : held (Function.update frag 0 none) = [] := by
  rw [held, maxPagesPerFrag, heldFrom, Function.update_self]

end BounceBuf

/-- The fragment's buffers go to the end of the list. -/
theorem freeLoop_eq (frag : BounceBuf) (left i : Nat) (bounce : VmkBounce) :
    freeLoop frag left i bounce =
      ⟨bounce.free ++ frag.heldFrom left i,
        fun c => !decide (c ∈ frag.heldFrom left i) && bounce.busy c⟩ := by
  induction left generalizing i bounce with
  | zero => simp [freeLoop, BounceBuf.heldFrom]
  | succ left ih =>
    rw [freeLoop, BounceBuf.heldFrom]
    cases frag i with
    | none => simp
    | some k =>
      dsimp only
      rw [ih, List.append_assoc]
      congr 1
      funext c
      by_cases hck : c = k
      · simp [hck]
      · simp [hck]

theorem nxFreeFragBounceBuf_free (frag : BounceBuf) (bounce : VmkBounce) :
    (nxFreeFragBounceBuf frag bounce).free = bounce.free ++ frag.held := by
  rw [nxFreeFragBounceBuf, freeLoop_eq]
  rfl

namespace VmkBounce
variable {bounce : VmkBounce} {frag : BounceBuf}

/-- Buffers that are not on the list may be given back. -/
theorem Listed.giveBack (h : bounce.Listed) (hnodup : (bounce.free ++ frag.held).Nodup)
    (hlt : ∀ k ∈ frag.held, k < maxVmkBounce) : (nxFreeFragBounceBuf frag bounce).Listed := by
  rw [nxFreeFragBounceBuf, freeLoop_eq]
  refine ⟨hnodup, fun k hk => ?_, fun k hk => ?_⟩
  · rcases List.mem_append.mp hk with hk | hk
    · exact h.lt k hk
    · exact hlt k hk
  · show (!decide (k ∈ frag.held) && bounce.busy k) = true ↔ k ∉ bounce.free ++ frag.held
    rw [Bool.and_eq_true, Bool.not_eq_true', decide_eq_false_iff_not, h.busy k hk,
      List.mem_append, not_or, and_comm]

/-- **What `nx_handle_large_addr` does**, where it is asked for no more buffers than a fragment has
room for: the fragment holds just those that leave the list. -/
theorem Listed.handle {dmaMask phys : BitVec 64} {totLen : Nat} {r : Bounced} (h : bounce.Listed)
    (hreq : dmaMask ≤ phys + BitVec.ofNat 64 totLen → reqBufs totLen ≤ maxPagesPerFrag)
    (hr : nxHandleLargeAddr dmaMask bounce frag phys totLen = some r) :
    r.bounce.Listed ∧ bounce.free.Perm (r.bounce.free ++ r.frag.held) := by
  rw [nxHandleLargeAddr] at hr
  split at hr
  · rename_i hlarge
    obtain ⟨k, hfind, rfl⟩ := Option.map_eq_some_iff.mp hr
    dsimp only
    rw [BounceBuf.held_store k (hreq hlarge)]
    exact h.take (h.find hfind)
  · obtain rfl := Option.some.inj hr
    dsimp only
    rw [BounceBuf.held_update_none, List.append_nil]
    exact ⟨h, List.Perm.refl _⟩

theorem initial_free : initial.free = List.range maxVmkBounce := by simp only [initial]

theorem initial_listed : initial.Listed := by
  refine ⟨?_, fun k hk => ?_, fun k hk => ?_⟩
  · rw [initial_free]
    exact List.nodup_range
  · rw [initial_free] at hk
    exact List.mem_range.mp hk
  · rw [initial_free, List.mem_range]
    exact iff_of_false Bool.false_ne_true (not_not_intro hk)

end VmkBounce

end Esx
end NxNic

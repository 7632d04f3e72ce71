import Mathlib.Data.Multiset.Basic
import NxNic.Lib.Pool

/-! # Coherent memory

The driver has its rings and the areas that it shares with the firmware in coherent memory.
`nx_alloc` and `nx_os_alloc_dma_mem` look at the address of a block and give it back when the
card cannot reach it; only the first looks at the pointer too.  Sizes are not kept with the
blocks: they are computed again where a block is freed.

A `MemPlan` says what the allocator does, whether there is a block and whether the card reaches
it. The blocks themselves are those of `Lib/Pool`, and the lemmas here say of each allocation and
of each loop over rings what the pool holds after it.
-/
namespace NxNic
namespace Attach

/-- What an allocation meets: whether memory is had, and whether the address (an old one, when
nothing is had) is beyond `dma_mask`. -/
structure MemPlan where
  had : Bool
  beyond : Bool

/-- The same for `nx_alloc`, with whether memory is had at its second attempt. -/
structure AllocPlan extends MemPlan where
  again : Bool

/-- What the two areas for a command that makes a context meet. -/
structure DmaPlan where
  rq : MemPlan
  rsp : MemPlan

/-- `pci_alloc_consistent`. -/
def pciAllocConsistent (p : Pool) (size : Nat) (had : Bool) : Option Block × Pool :=
  if had then (some (p.next size), p.take size) else (none, p)

/-- `pci_free_consistent`, which does nothing for `NULL`. -/
def pciFreeConsistent (p : Pool) (size : Nat) : Option Block → Pool
  | none => p
  | some b => p.give b size

/-- `nx_alloc`. -/
def nxAlloc (p : Pool) (size : Nat) (plan : AllocPlan) : Option Block × Pool :=
  let first := pciAllocConsistent p size plan.had
  if plan.beyond then
    pciAllocConsistent (pciFreeConsistent first.2 size first.1) size plan.again
  else first

/-- `nx_os_alloc_dma_mem`: `none` for its error. -/
def nxOsAllocDmaMem (p : Pool) (len : Nat) (plan : MemPlan) : Option (Option Block) × Pool :=
  let first := pciAllocConsistent p len plan.had
  if plan.beyond then (none, pciFreeConsistent first.2 len first.1) else (some first.1, first.2)

/-- `nx_fw_cmd_create_rx_ctx_alloc_dma` and `nx_fw_cmd_create_tx_ctx_alloc_dma`: the two areas, or
no areas for `NX_RCODE_NO_HOST_MEM`; `none` where an area at `NULL` is cleared. -/
def createCtxAllocDma (rqSize rspSize : Nat) (plan : DmaPlan) (p : Pool) :
    Option (Option (Block × Block) × Pool) :=
  match nxOsAllocDmaMem p rqSize plan.rq with
  | (none, p) => some (none, p)
  | (some rq, p) =>
    match nxOsAllocDmaMem p rspSize plan.rsp with
    | (none, p) => some (none, pciFreeConsistent p rqSize rq)
    | (some rsp, p) =>
      match rq, rsp with
      | some rq, some rsp => some (some (rq, rsp), p)
      | _, _ => none

/-! ## Rings -/

/-- `nx_host_rds_ring_t`: whether its `os_data` is there, its size and its memory. -/
structure RdsRing where
  osData : Bool
  ringSize : Nat
  hostAddr : Option Block
deriving DecidableEq

/-- `nx_host_sds_ring_t`. -/
structure SdsRing where
  osData : Bool
  hostAddr : Option Block
deriving DecidableEq

/-- What the two kinds of ring have in common. -/
class HostRing (ρ : Type) where
  osData : ρ → Bool
  hostAddr : ρ → Option Block
  setHostAddr : ρ → Option Block → ρ
  osData_set : ∀ r a, osData (setHostAddr r a) = osData r
  hostAddr_set : ∀ r a, hostAddr (setHostAddr r a) = a

instance rdsHostRing : HostRing RdsRing where
  osData := RdsRing.osData
  hostAddr := RdsRing.hostAddr
  setHostAddr r a := { r with hostAddr := a }
  osData_set _ _ := rfl
  hostAddr_set _ _ := rfl

instance sdsHostRing : HostRing SdsRing where
  osData := SdsRing.osData
  hostAddr := SdsRing.hostAddr
  setHostAddr r a := { r with hostAddr := a }
  osData_set _ _ := rfl
  hostAddr_set _ _ := rfl

/-- A loop over rings that stops at the first one that something cannot be had for. -/
def tryRings {ρ σ : Type} (f : Nat → ρ → σ → Bool × ρ × σ) :
    Nat → List ρ → σ → Bool × List ρ × σ
  | _, [], p => (true, [], p)
  | i, r :: rs, p =>
    match f i r p with
    | (false, r, p) => (false, r :: rs, p)
    | (true, r, p) =>
      match tryRings f (i + 1) rs p with
      | (ok, rs, p) => (ok, r :: rs, p)

section Rings
variable {ρ : Type} [HostRing ρ]

/-- The memory of one ring. -/
def allocRing (bytes : ρ → Nat) (plan : Nat → AllocPlan) (i : Nat) (r : ρ) (p : Pool) :
    Bool × ρ × Pool :=
  match nxAlloc p (bytes r) (plan i) with
  | (none, p) => (false, r, p)
  | (some b, p) => (true, HostRing.setHostAddr r (some b), p)

def freeRing (r : ρ) : ρ := if HostRing.osData r then HostRing.setHostAddr r none else r

/-- The memory of the rings that have any is freed. -/
def freeRings (bytes : ρ → Nat) : List ρ → Pool → List ρ × Pool
  | [], p => ([], p)
  | r :: rs, p =>
    match freeRings bytes rs
        (if HostRing.osData r then pciFreeConsistent p (bytes r) (HostRing.hostAddr r) else p) with
    | (rs, p) => (freeRing r :: rs, p)

/-- The same when an allocation fails half way. -/
def allocRings (bytes : ρ → Nat) (plan : Nat → AllocPlan) (rs : List ρ) (p : Pool) :
    Bool × List ρ × Pool :=
  match tryRings (allocRing bytes plan) 0 rs p with
  | (true, rs, p) => (true, rs, p)
  | (false, rs, p) => (false, freeRings bytes rs p)

end Rings

/-! ## What they hold -/

/-- `nx_alloc` returns a block. -/
def AllocPlan.Had (plan : AllocPlan) : Prop :=
  if plan.beyond then plan.again = true else plan.had = true

/-- An address beyond the mask is an error, an area at `NULL` below it is taken for memory. -/
def DmaPlan.Gone (plan : DmaPlan) : Prop := plan.rq.beyond = true ∨ plan.rsp.beyond = true

def DmaPlan.Had (plan : DmaPlan) : Prop := ¬plan.Gone ∧ plan.rq.had = true ∧ plan.rsp.had = true

def DmaPlan.Crashes (plan : DmaPlan) : Prop :=
  ¬plan.Gone ∧ ¬(plan.rq.had = true ∧ plan.rsp.had = true)

instance decidableHad (plan : AllocPlan) : Decidable plan.Had :=
  inferInstanceAs (Decidable (if plan.beyond then plan.again = true else plan.had = true))

instance decidableGone (plan : DmaPlan) : Decidable plan.Gone :=
  inferInstanceAs (Decidable (_ ∨ _))

instance decidableDmaHad (plan : DmaPlan) : Decidable plan.Had :=
  inferInstanceAs (Decidable (¬_ ∧ _ ∧ _))

variable {p : Pool} {n : Nat} {m : Multiset Block}

/-- The blocks that a pointer stands for. -/
def blockOf (addr : Option Block) : Multiset Block := (addr.toList : Multiset Block)

theorem blockOf_none : blockOf none = 0 := rfl

theorem holds_alloc (h : p.Holds n m) (size : Nat) (had : Bool) :
    (pciAllocConsistent p size had).2.Holds n (blockOf (pciAllocConsistent p size had).1 + m) ∧
      (∀ b ∈ (pciAllocConsistent p size had).1, b.size = size) ∧
      ((pciAllocConsistent p size had).1.isSome = true ↔ had = true) := by
  rw [pciAllocConsistent]
  split
  · rename_i hhad
    refine ⟨h.take size, fun b hb => ?_, iff_of_true rfl hhad⟩
    obtain rfl := Option.some.inj hb
    rfl
  · rename_i hhad
    refine ⟨?_, fun b hb => absurd hb nofun, iff_of_false Bool.false_ne_true hhad⟩
    show p.Holds n (0 + m)
    rwa [Multiset.zero_add]

theorem holds_free {size : Nat} {addr : Option Block} (h : p.Holds n (blockOf addr + m))
    (hsize : ∀ b ∈ addr, b.size = size) : (pciFreeConsistent p size addr).Holds n m := by
  cases addr with
  | none => exact Multiset.zero_add m ▸ h
  | some b =>
    obtain rfl := hsize b rfl
    exact Pool.Holds.give h

theorem length_free (p : Pool) (size : Nat) (addr : Option Block) :
    p.length ≤ (pciFreeConsistent p size addr).length := by
  cases addr with
  | none => exact Nat.le_refl _
  | some b =>
    rw [pciFreeConsistent, Pool.length_give]
    exact Nat.le_succ _

/-- A pool that has gone wrong stays so. -/
theorem held_free_none (h : p.held = none) (size : Nat) (addr : Option Block) :
    (pciFreeConsistent p size addr).held = none := by
  cases addr with
  | none => exact h
  | some b => exact Pool.held_give_none h b size

theorem holds_nxAlloc (h : p.Holds n m) (size : Nat) (plan : AllocPlan) :
    (nxAlloc p size plan).2.Holds n (blockOf (nxAlloc p size plan).1 + m) ∧
      (∀ b ∈ (nxAlloc p size plan).1, b.size = size) ∧
      ((nxAlloc p size plan).1.isSome = true ↔ plan.Had) := by
  obtain ⟨hfirst, hsize, hhad⟩ := holds_alloc h size plan.had
  rw [nxAlloc, AllocPlan.Had]
  cases plan.beyond with
  | true => exact holds_alloc (holds_free hfirst hsize) size plan.again
  | false => exact ⟨hfirst, hsize, hhad⟩

/-- What the allocation of the two areas comes to. -/
inductive DmaResult (n : Nat) (m : Multiset Block) (rqSize rspSize : Nat) (plan : DmaPlan) :
    Option (Option (Block × Block) × Pool) → Prop where
  | crashes (hplan : plan.Crashes) : DmaResult n m rqSize rspSize plan none
  | gone {p : Pool} (hplan : plan.Gone) (h : p.Holds n m) :
    DmaResult n m rqSize rspSize plan (some (none, p))
  | had {p : Pool} {rq rsp : Block} (hplan : plan.Had) (hrq : rq.size = rqSize)
    (hrsp : rsp.size = rspSize) (h : p.Holds n (rsp ::ₘ rq ::ₘ m)) :
    DmaResult n m rqSize rspSize plan (some (some (rq, rsp), p))

theorem holds_osAlloc (h : p.Holds n m) (len : Nat) (plan : MemPlan) :
    (plan.beyond = true ∧ ∃ q, nxOsAllocDmaMem p len plan = (none, q) ∧ q.Holds n m) ∨
    (plan.beyond = false ∧ plan.had = false ∧ nxOsAllocDmaMem p len plan = (some none, p)) ∨
    (plan.beyond = false ∧ plan.had = true ∧ ∃ b q,
      nxOsAllocDmaMem p len plan = (some (some b), q) ∧ b.size = len ∧ q.Holds n (b ::ₘ m)) := by
  obtain ⟨hfirst, hsize, -⟩ := holds_alloc h len plan.had
  rw [nxOsAllocDmaMem]
  cases hbeyond : plan.beyond with
  | true => exact .inl ⟨rfl, _, rfl, holds_free hfirst hsize⟩
  | false =>
    cases hhad : plan.had with
    | false => exact .inr (.inl ⟨rfl, rfl, rfl⟩)
    | true =>
      rw [hhad] at hfirst hsize
      exact .inr (.inr ⟨rfl, rfl, _, _, rfl, hsize _ rfl, hfirst⟩)

theorem createCtxAllocDma_result (h : p.Holds n m) (rqSize rspSize : Nat) (plan : DmaPlan) :
    DmaResult n m rqSize rspSize plan (createCtxAllocDma rqSize rspSize plan p) := by
  have hbelow {q : MemPlan} (h : q.beyond = false) : ¬q.beyond = true :=
    Bool.not_eq_true _ ▸ h
  rw [createCtxAllocDma]
  rcases holds_osAlloc h rqSize plan.rq with ⟨hrq, q, hq, hq'⟩ | ⟨hrq, hhad, hq⟩ |
    ⟨hrq, hhad, rq, q, hq, hsize, hq'⟩
  · rw [hq]
    exact .gone (.inl hrq) hq'
  · have hcrash (hrsp : plan.rsp.beyond = false) : plan.Crashes :=
      ⟨not_or.mpr ⟨hbelow hrq, hbelow hrsp⟩,
        fun hboth => Bool.false_ne_true (hhad.symm.trans hboth.1)⟩
    rw [hq]
    dsimp only
    rcases holds_osAlloc h rspSize plan.rsp with ⟨hrsp, q', hr, hr'⟩ | ⟨hrsp, -, hr⟩ |
      ⟨hrsp, -, rsp, q', hr, -, hr'⟩
    · rw [hr]
      exact .gone (.inr hrsp) hr'
    · rw [hr]
      exact .crashes (hcrash hrsp)
    · rw [hr]
      exact .crashes (hcrash hrsp)
  · rw [hq]
    dsimp only
    rcases holds_osAlloc hq' rspSize plan.rsp with ⟨hrsp, q', hr, hr'⟩ | ⟨hrsp, hhad', hr⟩ |
      ⟨hrsp, hhad', rsp, q', hr, hsize', hr'⟩
    · rw [hr]
      exact .gone (.inr hrsp) (hsize ▸ hr'.give)
    · rw [hr]
      exact .crashes ⟨not_or.mpr ⟨hbelow hrq, hbelow hrsp⟩,
        fun hboth => Bool.false_ne_true (hhad'.symm.trans hboth.2)⟩
    · rw [hr]
      exact .had ⟨not_or.mpr ⟨hbelow hrq, hbelow hrsp⟩, hhad, hhad'⟩ hsize hsize' hr'

section Loops
variable {ρ σ : Type} {f : Nat → ρ → σ → Bool × ρ × σ}

theorem length_tryRings (k : Nat) (rs : List ρ) (s : σ) :
    (tryRings f k rs s).2.1.length = rs.length := by
  induction rs generalizing k s with
  | nil => rfl
  | cons r rs ih =>
    rw [tryRings]
    split
    · rfl
    · exact congrArg (· + 1) (ih ..)

/-- A loop in which each ring has what it needs or not, whatever came before. -/
theorem tryRings_ok {had : Nat → Bool} (hf : ∀ i r s, (f i r s).1 = had i) (k : Nat) (rs : List ρ)
    (s : σ) : (tryRings f k rs s).1 = true ↔ ∀ i < rs.length, had (k + i) = true := by
  induction rs generalizing k s with
  | nil => exact iff_of_true rfl fun i hi => absurd hi (Nat.not_lt_zero i)
  | cons r rs ih =>
    have hfirst := hf k r s
    rw [tryRings]
    split
    · rename_i hres
      rw [hres] at hfirst
      refine iff_of_false Bool.false_ne_true fun hall => ?_
      exact Bool.false_ne_true (hfirst.trans (hall 0 (Nat.zero_lt_succ _)))
    · rename_i hres
      rw [hres] at hfirst
      refine (ih (k + 1) _).trans ⟨fun hrest i hi => ?_, fun hrest i hi => ?_⟩
      · cases i with
        | zero => exact hfirst.symm
        | succ i =>
          rw [← Nat.add_assoc, Nat.add_right_comm]
          exact hrest i (Nat.lt_of_succ_lt_succ hi)
      · rw [Nat.add_right_comm, Nat.add_assoc]
        exact hrest (i + 1) (Nat.succ_lt_succ hi)

/-- What one step keeps, the loop keeps. -/
theorem tryRings_keeps {P : ρ → Prop} (hf : ∀ i r s, P r → P (f i r s).2.1) {k : Nat}
    {rs : List ρ} {s : σ} (h : ∀ r ∈ rs, P r) : ∀ r ∈ (tryRings f k rs s).2.1, P r := by
  induction rs generalizing k s with
  | nil => exact h
  | cons r rs ih =>
    have hfirst := hf k r s (h r List.mem_cons_self)
    have hrest : ∀ r ∈ rs, P r := fun r hr => h r (List.mem_cons_of_mem _ hr)
    rw [tryRings]
    split
    · rename_i hres
      rw [hres] at hfirst
      exact List.forall_mem_cons.mpr ⟨hfirst, hrest⟩
    · rename_i hres
      rw [hres] at hfirst
      exact List.forall_mem_cons.mpr ⟨hfirst, ih hrest⟩

/-- What each step that succeeds brings about holds after a loop that succeeds. -/
theorem tryRings_brings {Q : ρ → Prop} (hf : ∀ i r s, (f i r s).1 = true → Q (f i r s).2.1)
    (k : Nat) (rs : List ρ) (s : σ) (hok : (tryRings f k rs s).1 = true) :
    ∀ r ∈ (tryRings f k rs s).2.1, Q r := by
  induction rs generalizing k s with
  | nil => exact fun r hr => absurd hr List.not_mem_nil
  | cons r rs ih =>
    have hfirst := hf k r s
    rw [tryRings] at hok ⊢
    split at hok
    · exact absurd hok Bool.false_ne_true
    · rename_i hres
      rw [hres] at hfirst
      exact List.forall_mem_cons.mpr ⟨hfirst rfl, ih _ _ hok⟩

end Loops

section Rings
variable {ρ : Type} [HostRing ρ] {bytes : ρ → Nat}

/-- The blocks of the rings. -/
def ringBlocks : List ρ → Multiset Block
  | [] => 0
  | r :: rs => blockOf (HostRing.hostAddr r) + ringBlocks rs

/-- A ring with memory has its own data, and the memory has the ring's size. -/
def RingsSized (bytes : ρ → Nat) (rs : List ρ) : Prop :=
  ∀ r ∈ rs, ∀ b ∈ HostRing.hostAddr r, HostRing.osData r = true ∧ b.size = bytes r

/-- No ring has memory. -/
def RingsBare (rs : List ρ) : Prop := ∀ r ∈ rs, HostRing.hostAddr r = none

theorem RingsBare.sized {rs : List ρ} (h : RingsBare rs) : RingsSized bytes rs :=
  fun r hr _ hb => absurd ((h r hr).symm.trans hb) nofun

theorem RingsBare.blocks {rs : List ρ} (h : RingsBare rs) : ringBlocks rs = 0 := by
  induction rs with
  | nil => rfl
  | cons r rs ih =>
    rw [ringBlocks, h r List.mem_cons_self, ih fun r hr => h r (List.mem_cons_of_mem _ hr)]
    rfl

theorem freeRing_bare {r : ρ} (h : HostRing.hostAddr r ≠ none → HostRing.osData r = true) :
    HostRing.hostAddr (freeRing r) = none := by
  rw [freeRing]
  split
  · exact HostRing.hostAddr_set r none
  · rename_i hos
    exact Classical.byContradiction fun hne => hos (h hne)

/-- **Freeing rings** gives all their blocks back. -/
theorem holds_freeRings {rs : List ρ} (h : p.Holds n (ringBlocks rs + m))
    (hsized : RingsSized bytes rs) :
    (freeRings bytes rs p).2.Holds n m ∧ RingsBare (freeRings bytes rs p).1 := by
  induction rs generalizing p with
  | nil => exact ⟨Multiset.zero_add m ▸ h, fun r hr => absurd hr List.not_mem_nil⟩
  | cons r rs ih =>
    have hr := hsized r List.mem_cons_self
    have hrest : RingsSized bytes rs := fun r hr => hsized r (List.mem_cons_of_mem _ hr)
    rw [ringBlocks, Multiset.add_assoc] at h
    have hstep : (if HostRing.osData r then pciFreeConsistent p (bytes r) (HostRing.hostAddr r)
        else p).Holds n (ringBlocks rs + m) := by
      split
      · exact holds_free h fun b hb => (hr b hb).2
      · rename_i hos
        have hnone : HostRing.hostAddr r = none :=
          Option.eq_none_iff_forall_not_mem.mpr fun b hb => hos (hr b hb).1
        rw [hnone] at h
        exact Multiset.zero_add (ringBlocks rs + m) ▸ h
    obtain ⟨hholds, hbare⟩ := ih hstep hrest
    rw [freeRings]
    refine ⟨hholds, fun s hs => ?_⟩
    rcases List.mem_cons.mp hs with rfl | hs
    · refine freeRing_bare fun hne => ?_
      obtain ⟨b, hb⟩ := Option.ne_none_iff_exists'.mp hne
      exact (hr b hb).1
    · exact hbare s hs

theorem held_freeRings_none {rs : List ρ} (h : p.held = none) :
    (freeRings bytes rs p).2.held = none := by
  induction rs generalizing p with
  | nil => exact h
  | cons r rs ih =>
    rw [freeRings]
    refine ih ?_
    split
    · exact held_free_none h _ _
    · exact h

theorem length_freeRings (rs : List ρ) (p : Pool) :
    p.length ≤ (freeRings bytes rs p).2.length := by
  induction rs generalizing p with
  | nil => exact Nat.le_refl _
  | cons r rs ih =>
    rw [freeRings]
    refine Nat.le_trans ?_ (ih _)
    split
    · exact length_free p _ _
    · exact Nat.le_refl _

theorem holds_tryRings (plan : Nat → AllocPlan) {rs : List ρ} (k : Nat) (h : p.Holds n m)
    (hbytes : ∀ (r : ρ) a, bytes (HostRing.setHostAddr r a) = bytes r) (hbare : RingsBare rs)
    (hos : ∀ r ∈ rs, HostRing.osData r = true) :
    (tryRings (allocRing bytes plan) k rs p).2.2.Holds n
        (ringBlocks (tryRings (allocRing bytes plan) k rs p).2.1 + m) ∧
      RingsSized bytes (tryRings (allocRing bytes plan) k rs p).2.1 ∧
      ((tryRings (allocRing bytes plan) k rs p).1 = true ↔
        ∀ i < rs.length, (plan (k + i)).Had) := by
  induction rs generalizing k p m with
  | nil =>
    refine ⟨(Multiset.zero_add m).symm ▸ h, fun r hr => absurd hr List.not_mem_nil, ?_⟩
    exact iff_of_true rfl fun i hi => absurd hi (Nat.not_lt_zero i)
  | cons r rs ih =>
    obtain ⟨hholds, hsize, hhad⟩ := holds_nxAlloc h (bytes r) (plan k)
    have hbare' : RingsBare rs := fun s hs => hbare s (List.mem_cons_of_mem _ hs)
    have hos' : ∀ s ∈ rs, HostRing.osData s = true := fun s hs => hos s (List.mem_cons_of_mem _ hs)
    rw [tryRings, allocRing]
    rcases hres : nxAlloc p (bytes r) (plan k) with ⟨_ | b, q⟩
    · rw [hres] at hholds hhad
      refine ⟨?_, hbare.sized, iff_of_false Bool.false_ne_true fun hall => ?_⟩
      · rw [hbare.blocks]
        exact hholds
      · exact absurd (hhad.mpr (hall 0 (Nat.zero_lt_succ _))) Bool.false_ne_true
    · rw [hres] at hholds hsize hhad
      obtain ⟨hholds', hsized, hall⟩ := ih (k + 1) hholds hbare' hos'
      dsimp only
      refine ⟨?_, ?_, ?_⟩
      · rw [ringBlocks, HostRing.hostAddr_set, Multiset.add_comm (blockOf _), Multiset.add_assoc]
        exact hholds'
      · intro s hs c hc
        rcases List.mem_cons.mp hs with rfl | hs
        · rw [HostRing.hostAddr_set] at hc
          rw [HostRing.osData_set, hbytes]
          exact ⟨hos r List.mem_cons_self, hsize c hc⟩
        · exact hsized s hs c hc
      · refine hall.trans ⟨fun hrest i hi => ?_, fun hrest i hi => ?_⟩
        · cases i with
          | zero => exact hhad.mp rfl
          | succ i =>
            rw [← Nat.add_assoc, Nat.add_right_comm]
            exact hrest i (Nat.lt_of_succ_lt_succ hi)
        · rw [Nat.add_right_comm, Nat.add_assoc]
          exact hrest (i + 1) (Nat.succ_lt_succ hi)

/-- **The memory of the rings** is had for all of them, or for none. -/
theorem holds_allocRings (plan : Nat → AllocPlan) {rs : List ρ} (h : p.Holds n m)
    (hbytes : ∀ (r : ρ) a, bytes (HostRing.setHostAddr r a) = bytes r) (hbare : RingsBare rs)
    (hos : ∀ r ∈ rs, HostRing.osData r = true) :
    (allocRings bytes plan rs p).2.2.Holds n (ringBlocks (allocRings bytes plan rs p).2.1 + m) ∧
      RingsSized bytes (allocRings bytes plan rs p).2.1 ∧
      ((allocRings bytes plan rs p).1 = true ↔ ∀ i < rs.length, (plan i).Had) := by
  obtain ⟨hholds, hsized, hall⟩ := holds_tryRings plan 0 h hbytes hbare hos
  have hall : _ ↔ ∀ i < rs.length, (plan i).Had :=
    hall.trans (forall₂_congr fun i _ => by rw [Nat.zero_add])
  rw [allocRings]
  split
  · rename_i hres
    rw [hres] at hholds hsized hall
    exact ⟨hholds, hsized, hall⟩
  · rename_i hres
    rw [hres] at hholds hsized hall
    obtain ⟨hfreed, hbare⟩ := holds_freeRings hholds hsized
    refine ⟨?_, hbare.sized, hall⟩
    rw [hbare.blocks]
    exact (Multiset.zero_add m).symm ▸ hfreed

theorem length_allocRings {plan : Nat → AllocPlan} {rs rs' : List ρ} {q : Pool}
    (h : allocRings bytes plan rs p = (true, rs', q)) : rs'.length = rs.length := by
  have hlength := length_tryRings (f := allocRing bytes plan) 0 rs p
  rw [allocRings] at h
  split at h
  · rename_i hres
    obtain ⟨rfl, -⟩ := Prod.mk.inj (Prod.mk.inj h).2
    rw [hres] at hlength
    exact hlength
  · cases h

end Rings

end Attach
end NxNic

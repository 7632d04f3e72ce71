import NxNic.Lib.Pool
import NxNic.Load.Firmware
import NxNic.Lro.Ownership

/-! # The memory of the LRO entries

`unm_init_lro` has the entries and the buckets from the kernel and `unm_cleanup_lro` gives them
back, any number of times: at probe and at removal, around a suspend, an error of the bus or a
reset of the firmware.  In between the threads take their steps.  The two are called when no
thread is in a call, and the first of them when LRO is not initialized.

The state (`LroAdapter`) is the adapter's LRO, when it is initialized with the pool's machine of
`Lro/Ownership` inside, the kernel's memory with what it has lent, and the threads that are in a
call.  A step may also stop the kernel (`LroCrash`), at a `BUG` of the pool or at an access to
buckets that are not there.

`unm_cleanup_lro`, and an `unm_init_lro` that fails, leave a pool with nothing in it and a
`bucket_cnt` with no buckets.  A response of the card that comes then is looked for in them.

`Sound` is the property of a state: the kernel has not stopped, it has lent just what the adapter
has, and each node has one owner.  `Allowed` is the condition on an event, that of the pool's
machine while LRO is initialized and no step in a bucket while it is not.  The invariant adds where
the threads may be; `lroLife_iff` is about runs, by the step lemmas of `Lro/Ownership`.
-/
namespace NxNic
namespace Lro
open Load (NicVersion)

/-! ## The kernel's memory -/

/-- How the kernel stops. -/
inductive LroCrash where
  /-- `BUG()` of `nx_mem_pool_destroy`. -/
  | outstandingFrees
  /-- `BUG()` of `nx_mem_pool_free`. -/
  | tooManyFrees
  /-- A list head that was never initialized. -/
  | rawPool
  /-- Buckets that are not there. -/
  | noBuckets
deriving DecidableEq

def kmalloc (heap : Pool) (size : Nat) (had : Bool) : Option Block × Pool :=
  if had then (some (heap.next size), heap.take size) else (none, heap)

/-- `vmalloc`, which has nothing for size 0. -/
def vmalloc (heap : Pool) (size : Nat) (had : Bool) : Option { _b : Block // size ≠ 0 } × Pool :=
  if h : had = true ∧ size ≠ 0 then (some ⟨heap.next size, h.2⟩, heap.take size) else (none, heap)

/-- `kfree` and `vfree`. -/
def kfree (heap : Pool) (b : Block) : Pool := heap.give b b.size

/-! ## The pool and the table -/

/-- `nx_mem_pool_destroy`. -/
def nxMemPoolDestroy (allocated : Int) (freeList : List Block) (heap : Pool) :
    Except LroCrash Pool :=
  if allocated ≠ 0 then .error .outstandingFrees else .ok (freeList.foldl kfree heap)

/-- The loop of `nx_mem_pool_create`, which puts each node in front of the free list. -/
def createNodes (entrySize : Nat) (had : Nat → Bool) : Nat → Nat → List Block → Pool →
    Bool × List Block × Pool
  | 0, _, freeList, heap => (true, freeList, heap)
  | n + 1, i, freeList, heap =>
    match kmalloc heap entrySize (had i) with
    | (none, heap) => (false, freeList, heap)
    | (some node, heap) => createNodes entrySize had n (i + 1) (node :: freeList) heap

/-- `nx_mem_pool_create`: the free list, or `none` for `-ENOMEM`. -/
def nxMemPoolCreate (maxEntries entrySize : Nat) (had : Nat → Bool) (heap : Pool) :
    Except LroCrash (Option (List Block) × Pool) :=
  match createNodes entrySize had maxEntries 0 [] heap with
  | (true, freeList, heap) => .ok (some freeList, heap)
  | (false, freeList, heap) => do
    let heap ← nxMemPoolDestroy 0 freeList heap
    return (none, heap)

section
variable {bucketCnt : Nat}

/-- The inner loop of `nx_hash_tbl_destroy`; the callback returns the node to the pool. -/
def destroyNodes (i : Fin bucketCnt) :
    List Nat → LroState bucketCnt → Except LroCrash (LroState bucketCnt)
  | [], s => .ok s
  | node :: rest, s =>
    let s := { s with tbl := s.tbl.setBucket i rest }.nxMemPoolFree node
    if s.allocated < 0 then .error .tooManyFrees else destroyNodes i rest s

/-- The outer loop. -/
def destroyBuckets : List (Fin bucketCnt) → LroState bucketCnt →
    Except LroCrash (LroState bucketCnt)
  | [], s => .ok s
  | i :: rest, s => do
    let s ← destroyNodes i (s.tbl.buckets i) s
    destroyBuckets rest s

/-- `nx_hash_tbl_destroy`. -/
def nxHashTblDestroy (buckets : Block) (s : LroState bucketCnt) (heap : Pool) :
    Except LroCrash (LroState bucketCnt × Pool) := do
  let s ← destroyBuckets (List.finRange bucketCnt) s
  return (s, kfree heap buckets)

end

/-! ## The adapter -/

/-- `lro` of the adapter: what there is when it is not initialized, with whether the pool has
ever been made, and when it is.  Node `i` of the pool is the `i`-th of `nodes`. -/
inductive LroParts where
  | gone (made : Bool) (bucketCnt : Nat) (threads : Nat → LroPc)
  | ready (bucketCnt : Nat) (nonzero : NeZero bucketCnt) (nodes : List Block) (buckets : Block)
      (lro : LroState bucketCnt)

/-- The adapter, the kernel's memory, and the threads that are in a call. -/
structure LroAdapter where
  heap : Pool
  enabled : Bool
  parts : LroParts
  running : List Nat

/-- The version of the firmware, and the sizes of an entry with its node and of a bucket. -/
structure LroConfig where
  version : NicVersion
  entrySize : Nat
  headSize : Nat

/-- What `unm_init_lro` meets: the answer of the firmware and that of the kernel. -/
structure LroPlan where
  query : Option Nat
  nodes : Nat → Bool
  buckets : Bool

/-- Who calls `unm_init_lro`, the first with the module's parameter. -/
inductive LroCaller where
  | unmNicProbe (lro : Bool)
  | netxenNicAttachAllPorts
  | nxNicAttachFunc

/-- `lro.enabled` when the caller is done. -/
def LroCaller.enabled (prev initialized : Bool) : LroCaller → Bool
  | .unmNicProbe lro => if initialized then lro else prev
  | .netxenNicAttachAllPorts => prev
  | .nxNicAttachFunc => initialized || prev

/-- `max_lro`. -/
def LroConfig.maxLro (c : LroConfig) (query : Option Nat) : Option Nat :=
  if NicVersion.code ⟨4, 0, 222⟩ ≤ c.version.code then query else some 32

/-- `unm_init_lro`, with whether it returns 0. -/
def unmInitLro (c : LroConfig) (plan : LroPlan) (made : Bool) (bucketCnt : Nat)
    (threads : Nat → LroPc) (heap : Pool) : Except LroCrash (Bool × LroParts × Pool) :=
  match c.maxLro plan.query with
  | none => .ok (false, .gone made bucketCnt threads, heap)
  | some maxLro =>
    match nxMemPoolCreate maxLro c.entrySize plan.nodes heap with
    | .error crash => .error crash
    | .ok (none, heap) => .ok (false, .gone true bucketCnt threads, heap)
    | .ok (some freeList, heap) =>
      match vmalloc heap (c.headSize * maxLro) plan.buckets with
      | (none, heap) => do
        let heap ← nxMemPoolDestroy 0 freeList heap
        return (false, .gone true maxLro threads, heap)
      | (some buckets, heap) =>
        let lro := { initialLro maxLro maxLro with threads := threads }
        .ok (true, .ready maxLro ⟨right_ne_zero_of_mul buckets.2⟩ freeList.reverse buckets.1 lro,
          heap)

/-- `unm_cleanup_lro`. -/
def unmCleanupLro (parts : LroParts) (heap : Pool) : Except LroCrash (LroParts × Pool) :=
  match parts with
  | .gone made bucketCnt threads => .ok (.gone made bucketCnt threads, heap)
  | .ready bucketCnt _ nodes buckets lro => do
    let (lro, heap) ← nxHashTblDestroy buckets lro heap
    let heap ← nxMemPoolDestroy lro.allocated (lro.freeList.map fun n => nodes.getD n ⟨0, 0⟩) heap
    return (.gone true bucketCnt lro.threads, heap)

/-! ## Runs -/

/-- The functions are called, and the threads take their steps. -/
inductive LroEvent where
  | unmInitLro (caller : LroCaller) (plan : LroPlan)
  | unmCleanupLro
  /-- With what `nx_lro_send_cleanup` returns. -/
  | nxLroSetState (val refused : Bool)
  | thread (a : LroAction)

/-- The thread that acts. -/
def LroAction.thread : LroAction → Nat
  | .initiate t _ _ => t
  | .response t _ => t
  | .deleteCtx t _ => t
  | .step t _ => t

def LroPc.isIdle : LroPc → Bool
  | .idle => true
  | _ => false

/-- The step of a thread when LRO is not initialized. -/
def goneStep (made : Bool) (bucketCnt : Nat) (threads : Nat → LroPc) (a : LroAction) :
    Option (Except LroCrash (Nat → LroPc)) :=
  match a, threads a.thread with
  | .initiate t key ctxId, .idle => some (.ok (Function.update threads t (.allocating key ctxId)))
  | .response t key, .idle =>
    some (.ok (Function.update threads t (.deleting { key with ipVersion := nxIpVersionV4 })))
  | .deleteCtx t ctxId, .idle => some (.ok (Function.update threads t (.sweeping ctxId 0)))
  | .step _ _, .idle => none
  | .step t _, .allocating _ _ =>
    -- the free list is empty
    some (if made then .ok (Function.update threads t .idle) else .error .rawPool)
  | .step t _, .sweeping _ i =>
    some (if i < bucketCnt then .error .noBuckets else .ok (Function.update threads t .idle))
  | .step _ _, _ => some (.error .noBuckets)
  | _, _ => none

/-- The step of a thread. -/
def LroParts.step (a : LroAction) : LroParts → Option (Except LroCrash (LroParts × LroPc))
  | .gone made bucketCnt threads =>
    (goneStep made bucketCnt threads a).map fun r =>
      r.map fun threads => (.gone made bucketCnt threads, threads a.thread)
  | .ready bucketCnt nonzero nodes buckets lro =>
    ((lroMachine bucketCnt).next lro a).map fun lro =>
      if lro.allocated < 0 then .error .tooManyFrees
      else .ok (.ready bucketCnt nonzero nodes buckets lro, lro.threads a.thread)

/-- `nx_try_initiate_lro` is called when LRO is enabled. -/
def LroAction.comes (enabled : Bool) : LroAction → Bool
  | .initiate .. => enabled
  | _ => true

namespace LroAdapter
variable (s : LroAdapter)

/-- The threads in a call, after one of them has got to `pc`. -/
def runningAfter (t : Nat) (pc : LroPc) : List Nat :=
  if pc.isIdle then s.running.filter (· ≠ t) else t :: s.running

/-- `nx_lro_set_state`. -/
def nxLroSetState (val refused : Bool) : LroAdapter :=
  if s.enabled = val then s
  else
    match s.parts, val, refused with
    | .gone .., true, _ => s
    | _, false, true => s
    | _, _, _ => { s with enabled := val }

/-- `unm_init_lro` and what its caller does with `lro.enabled`. -/
def initLro (c : LroConfig) (caller : LroCaller) (plan : LroPlan) :
    Option (Except LroCrash LroAdapter) :=
  match s.parts with
  | .ready .. => none
  | .gone made bucketCnt threads =>
    some ((unmInitLro c plan made bucketCnt threads s.heap).map fun (initialized, parts, heap) =>
      { s with heap := heap, enabled := caller.enabled s.enabled initialized, parts := parts })

end LroAdapter

/-- The firmware's answer, and with it the size of all buckets, is an `int`. -/
def LroPlan.Fits (c : LroConfig) (plan : LroPlan) : Prop :=
  ∀ n ∈ plan.query, c.headSize * n < 2 ^ 31 ∧ n < 2 ^ 31

instance decidableFits (c : LroConfig) (plan : LroPlan) : Decidable (plan.Fits c) := by
  unfold LroPlan.Fits
  infer_instance

/-- The life of the adapter's LRO. -/
def lroLife (c : LroConfig) : Machine (Except LroCrash LroAdapter) LroEvent where
  next
    | .error _, _ => none
    | .ok s, .unmInitLro caller plan =>
      if s.running = [] ∧ plan.Fits c then s.initLro c caller plan else none
    | .ok s, .unmCleanupLro =>
      if s.running = [] then
        some ((unmCleanupLro s.parts s.heap).map fun (parts, heap) =>
          { s with heap := heap, parts := parts })
      else none
    | .ok s, .nxLroSetState val refused => some (.ok (s.nxLroSetState val refused))
    | .ok s, .thread a =>
      if a.comes s.enabled then
        (s.parts.step a).map fun r => r.map fun (parts, pc) =>
          { s with parts := parts, running := s.runningAfter a.thread pc }
      else none

/-- An adapter before `unm_nic_probe` comes to LRO. -/
def newAdapter : LroAdapter := ⟨[], false, .gone false 0 fun _ => .idle, []⟩

/-! ## The pool and the table are made and destroyed -/

section
variable {heap : Pool} {m : Multiset Block} {freeList : List Block}

theorem kmalloc_cases (heap : Pool) (size : Nat) (had : Bool) :
    kmalloc heap size had = (none, heap) ∨
      kmalloc heap size had = (some (heap.next size), heap.take size) := by
  rw [kmalloc]
  split
  · exact .inr rfl
  · exact .inl rfl

theorem vmalloc_cases (heap : Pool) (size : Nat) (had : Bool) :
    vmalloc heap size had = (none, heap) ∨
      ∃ h, vmalloc heap size had = (some ⟨heap.next size, h⟩, heap.take size) := by
  rw [vmalloc]
  split
  · rename_i h
    exact .inr ⟨h.2, rfl⟩
  · exact .inl rfl

theorem createNodes_holds (entrySize n i : Nat) (had : Nat → Bool)
    (h : heap.Holds 0 (↑freeList + m)) :
    ∃ ok freeList' heap', createNodes entrySize had n i freeList heap = (ok, freeList', heap') ∧
      heap'.Holds 0 (↑freeList' + m) ∧ (ok = true → freeList'.length = n + freeList.length) := by
  induction n generalizing i freeList heap with
  | zero => exact ⟨true, freeList, heap, rfl, h, fun _ => (Nat.zero_add _).symm⟩
  | succ n ih =>
    rw [createNodes]
    rcases kmalloc_cases heap entrySize (had i) with heq | heq
    · rw [heq]
      exact ⟨false, freeList, heap, rfl, h, nofun⟩
    · rw [heq]
      have hnext := h.take entrySize
      rw [← Multiset.cons_add, Multiset.cons_coe] at hnext
      obtain ⟨ok, freeList', heap', hrun, hheld, hlength⟩ := ih (i + 1) hnext
      refine ⟨ok, freeList', heap', hrun, hheld, fun hok => ?_⟩
      rw [hlength hok, List.length_cons]
      omega

/-- **`nx_mem_pool_create`** has all its nodes, or none. -/
theorem nxMemPoolCreate_holds (maxEntries entrySize : Nat) (had : Nat → Bool)
    (h : heap.Holds 0 m) :
    (∃ heap', nxMemPoolCreate maxEntries entrySize had heap = .ok (none, heap') ∧
      heap'.Holds 0 m) ∨
    ∃ freeList heap', nxMemPoolCreate maxEntries entrySize had heap = .ok (some freeList, heap') ∧
      heap'.Holds 0 (↑freeList + m) ∧ freeList.length = maxEntries := by
  have hnil : heap.Holds 0 (↑([] : List Block) + m) := (zero_add m).symm ▸ h
  obtain ⟨ok, freeList, heap', hrun, hheld, hlength⟩ :=
    createNodes_holds entrySize maxEntries 0 had hnil
  rw [nxMemPoolCreate, hrun]
  cases ok with
  | false => exact .inl ⟨_, rfl, hheld.give_all⟩
  | true => exact .inr ⟨freeList, heap', rfl, hheld, hlength rfl⟩

variable {bucketCnt maxEntries : Nat} {s : LroState bucketCnt} {i : Fin bucketCnt}

/-- All threads are idle. -/
def Quiet (threads : Nat → LroPc) : Prop := ∀ t, threads t = .idle

namespace Kept

theorem length_le (h : Kept maxEntries s) : s.freeList.length ≤ maxEntries := by
  have hnodup : s.freeList.Nodup := h.places.nodup .free
  rw [← Finset.card_range maxEntries, ← List.toFinset_card_of_nodup hnodup]
  refine Finset.card_le_card fun n hn => ?_
  exact h.places.mem (i := .free) (List.mem_toFinset.mp hn)

/-- No `BUG()` of `nx_mem_pool_free`. -/
theorem allocated_nonneg (h : Kept maxEntries s) : 0 ≤ s.allocated := by
  have hlength := h.length_le
  have hcounter := h.counter
  omega

/-- The first node of a bucket is returned to the pool. -/
theorem destroyNode {node : Nat} {rest : List Nat} (h : Kept maxEntries s)
    (hbucket : s.tbl.buckets i = node :: rest) :
    Kept maxEntries ({ s with tbl := s.tbl.setBucket i rest }.nxMemPoolFree node) := by
  refine ⟨h.places.move (i := .bucket i) (j := .free) nofun ?_ fun p hp hp' => ?_, ?_, h.sent⟩
  · show (Function.update s.tbl.buckets i rest i ++ (s.freeList ++ [node])).Perm
      (s.tbl.buckets i ++ s.freeList)
    rw [Function.update_self, hbucket, ← List.append_assoc]
    exact List.perm_append_singleton ..
  · cases p with
    | free => exact absurd rfl hp'
    | bucket k =>
      have hk : k ≠ i := fun heq => hp (heq ▸ rfl)
      exact Function.update_of_ne hk ..
    | held t => rfl
  · have hcounter := h.counter
    show s.allocated - 1 + ((s.freeList ++ [node]).length : Int) = maxEntries
    rw [List.length_append, List.length_singleton]
    omega

theorem destroyNodes_spec {l : List Nat} (h : Kept maxEntries s) (hbucket : s.tbl.buckets i = l) :
    ∃ s', destroyNodes i l s = .ok s' ∧ Kept maxEntries s' ∧ s'.threads = s.threads ∧
      s'.tbl.buckets = Function.update s.tbl.buckets i [] := by
  induction l generalizing s with
  | nil => exact ⟨s, rfl, h, rfl, (Function.update_eq_self_iff.mpr hbucket.symm).symm⟩
  | cons node rest ih =>
    have hnode := h.destroyNode hbucket
    obtain ⟨s', hrun, hkept, hthreads, hbuckets⟩ := ih hnode (Function.update_self ..)
    refine ⟨s', ?_, hkept, hthreads, hbuckets.trans ?_⟩
    · rw [destroyNodes, if_neg (not_lt.mpr hnode.allocated_nonneg), hrun]
    · exact Function.update_idem ..

theorem destroyBuckets_spec {l : List (Fin bucketCnt)} (h : Kept maxEntries s) :
    ∃ s', destroyBuckets l s = .ok s' ∧ Kept maxEntries s' ∧ s'.threads = s.threads ∧
      ∀ i, i ∈ l ∨ s.tbl.buckets i = [] → s'.tbl.buckets i = [] := by
  induction l generalizing s with
  | nil => exact ⟨s, rfl, h, rfl, fun i hi => hi.resolve_left List.not_mem_nil⟩
  | cons i rest ih =>
    obtain ⟨s₁, hrun₁, hkept₁, hthreads₁, hbuckets₁⟩ := h.destroyNodes_spec (i := i) rfl
    obtain ⟨s₂, hrun₂, hkept₂, hthreads₂, hbuckets₂⟩ := ih hkept₁
    refine ⟨s₂, ?_, hkept₂, hthreads₂.trans hthreads₁, fun k hk => hbuckets₂ k ?_⟩
    · rw [destroyBuckets, hrun₁]
      exact hrun₂
    · rw [hbuckets₁]
      by_cases hki : k = i
      · exact .inr (hki ▸ Function.update_self ..)
      · rw [Function.update_of_ne hki]
        exact hk.imp_left fun hmem => List.mem_of_ne_of_mem hki hmem

/-- When nothing is anywhere else, all entries are free. -/
theorem freeList_perm (h : Kept maxEntries s) (hbuckets : ∀ i, s.tbl.buckets i = [])
    (hquiet : Quiet s.threads) : s.freeList.Perm (List.range maxEntries) := by
  refine (List.perm_ext_iff_of_nodup (h.places.nodup .free) List.nodup_range).mpr fun n => ?_
  rw [List.mem_range, ← Finset.mem_range, h.places.mem_iff]
  constructor
  · exact fun hn => ⟨.free, hn⟩
  · rintro ⟨p, hp⟩
    cases p with
    | free => exact hp
    | bucket i =>
      replace hp : n ∈ s.tbl.buckets i := hp
      rw [hbuckets i] at hp
      exact absurd hp List.not_mem_nil
    | held t =>
      replace hp : n ∈ (s.threads t).held := hp
      rw [hquiet t] at hp
      exact absurd hp List.not_mem_nil

/-- **`unm_cleanup_lro`** gives back all that `unm_init_lro` had from the kernel. -/
theorem unmCleanupLro_spec (nonzero : NeZero bucketCnt) {nodes : List Block} {buckets : Block}
    (h : Kept bucketCnt s) (hquiet : Quiet s.threads) (hlength : nodes.length = bucketCnt)
    (hheap : heap.Holds 0 (buckets ::ₘ ↑nodes)) :
    ∃ heap', unmCleanupLro (.ready bucketCnt nonzero nodes buckets s) heap =
      .ok (.gone true bucketCnt s.threads, heap') ∧ heap'.Holds 0 0 := by
  obtain ⟨s', hrun, hkept, hthreads, hbuckets⟩ :=
    h.destroyBuckets_spec (l := List.finRange bucketCnt)
  have hperm : s'.freeList.Perm (List.range bucketCnt) :=
    hkept.freeList_perm (fun i => hbuckets i (.inl (List.mem_finRange i)))
      (hthreads ▸ hquiet)
  have hallocated : s'.allocated = 0 := by
    have hcounter := hkept.counter
    rw [hperm.length_eq, List.length_range] at hcounter
    omega
  have hnodes : (s'.freeList.map fun n => nodes.getD n ⟨0, 0⟩).Perm nodes := by
    refine (hperm.map _).trans (List.Perm.of_eq (List.ext_getElem ?_ fun i hi hi' => ?_))
    · rw [List.length_map, List.length_range, hlength]
    · rw [List.getElem_map, List.getElem_range, List.getD_eq_getElem?_getD,
        List.getElem?_eq_getElem hi', Option.getD_some]
  have hall := hheap.give
  rw [← add_zero (nodes : Multiset Block), ← Multiset.coe_eq_coe.mpr hnodes] at hall
  have hdestroy : nxHashTblDestroy buckets s heap = .ok (s', kfree heap buckets) := by
    rw [nxHashTblDestroy, hrun]
    rfl
  refine ⟨_, ?_, hall.give_all⟩
  rw [unmCleanupLro, hdestroy]
  show (do
    let heap ← nxMemPoolDestroy s'.allocated (s'.freeList.map fun n => nodes.getD n ⟨0, 0⟩)
      (kfree heap buckets)
    return (LroParts.gone true bucketCnt s'.threads, heap)) = _
  rw [nxMemPoolDestroy, if_neg (not_not.mpr hallocated), hthreads]
  rfl

end Kept
end

/-! ## What is kept -/

/-- The next step of the thread is in one of the table's buckets. -/
def LroPc.inBucket (bucketCnt : Nat) : LroPc → Bool
  | .deleting _ => true
  | .sweeping _ i => decide (i < bucketCnt)
  | _ => false

namespace LroParts

/-- What is the adapter's of the kernel's memory. -/
def blocks : LroParts → Multiset Block
  | .gone .. => 0
  | .ready _ _ nodes buckets _ => buckets ::ₘ ↑nodes

def threads : LroParts → Nat → LroPc
  | .gone _ _ threads => threads
  | .ready _ _ _ _ lro => lro.threads

/-- Each node of the pool has one owner. -/
def OneOwner : LroParts → Prop
  | .gone .. => True
  | .ready bucketCnt _ nodes _ lro => nodes.length = bucketCnt ∧ Owned bucketCnt lro

/-- Where a thread may be when LRO is not initialized. -/
def Waits (made : Bool) : LroPc → Prop
  | .idle | .deleting _ | .sweeping _ _ => True
  | .allocating _ _ => made = true
  | _ => False

def Kept (enabled : Bool) : LroParts → Prop
  | .gone made _ threads => (enabled = true → made = true) ∧ ∀ t, Waits made (threads t)
  | .ready bucketCnt _ nodes _ lro => nodes.length = bucketCnt ∧ Lro.Kept bucketCnt lro

/-- The condition on the step of a thread: that of the pool's machine, and no step in the buckets
when LRO is not initialized. -/
def Allows (a : LroAction) : LroParts → Prop
  | .gone _ bucketCnt threads =>
    match a with
    | .step t _ => (threads t).inBucket bucketCnt = false
    | _ => True
  | .ready _ _ _ _ lro => StillThere lro a

instance decidableAllows (a : LroAction) (parts : LroParts) : Decidable (parts.Allows a) :=
  match parts, a with
  | .gone _ bucketCnt threads, .step t _ =>
    inferInstanceAs (Decidable ((threads t).inBucket bucketCnt = false))
  | .gone .., .initiate .. => instDecidableTrue
  | .gone .., .response .. => instDecidableTrue
  | .gone .., .deleteCtx .. => instDecidableTrue
  | .ready _ _ _ _ lro, a => inferInstanceAs (Decidable (StillThere lro a))

end LroParts

/-- The kernel has not stopped; it has lent the adapter just what the adapter has, so nothing
when LRO is not initialized; and each node has one owner. -/
def Sound : Except LroCrash LroAdapter → Prop
  | .error _ => False
  | .ok s => s.heap.held = some s.parts.blocks ∧ s.parts.OneOwner

/-- The condition on an event. -/
def Allowed : Except LroCrash LroAdapter → LroEvent → Prop
  | .ok s, .thread a => s.parts.Allows a
  | _, _ => True

instance decidableAllowed (s : Except LroCrash LroAdapter) (e : LroEvent) :
    Decidable (Allowed s e) := by
  unfold Allowed
  split
  · infer_instance
  · infer_instance

/-- The invariant of the runs all of whose events meet the condition. -/
structure LroAdapter.Kept (s : LroAdapter) : Prop where
  heap : s.heap.Holds 0 s.parts.blocks
  parts : s.parts.Kept s.enabled
  idle : ∀ t, t ∉ s.running → s.parts.threads t = .idle

/-! ## The steps of the threads -/

section
variable {bucketCnt : Nat} {s s' : LroState bucketCnt} {u t : Nat}

theorem goto_threads {pc : LroPc} (hu : u ≠ t) : (s.goto t pc).threads u = s.threads u :=
  Function.update_of_ne hu ..

theorem call_threads {pc : LroPc} (h : s.call t pc = some s') (hu : u ≠ t) :
    s'.threads u = s.threads u := by
  rw [LroState.call] at h
  split at h
  · exact Option.some.inj h ▸ goto_threads hu
  · cases h

variable [NeZero bucketCnt]

theorem step_threads {refused : Bool} (h : s.step t refused = some s') (hu : u ≠ t) :
    s'.threads u = s.threads u := by
  rw [LroState.step] at h
  split at h
  · cases h
  · obtain rfl := Option.some.inj h
    rw [LroState.allocate, LroState.nxMemPoolAlloc]
    cases s.freeList with
    | nil => exact goto_threads hu
    | cons entry rest => exact Function.update_of_ne hu ..
  · obtain ⟨-, h⟩ := Option.ite_none_right_eq_some.mp h
    obtain rfl := Option.some.inj h
    rw [LroState.insert]
    split
    · exact goto_threads hu
    · exact goto_threads hu
  · exact Option.some.inj h ▸ goto_threads hu
  · obtain ⟨-, h⟩ := Option.ite_none_right_eq_some.mp h
    exact Option.some.inj h ▸ goto_threads hu
  · exact Option.some.inj h ▸ goto_threads hu
  · obtain ⟨-, h⟩ := Option.ite_none_right_eq_some.mp h
    obtain rfl := Option.some.inj h
    rw [LroState.delete]
    split
    · exact goto_threads hu
    · exact goto_threads hu
  · rw [LroState.sweep] at h
    split at h
    · obtain ⟨-, h⟩ := Option.ite_none_right_eq_some.mp h
      exact Option.some.inj h ▸ goto_threads hu
    · exact Option.some.inj h ▸ goto_threads hu
  · rw [LroState.visit] at h
    split at h
    · split at h
      · exact Option.some.inj h ▸ goto_threads hu
      · exact Option.some.inj h ▸ goto_threads hu
    · cases h
  · exact Option.some.inj h ▸ goto_threads hu

/-- A step leaves the other threads where they are. -/
theorem next_threads {a : LroAction} (h : (lroMachine bucketCnt).next s a = some s')
    (hu : u ≠ a.thread) : s'.threads u = s.threads u := by
  cases a with
  | initiate t key ctxId => exact call_threads h hu
  | response t key => exact call_threads h hu
  | deleteCtx t ctxId => exact call_threads h hu
  | step t refused => exact step_threads h hu

end

section
variable {made enabled : Bool} {bucketCnt : Nat} {threads threads' : Nat → LroPc} {a : LroAction}

/-- A thread goes to where it may be. -/
theorem waits_update (h : ∀ t, LroParts.Waits made (threads t)) {t : Nat} {pc : LroPc}
    (hpc : LroParts.Waits made pc) : ∀ u, LroParts.Waits made (Function.update threads t pc u) :=
  (Function.forall_update_iff threads fun _ pc => LroParts.Waits made pc).mpr
    ⟨hpc, fun u _ => h u⟩

/-- A step that is taken when LRO is not initialized. -/
theorem goneStep_ok (hwaits : ∀ t, LroParts.Waits made (threads t))
    (henabled : enabled = true → made = true) (hcomes : a.comes enabled = true)
    (h : goneStep made bucketCnt threads a = some (.ok threads')) :
    (∀ t, LroParts.Waits made (threads' t)) ∧ (∀ u, u ≠ a.thread → threads' u = threads u) ∧
      (LroParts.gone made bucketCnt threads).Allows a := by
  unfold goneStep at h
  split at h
  · obtain rfl := Except.ok.inj (Option.some.inj h)
    exact ⟨waits_update hwaits (henabled hcomes), fun u hu => Function.update_of_ne hu .., trivial⟩
  · obtain rfl := Except.ok.inj (Option.some.inj h)
    exact ⟨waits_update hwaits trivial, fun u hu => Function.update_of_ne hu .., trivial⟩
  · obtain rfl := Except.ok.inj (Option.some.inj h)
    exact ⟨waits_update hwaits trivial, fun u hu => Function.update_of_ne hu .., trivial⟩
  · cases h
  · rename_i t refused key ctxId hpc
    split at h
    · obtain rfl := Except.ok.inj (Option.some.inj h)
      exact ⟨waits_update hwaits trivial, fun u hu => Function.update_of_ne hu ..,
        congrArg (LroPc.inBucket bucketCnt) hpc⟩
    · cases h
  · rename_i t refused ctxId i hpc
    split at h
    · cases h
    · rename_i hle
      obtain rfl := Except.ok.inj (Option.some.inj h)
      exact ⟨waits_update hwaits trivial, fun u hu => Function.update_of_ne hu ..,
        (congrArg (LroPc.inBucket bucketCnt) hpc).trans (decide_eq_false hle)⟩
  · cases h
  · cases h

/-- A step that meets the condition does not stop the kernel. -/
theorem goneStep_allowed {r : Except LroCrash (Nat → LroPc)}
    (hwaits : ∀ t, LroParts.Waits made (threads t))
    (hallows : (LroParts.gone made bucketCnt threads).Allows a)
    (h : goneStep made bucketCnt threads a = some r) : ∃ threads', r = .ok threads' := by
  unfold goneStep at h
  split at h
  · exact ⟨_, (Option.some.inj h).symm⟩
  · exact ⟨_, (Option.some.inj h).symm⟩
  · exact ⟨_, (Option.some.inj h).symm⟩
  · cases h
  · rename_i t refused key ctxId hpc
    have hmade : made = true := by
      have hwait := hwaits t
      rw [show threads t = _ from hpc] at hwait
      exact hwait
    rw [if_pos hmade] at h
    exact ⟨_, (Option.some.inj h).symm⟩
  · rename_i t refused ctxId i hpc
    have hle : ¬ i < bucketCnt :=
      of_decide_eq_false ((congrArg (LroPc.inBucket bucketCnt) hpc).symm.trans hallows)
    rw [if_neg hle] at h
    exact ⟨_, (Option.some.inj h).symm⟩
  · rename_i t refused hidle halloc hsweep
    exfalso
    have hwait := hwaits t
    cases hpc : threads t with
    | deleting key =>
      exact Bool.noConfusion ((congrArg (LroPc.inBucket bucketCnt) hpc).symm.trans hallows)
    | idle => exact hidle hpc
    | allocating key ctxId => exact halloc key ctxId hpc
    | sweeping ctxId i => exact hsweep ctxId i hpc
    | _ =>
      rw [hpc] at hwait
      exact hwait
  · cases h

end

/-! ## `unm_init_lro` -/

/-- **`unm_init_lro`** has all that it needs from the kernel, or keeps nothing of it. -/
theorem unmInitLro_spec (c : LroConfig) (plan : LroPlan) (made : Bool) (bucketCnt : Nat)
    {threads : Nat → LroPc} {heap : Pool} (hheap : heap.Holds 0 0) (hquiet : Quiet threads) :
    ∃ ok parts heap', unmInitLro c plan made bucketCnt threads heap = .ok (ok, parts, heap') ∧
      heap'.Holds 0 parts.blocks ∧ parts.threads = threads ∧
      ∀ enabled, (ok = false → enabled = true → made = true) → parts.Kept enabled := by
  have hwaits : ∀ made t, LroParts.Waits made (threads t) := fun made t => by
    rw [hquiet t]
    trivial
  unfold unmInitLro
  split
  · exact ⟨_, _, _, rfl, hheap, rfl, fun enabled hmade => ⟨hmade rfl, hwaits made⟩⟩
  · rename_i maxLro hmax
    rcases nxMemPoolCreate_holds maxLro c.entrySize plan.nodes hheap with
      ⟨heap₁, hcreate, hheld⟩ | ⟨freeList, heap₁, hcreate, hheld, hlength⟩
    · rw [hcreate]
      exact ⟨_, _, _, rfl, hheld, rfl, fun enabled hmade => ⟨fun _ => rfl, hwaits true⟩⟩
    · rw [hcreate]
      dsimp only
      rcases vmalloc_cases heap₁ (c.headSize * maxLro) plan.buckets with
        hvmalloc | ⟨hsize, hvmalloc⟩
      · rw [hvmalloc]
        exact ⟨_, _, _, rfl, hheld.give_all, rfl, fun enabled hmade => ⟨fun _ => rfl, hwaits true⟩⟩
      · rw [hvmalloc]
        have hheld₂ := hheld.take (c.headSize * maxLro)
        rw [add_zero, ← Multiset.coe_reverse] at hheld₂
        refine ⟨_, _, _, rfl, hheld₂, rfl, fun enabled hmade => ⟨?_, ?_⟩⟩
        · rw [List.length_reverse, hlength]
        · rw [show threads = fun _ => .idle from funext hquiet]
          exact Kept.init

/-! ## What every event keeps -/

namespace LroAdapter

theorem mem_runningAfter {s : LroAdapter} {t u : Nat} {pc : LroPc} (hne : u ≠ t)
    (h : u ∈ s.running) : u ∈ s.runningAfter t pc := by
  rw [runningAfter]
  split
  · exact List.mem_filter.mpr ⟨h, decide_eq_true hne⟩
  · exact List.mem_cons_of_mem _ h

/-- A thread that is not in a call. -/
theorem idle_of_notMem {s : LroAdapter} {t : Nat} {pc : LroPc} (h : t ∉ s.runningAfter t pc) :
    pc = .idle := by
  rw [runningAfter] at h
  split at h
  · rename_i hidle
    cases pc with
    | idle => rfl
    | _ => exact Bool.noConfusion hidle
  · exact absurd List.mem_cons_self h

namespace Kept
variable {s : LroAdapter} {c : LroConfig} {r : Except LroCrash LroAdapter}

theorem quiet (h : s.Kept) (hrunning : s.running = []) : Quiet s.parts.threads :=
  fun t => h.idle t (hrunning ▸ List.not_mem_nil)

theorem initLro {caller : LroCaller} {plan : LroPlan} (h : s.Kept) (hrunning : s.running = [])
    (hinit : s.initLro c caller plan = some r) : ∃ s', r = .ok s' ∧ s'.Kept := by
  have hquiet := h.quiet hrunning
  obtain ⟨heap, enabled, parts, running⟩ := s
  cases parts with
  | ready => cases hinit
  | gone made bucketCnt threads =>
    have hheap : heap.Holds 0 0 := h.heap
    replace hquiet : Quiet threads := hquiet
    obtain ⟨ok, parts, heap', hrun, hheld, hthreads, hkept⟩ :=
      unmInitLro_spec c plan made bucketCnt hheap hquiet
    replace hinit := Option.some.inj hinit
    dsimp only at hinit
    rw [hrun] at hinit
    refine ⟨_, hinit.symm, hheld, hkept _ fun hok henabled => h.parts.1 ?_, fun t _ => ?_⟩
    · rw [hok] at henabled
      cases caller <;> exact henabled
    · rw [hthreads]
      exact hquiet t

theorem cleanupLro (h : s.Kept) (hrunning : s.running = []) :
    ∃ parts heap, Lro.unmCleanupLro s.parts s.heap = .ok (parts, heap) ∧
      LroAdapter.Kept { s with heap := heap, parts := parts } := by
  have hquiet := h.quiet hrunning
  obtain ⟨heap, enabled, parts, running⟩ := s
  cases parts with
  | gone made bucketCnt threads => exact ⟨_, _, rfl, h⟩
  | ready bucketCnt nonzero nodes buckets lro =>
    obtain ⟨heap', hrun, hheld⟩ := h.parts.2.unmCleanupLro_spec nonzero hquiet h.parts.1 h.heap
    refine ⟨_, _, hrun, hheld, ⟨fun _ => rfl, fun t => ?_⟩, fun t _ => hquiet t⟩
    rw [show lro.threads t = .idle from hquiet t]
    trivial

theorem setState (h : s.Kept) {val refused : Bool} : (s.nxLroSetState val refused).Kept := by
  obtain ⟨heap, enabled, parts, running⟩ := s
  unfold LroAdapter.nxLroSetState
  split
  · exact h
  · dsimp only
    split
    · exact h
    · exact h
    · rename_i hgone hrefused
      refine ⟨h.heap, ?_, h.idle⟩
      cases parts with
      | gone made bucketCnt threads =>
        cases val with
        | true => exact absurd rfl (hgone made bucketCnt threads rfl)
        | false => exact ⟨nofun, h.parts.2⟩
      | ready => exact h.parts

theorem thread {a : LroAction} (h : s.Kept) (hallows : s.parts.Allows a)
    (hcomes : a.comes s.enabled = true) {q : Except LroCrash (LroParts × LroPc)}
    (hstep : s.parts.step a = some q) : ∃ parts pc, q = .ok (parts, pc) ∧
      LroAdapter.Kept { s with parts := parts, running := s.runningAfter a.thread pc } := by
  have hidle : ∀ {threads : Nat → LroPc}, (∀ u, u ≠ a.thread → threads u = s.parts.threads u) →
      ∀ t, t ∉ s.runningAfter a.thread (threads a.thread) → threads t = .idle := by
    intro threads hother t ht
    by_cases hne : t = a.thread
    · rw [hne] at ht ⊢
      exact idle_of_notMem ht
    · rw [hother t hne]
      exact h.idle t fun hmem => ht (mem_runningAfter hne hmem)
  obtain ⟨heap, enabled, parts, running⟩ := s
  cases parts with
  | gone made bucketCnt threads =>
    obtain ⟨p, hgone, rfl⟩ := Option.map_eq_some_iff.mp hstep
    obtain ⟨threads', rfl⟩ := goneStep_allowed h.parts.2 hallows hgone
    obtain ⟨hwaits, hother, -⟩ := goneStep_ok h.parts.2 h.parts.1 hcomes hgone
    exact ⟨_, _, rfl, h.heap, ⟨h.parts.1, hwaits⟩, hidle hother⟩
  | ready bucketCnt nonzero nodes buckets lro =>
    obtain ⟨lro', hnext, rfl⟩ := Option.map_eq_some_iff.mp hstep
    have hkept := h.parts.2.step hallows hnext
    rw [if_neg (not_lt.mpr hkept.allocated_nonneg)]
    exact ⟨_, _, rfl, h.heap, ⟨h.parts.1, hkept⟩, hidle fun u hu => next_threads hnext hu⟩

/-- **Every event** that meets the condition. -/
theorem event (h : s.Kept) {e : LroEvent} (hallowed : Allowed (.ok s) e)
    (hnext : (lroLife c).next (.ok s) e = some r) : ∃ s', r = .ok s' ∧ s'.Kept := by
  cases e with
  | unmInitLro caller plan =>
    obtain ⟨⟨hrunning, -⟩, hinit⟩ := Option.ite_none_right_eq_some.mp hnext
    exact h.initLro hrunning hinit
  | unmCleanupLro =>
    obtain ⟨hrunning, hclean⟩ := Option.ite_none_right_eq_some.mp hnext
    obtain ⟨parts, heap, hrun, hkept⟩ := h.cleanupLro hrunning
    rw [hrun] at hclean
    exact ⟨_, (Option.some.inj hclean).symm, hkept⟩
  | nxLroSetState val refused => exact ⟨_, (Option.some.inj hnext).symm, h.setState⟩
  | thread a =>
    obtain ⟨hcomes, hstep⟩ := Option.ite_none_right_eq_some.mp hnext
    obtain ⟨q, hq, rfl⟩ := Option.map_eq_some_iff.mp hstep
    obtain ⟨parts, pc, rfl, hkept⟩ := h.thread hallowed hcomes hq
    exact ⟨_, rfl, hkept⟩

theorem sound (h : s.Kept) : Sound (.ok s) := by
  obtain ⟨heap, enabled, parts, running⟩ := s
  refine ⟨h.heap.held, ?_⟩
  cases parts with
  | gone => trivial
  | ready => exact ⟨h.parts.1, h.parts.2.owned⟩

/-- If all is well after an event, it met the condition. -/
theorem needs (h : s.Kept) {e : LroEvent} (hnext : (lroLife c).next (.ok s) e = some r)
    (hsound : Sound r) : Allowed (.ok s) e := by
  cases e with
  | unmInitLro => trivial
  | unmCleanupLro => trivial
  | nxLroSetState => trivial
  | thread a =>
    obtain ⟨hcomes, hstep⟩ := Option.ite_none_right_eq_some.mp hnext
    obtain ⟨q, hq, rfl⟩ := Option.map_eq_some_iff.mp hstep
    obtain ⟨heap, enabled, parts, running⟩ := s
    cases parts with
    | gone made bucketCnt threads =>
      obtain ⟨p, hgone, rfl⟩ := Option.map_eq_some_iff.mp hq
      cases p with
      | error crash => exact hsound.elim
      | ok threads' => exact (goneStep_ok h.parts.2 h.parts.1 hcomes hgone).2.2
    | ready bucketCnt nonzero nodes buckets lro =>
      obtain ⟨lro', hnext', rfl⟩ := Option.map_eq_some_iff.mp hq
      split at hsound
      · exact hsound.elim
      · exact h.parts.2.needs hnext' hsound.2.2

theorem init : newAdapter.Kept :=
  ⟨Pool.holds_nil, ⟨nofun, fun _ => trivial⟩, fun _ _ => rfl⟩

end Kept
end LroAdapter

/-- **The life of LRO**: throughout a run the kernel does not stop, nothing that was had from it
is lost or given back twice, and each node has one owner, just if the threads meet the condition
of the pool's machine while LRO is initialized, and do not look for its buckets while it is
not. -/
theorem lroLife_iff {c : LroConfig} {l : List LroEvent} {s : Except LroCrash LroAdapter}
    (h : (lroLife c).run (.ok newAdapter) l = some s) :
    (∀ u, (lroLife c).Visits (.ok newAdapter) l u → Sound u) ↔
      ∀ u e, (lroLife c).Takes (.ok newAdapter) l u e → Allowed u e := by
  refine Machine.visits_iff_takes (K := fun u => ∃ s, u = .ok s ∧ s.Kept) ?_ ?_ ?_
    ⟨newAdapter, rfl, .init⟩ h
  · rintro u ⟨s, rfl, hs⟩
    exact hs.sound
  · rintro u e r ⟨s, rfl, hs⟩ hallowed hnext
    exact hs.event hallowed hnext
  · rintro u e r ⟨s, rfl, hs⟩ hnext hsound
    exact hs.needs hnext hsound

/-- A firmware that says how many flows it has, on a host of 64 bits. -/
def lroConfig : LroConfig := ⟨⟨4, 0, 300⟩, 96, 24⟩

/-- A flow is set up and another one's request is refused.  The firmware is reset, and there is
no memory for the second node; a packet comes before the adapter is suspended and resumed. -/
def resetRun : List LroEvent :=
  [.unmInitLro (.unmNicProbe true) ⟨some 2, fun _ => true, true⟩,
    .thread (.initiate 0 (portKey 1024) 7), .thread (.step 0 false), .thread (.step 0 false),
    .thread (.initiate 1 (portKey 1025) 7), .thread (.step 1 false), .thread (.step 0 false),
    .thread (.step 1 false), .thread (.step 1 true), .thread (.step 1 false),
    .thread (.step 1 false), .unmCleanupLro,
    .unmInitLro .netxenNicAttachAllPorts ⟨some 2, fun i => decide (i < 1), true⟩,
    .thread (.initiate 0 (portKey 1024) 7), .thread (.step 0 false), .unmCleanupLro,
    .unmInitLro .nxNicAttachFunc ⟨some 2, fun _ => true, true⟩]

/-- What the adapter has from the kernel. -/
def heldBlocks : Except LroCrash LroAdapter → Option (Multiset Block)
  | .ok s => s.heap.held
  | .error _ => none

theorem lroLife_reset : ∃ s, (lroLife lroConfig).run (.ok newAdapter) resetRun = some s ∧
    heldBlocks s = some {⟨10, 48⟩, ⟨9, 96⟩, ⟨8, 96⟩} ∧
      ∀ u, (lroLife lroConfig).Visits (.ok newAdapter) resetRun u → Sound u := by
  have hrun : (((lroLife lroConfig).guard Allowed).run (.ok newAdapter) resetRun).map heldBlocks =
      some (some {⟨10, 48⟩, ⟨9, 96⟩, ⟨8, 96⟩}) := by
    decide +kernel
  obtain ⟨s, hs, hheld⟩ := Option.map_eq_some_iff.mp hrun
  have hs' := Machine.run_of_guard hs
  exact ⟨s, hs', hheld, (lroLife_iff hs').mpr fun _ _ ht => Machine.takes_of_guard hs ht⟩

end Lro
end NxNic

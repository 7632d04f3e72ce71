import Mathlib.Data.Finset.Range
import NxNic.Lib.Machine
import NxNic.Lib.Places
import NxNic.Lro.HashTable

/-! # The entries of the LRO pool

The entries (`lro_entry_t`) of the memory pool are on its free list, linked in a
bucket of the hash table, or held by a thread that runs `nx_initiate_lro`,
`nx_handle_lro_response` or `nx_lro_delete_ctx_lro`.  A step of a thread is one
section under the lock of a bucket or of the pool; where the thread is between two
sections, with what it holds, is its `LroPc`.

`nx_initiate_lro` gives its entry back when the request cannot be sent, whether or
not the entry is still in the table.  Between the insertion and that point another
thread may have deleted it and given it back.

`Owned` is the property of a state: each entry is in one place, and there once, the
counter of the pool is right, and no entry about to be returned is free or linked.
The condition on a step is `StillThere`.  What runs keep under it (`Kept`) says for
each thread what it may hold, and for each bucket lock who has it; `one_owner_iff` adds
that after a step against the condition an entry is about to be returned that is free or
linked, or it is in two places.
-/
namespace NxNic
namespace Lro

/-! ## Threads -/

/-- Where a thread is. -/
inductive LroPc where
  | idle
  | allocating (key : NxHostKey) (ctxId : BitVec 32)
  | inserting (entry : Nat) (key : NxHostKey)
  | sending (entry : Nat) (key : NxHostKey)
  /-- `nx_nic_send_cmd_descs` has failed. -/
  | failed (entry : Nat) (key : NxHostKey)
  /-- Before the call of `nx_mem_pool_free`. -/
  | freeing (entry : Nat)
  | deleting (key : NxHostKey)
  /-- `nx_lro_delete_ctx_lro` before the lock of bucket `i`. -/
  | sweeping (ctxId : BitVec 32) (i : Nat)
  /-- In its inner loop, under that lock. -/
  | visiting (ctxId : BitVec 32) (i : Nat)
  /-- There, before the call of `nx_mem_pool_free`. -/
  | unlinked (ctxId : BitVec 32) (i : Nat) (entry : Nat)

/-- The entries that the thread holds. -/
def LroPc.held : LroPc → List Nat
  | .inserting entry _ => [entry]
  | .freeing entry => [entry]
  | .unlinked _ _ entry => [entry]
  | _ => []

/-- The entry that the thread has put into the table and sends a request for. -/
def LroPc.sent : LroPc → List Nat
  | .sending entry _ => [entry]
  | .failed entry _ => [entry]
  | _ => []

/-- The entry that the thread is about to return to the pool. -/
def LroPc.returns : LroPc → List Nat
  | .freeing entry => [entry]
  | .unlinked _ _ entry => [entry]
  | _ => []

/-- `lro` of the adapter, with the `ctx_id` of each entry and the bucket locks that
`nx_lro_delete_ctx_lro` keeps over more than one step. -/
structure LroState (bucketCnt : Nat) where
  freeList : List Nat
  allocated : Int
  tbl : HashTbl bucketCnt
  ctxIds : Nat → BitVec 32
  locked : Fin bucketCnt → Option Nat
  threads : Nat → LroPc

/-- A thread calls one of the three functions, or takes its next step; `refused` is
what `nx_nic_send_cmd_descs` returns to it. -/
inductive LroAction where
  | initiate (t : Nat) (key : NxHostKey) (ctxId : BitVec 32)
  | response (t : Nat) (key : NxHostKey)
  | deleteCtx (t : Nat) (ctxId : BitVec 32)
  | step (t : Nat) (refused : Bool)

namespace LroState
variable {bucketCnt : Nat} [NeZero bucketCnt] (s : LroState bucketCnt)

def goto (t : Nat) (pc : LroPc) : LroState bucketCnt :=
  { s with threads := Function.update s.threads t pc }

/-- `nx_mem_pool_alloc`. -/
def nxMemPoolAlloc : Option Nat × LroState bucketCnt :=
  match s.freeList with
  | [] => (none, s)
  | entry :: rest => (some entry, { s with freeList := rest, allocated := s.allocated + 1 })

/-- `nx_mem_pool_free`. -/
def nxMemPoolFree (entry : Nat) : LroState bucketCnt :=
  { s with freeList := s.freeList ++ [entry], allocated := s.allocated - 1 }

/-- The lock of the key's bucket can be taken. -/
def Unlocked (key : NxHostKey) : Prop := s.locked (HashTbl.getBucket key) = none

instance (key : NxHostKey) : Decidable (s.Unlocked key) := inferInstanceAs (Decidable (_ = _))

/-- `nx_initiate_lro` up to the call of `nx_hash_tbl_insert`. -/
def allocate (t : Nat) (key : NxHostKey) (ctxId : BitVec 32) : LroState bucketCnt :=
  match s.nxMemPoolAlloc with
  | (none, s) => s.goto t .idle
  | (some entry, s) =>
      { s with
        tbl := { s.tbl with keys := Function.update s.tbl.keys entry key }
        ctxIds := Function.update s.ctxIds entry ctxId
        threads := Function.update s.threads t (.inserting entry key) }

/-- The call of `nx_hash_tbl_insert`. -/
def insert (t : Nat) (entry : Nat) (key : NxHostKey) : LroState bucketCnt :=
  match s.tbl.nxHashTblInsert entry with
  | (.inserted, tbl) => { s.goto t (.sending entry key) with tbl := tbl }
  | (.exists, tbl) => { s.goto t (.freeing entry) with tbl := tbl }

/-- The call of `nx_hash_tbl_delete` of `nx_initiate_lro`, which does not look at
what it returns. -/
def deleteFailed (t : Nat) (entry : Nat) (key : NxHostKey) : LroState bucketCnt :=
  { s.goto t (.freeing entry) with tbl := (s.tbl.nxHashTblDelete key).2 }

/-- The call of `nx_hash_tbl_delete` of `nx_handle_lro_response`. -/
def delete (t : Nat) (key : NxHostKey) : LroState bucketCnt :=
  match s.tbl.nxHashTblDelete key with
  | (some entry, tbl) => { s.goto t (.freeing entry) with tbl := tbl }
  | (none, tbl) => { s.goto t .idle with tbl := tbl }

/-- `nx_lro_delete_ctx_lro` takes the lock of the next bucket. -/
def sweep (t : Nat) (ctxId : BitVec 32) (i : Nat) : Option (LroState bucketCnt) :=
  if h : i < bucketCnt then
    if s.locked ⟨i, h⟩ = none then
      some { s.goto t (.visiting ctxId i) with
        locked := Function.update s.locked ⟨i, h⟩ (some t) }
    else none
  else some (s.goto t .idle)

/-- It unlinks the next entry of the context, or gives the lock back. -/
def visit (t : Nat) (ctxId : BitVec 32) (i : Nat) : Option (LroState bucketCnt) :=
  if h : i < bucketCnt then
    match (s.tbl.buckets ⟨i, h⟩).find? fun entry => decide (s.ctxIds entry = ctxId) with
    | some entry =>
        some { s.goto t (.unlinked ctxId i entry) with
          tbl := s.tbl.setBucket ⟨i, h⟩ ((s.tbl.buckets ⟨i, h⟩).erase entry) }
    | none =>
        some { s.goto t (.sweeping ctxId (i + 1)) with
          locked := Function.update s.locked ⟨i, h⟩ none }
  else none

/-- The next step of a thread. -/
def step (t : Nat) (refused : Bool) : Option (LroState bucketCnt) :=
  match s.threads t with
  | .idle => none
  | .allocating key ctxId => some (s.allocate t key ctxId)
  | .inserting entry key => if s.Unlocked key then some (s.insert t entry key) else none
  | .sending entry key => some (s.goto t (if refused then .failed entry key else .idle))
  | .failed entry key => if s.Unlocked key then some (s.deleteFailed t entry key) else none
  | .freeing entry => some ((s.nxMemPoolFree entry).goto t .idle)
  | .deleting key => if s.Unlocked key then some (s.delete t key) else none
  | .sweeping ctxId i => s.sweep t ctxId i
  | .visiting ctxId i => s.visit t ctxId i
  | .unlinked ctxId i entry => some ((s.nxMemPoolFree entry).goto t (.visiting ctxId i))

/-- A thread that is idle makes a call. -/
def call (t : Nat) (pc : LroPc) : Option (LroState bucketCnt) :=
  match s.threads t with
  | .idle => some (s.goto t pc)
  | _ => none

end LroState

/-- The threads take turns.  The key of a response is an IPv4 key. -/
def lroMachine (bucketCnt : Nat) [NeZero bucketCnt] : Machine (LroState bucketCnt) LroAction where
  next s
    | .initiate t key ctxId => s.call t (.allocating key ctxId)
    | .response t key => s.call t (.deleting { key with ipVersion := nxIpVersionV4 })
    | .deleteCtx t ctxId => s.call t (.sweeping ctxId 0)
    | .step t refused => s.step t refused

/-- After `unm_init_lro`: all entries are free. -/
def initialLro (bucketCnt maxEntries : Nat) : LroState bucketCnt where
  freeList := (List.range maxEntries).reverse
  allocated := 0
  tbl := ⟨fun _ => [], fun _ => ⟨0, fun _ => 0, fun _ => 0, 0, 0⟩⟩
  ctxIds := fun _ => 0
  locked := fun _ => none
  threads := fun _ => .idle

/-! ## Owners -/

/-- Where an entry may be. -/
inductive LroPlace (bucketCnt : Nat) where
  | free
  | bucket (i : Fin bucketCnt)
  | held (t : Nat)

/-- The entries in each place. -/
def entriesIn {bucketCnt : Nat} (freeList : List Nat) (buckets : Fin bucketCnt → List Nat)
    (threads : Nat → LroPc) : LroPlace bucketCnt → List Nat
  | .free => freeList
  | .bucket i => buckets i
  | .held t => (threads t).held

def LroState.entries {bucketCnt : Nat} (s : LroState bucketCnt) : LroPlace bucketCnt → List Nat :=
  entriesIn s.freeList s.tbl.buckets s.threads

section
variable {bucketCnt maxEntries : Nat}

/-- **Every entry has one owner**: it is in one place, and there once; the counter
of the pool is right; and an entry about to be returned is neither free nor linked. -/
structure Owned (maxEntries : Nat) (s : LroState bucketCnt) : Prop where
  places : Places s.entries (Finset.range maxEntries)
  allocated : s.allocated = ((Finset.range maxEntries).filter (· ∉ s.freeList)).card
  returns : ∀ t, ∀ n ∈ (s.threads t).returns, n ∉ s.freeList ∧ ¬ s.tbl.Linked n

/-- The condition on a step: the entry whose request could not be sent is the one
that the table has for its key. -/
def StillThere [NeZero bucketCnt] (s : LroState bucketCnt) : LroAction → Prop
  | .step t _ =>
      match s.threads t with
      | .failed entry key => s.tbl.find key = some entry
      | _ => True
  | _ => True

instance [NeZero bucketCnt] (s : LroState bucketCnt) : DecidablePred (StillThere s) := fun a => by
  unfold StillThere
  split
  · split
    · infer_instance
    · infer_instance
  · infer_instance

/-! ## Moves -/

/-- A thread takes from the free list or puts onto it. -/
theorem places_pool {f f' : List Nat} {b : Fin bucketCnt → List Nat} {th : Nat → LroPc}
    {S : Finset Nat} {t : Nat} {pc : LroPc} (h : Places (entriesIn f b th) S)
    (hperm : (f' ++ pc.held).Perm (f ++ (th t).held)) :
    Places (entriesIn f' b (Function.update th t pc)) S := by
  refine h.move (i := .free) (j := .held t) nofun ?_ fun p hp hp' => ?_
  · simp only [entriesIn, Function.update_self]
    exact hperm
  · cases p with
    | free => exact absurd rfl hp
    | bucket i => rfl
    | held u =>
      have hu : u ≠ t := fun heq => hp' (heq ▸ rfl)
      simp only [entriesIn, Function.update_of_ne hu]

/-- A thread takes from a bucket or puts into it. -/
theorem places_bucket {f l : List Nat} {b : Fin bucketCnt → List Nat} {th : Nat → LroPc}
    {S : Finset Nat} {t : Nat} {pc : LroPc} {i : Fin bucketCnt} (h : Places (entriesIn f b th) S)
    (hperm : (l ++ pc.held).Perm (b i ++ (th t).held)) :
    Places (entriesIn f (Function.update b i l) (Function.update th t pc)) S := by
  refine h.move (i := .bucket i) (j := .held t) nofun ?_ fun p hp hp' => ?_
  · simp only [entriesIn, Function.update_self]
    exact hperm
  · cases p with
    | free => rfl
    | bucket k =>
      have hk : k ≠ i := fun heq => hp (heq ▸ rfl)
      simp only [entriesIn, Function.update_of_ne hk]
    | held u =>
      have hu : u ≠ t := fun heq => hp' (heq ▸ rfl)
      simp only [entriesIn, Function.update_of_ne hu]

/-! ## The invariant -/

/-- The invariant of the runs all of whose steps meet the condition. -/
structure Kept (maxEntries : Nat) (s : LroState bucketCnt) : Prop where
  places : Places s.entries (Finset.range maxEntries)
  counter : s.allocated + s.freeList.length = maxEntries
  sent : ∀ t, ∀ n ∈ (s.threads t).sent, n < maxEntries

/-- What a thread returns, it holds. -/
theorem LroPc.returns_subset {pc : LroPc} {n : Nat} (h : n ∈ pc.returns) : n ∈ pc.held := by
  cases pc with
  | freeing entry => exact h
  | unlinked ctxId i entry => exact h
  | _ => exact absurd h List.not_mem_nil

namespace Kept
variable {s s' : LroState bucketCnt} {t : Nat}

theorem owned (h : Kept maxEntries s) : Owned maxEntries s := by
  refine ⟨h.places, ?_, fun t n hn => ⟨fun hfree => ?_, fun ⟨i, hi⟩ => ?_⟩⟩
  · have hnodup : s.freeList.Nodup := h.places.nodup .free
    have hfree : (Finset.range maxEntries).filter (· ∈ s.freeList) = s.freeList.toFinset := by
      ext n
      rw [Finset.mem_filter, List.mem_toFinset]
      exact and_iff_right_of_imp fun hn => h.places.mem (i := .free) hn
    have hcard := Finset.card_filter_add_card_filter_not (s := Finset.range maxEntries)
      (fun n => n ∈ s.freeList)
    rw [hfree, List.toFinset_card_of_nodup hnodup, Finset.card_range] at hcard
    have := h.counter
    omega
  · exact nomatch h.places.unique (i := .held t) (j := .free) (LroPc.returns_subset hn) hfree
  · exact nomatch h.places.unique (i := .held t) (j := .bucket i) (LroPc.returns_subset hn) hi

/-- The entry that a thread sends a request for, after a step of a thread. -/
theorem sent_update (h : Kept maxEntries s) {pc : LroPc} (hpc : ∀ n ∈ pc.sent, n < maxEntries) :
    ∀ u, ∀ n ∈ (Function.update s.threads t pc u).sent, n < maxEntries :=
  (Function.forall_update_iff s.threads fun _ pc => ∀ n ∈ pc.sent, n < maxEntries).mpr
    ⟨hpc, fun u _ => h.sent u⟩

/-- A thread goes on and takes no entry. -/
theorem goto (h : Kept maxEntries s) {p : LroPc} (hheld : p.held = (s.threads t).held)
    (hsent : ∀ n ∈ p.sent, n < maxEntries) {keys : Nat → NxHostKey} {ctxIds : Nat → BitVec 32}
    {locked : Fin bucketCnt → Option Nat} :
    Kept maxEntries
      { s.goto t p with
        tbl := { s.tbl with keys := keys }
        ctxIds := ctxIds
        locked := locked } :=
  ⟨places_pool h.places (hheld ▸ List.Perm.refl _), h.counter, h.sent_update hsent⟩

/-- An entry is returned to the pool. -/
theorem free (h : Kept maxEntries s) {entry : Nat} {p : LroPc}
    (hheld : (s.threads t).held = [entry]) (hpc : p.held = []) (hsent : p.sent = []) :
    Kept maxEntries ((s.nxMemPoolFree entry).goto t p) := by
  refine ⟨places_pool h.places ?_, ?_, h.sent_update fun n hn => ?_⟩
  · show ((s.freeList ++ [entry]) ++ p.held).Perm (s.freeList ++ (s.threads t).held)
    rw [hheld, hpc, List.append_nil]
  · have := h.counter
    show s.allocated - 1 + ((s.freeList ++ [entry]).length : Int) = maxEntries
    rw [List.length_append, List.length_singleton]
    omega
  · rw [hsent] at hn
    exact absurd hn List.not_mem_nil

/-- An entry is unlinked, and the thread holds it. -/
theorem unlink (h : Kept maxEntries s) {i : Fin bucketCnt} {entry : Nat} {p : LroPc}
    (hmem : entry ∈ s.tbl.buckets i) (hheld : (s.threads t).held = []) (hpc : p.held = [entry])
    (hsent : p.sent = []) :
    Kept maxEntries
      { s.goto t p with tbl := s.tbl.setBucket i ((s.tbl.buckets i).erase entry) } := by
  refine ⟨places_bucket h.places ?_, h.counter, h.sent_update fun n hn => ?_⟩
  · rw [hheld, hpc, List.append_nil]
    exact (List.perm_append_singleton ..).trans (List.perm_cons_erase hmem).symm
  · rw [hsent] at hn
    exact absurd hn List.not_mem_nil

theorem allocate (h : Kept maxEntries s) {key : NxHostKey} {ctxId : BitVec 32}
    (hpc : s.threads t = .allocating key ctxId) : Kept maxEntries (s.allocate t key ctxId) := by
  have hheld : (s.threads t).held = [] := by rw [hpc]; rfl
  unfold LroState.allocate LroState.nxMemPoolAlloc
  cases hfree : s.freeList with
  | nil => exact h.goto (p := .idle) hheld.symm nofun
  | cons entry rest =>
    refine ⟨places_pool h.places ?_, ?_, h.sent_update nofun⟩
    · rw [hheld, hfree, List.append_nil]
      exact List.perm_append_singleton ..
    · have := h.counter
      rw [hfree, List.length_cons] at this
      show s.allocated + 1 + (rest.length : Int) = maxEntries
      omega

theorem sweep (h : Kept maxEntries s) {ctxId : BitVec 32} {i : Nat}
    (hpc : s.threads t = .sweeping ctxId i) (hstep : s.sweep t ctxId i = some s') :
    Kept maxEntries s' := by
  have hheld : (s.threads t).held = [] := by rw [hpc]; rfl
  unfold LroState.sweep at hstep
  split at hstep
  · split at hstep
    · exact Option.some.inj hstep ▸ h.goto (p := .visiting ctxId i) hheld.symm nofun
    · cases hstep
  · exact Option.some.inj hstep ▸ h.goto (p := .idle) hheld.symm nofun

theorem visit (h : Kept maxEntries s) {ctxId : BitVec 32} {i : Nat}
    (hpc : s.threads t = .visiting ctxId i) (hstep : s.visit t ctxId i = some s') :
    Kept maxEntries s' := by
  have hheld : (s.threads t).held = [] := by rw [hpc]; rfl
  unfold LroState.visit at hstep
  split at hstep
  · split at hstep
    · rename_i entry hfind
      exact Option.some.inj hstep ▸
        h.unlink (p := .unlinked ctxId i entry) (List.mem_of_find?_eq_some hfind) hheld rfl rfl
    · exact Option.some.inj hstep ▸ h.goto (p := .sweeping ctxId (i + 1)) hheld.symm nofun
  · cases hstep

theorem call (h : Kept maxEntries s) {pc : LroPc} (hheld : pc.held = []) (hsent : pc.sent = [])
    (hstep : s.call t pc = some s') : Kept maxEntries s' := by
  unfold LroState.call at hstep
  split at hstep
  · rename_i hpc
    refine Option.some.inj hstep ▸ h.goto ?_ fun n hn => ?_
    · rw [hpc, hheld]
      rfl
    · rw [hsent] at hn
      exact absurd hn List.not_mem_nil
  · cases hstep

variable [NeZero bucketCnt]

theorem insert (h : Kept maxEntries s) {entry : Nat} {key : NxHostKey}
    (hpc : s.threads t = .inserting entry key) : Kept maxEntries (s.insert t entry key) := by
  have hheld : (s.threads t).held = [entry] := by rw [hpc]; rfl
  have hmem : entry ∈ (s.threads t).held := hheld ▸ List.mem_singleton_self entry
  have hlt : entry < maxEntries := Finset.mem_range.mp (h.places.mem (i := .held t) hmem)
  unfold LroState.insert
  rcases s.tbl.nxHashTblInsert_cases entry with ⟨n, -, heq⟩ | ⟨-, l, hperm, heq⟩
  · rw [heq]
    exact h.goto (p := .freeing entry) hheld.symm nofun
  · rw [heq]
    refine ⟨places_bucket h.places ?_, h.counter, h.sent_update fun n hn => ?_⟩
    · rw [hheld]
      show (l ++ []).Perm _
      rw [List.append_nil]
      exact hperm.trans (List.perm_append_singleton ..).symm
    · exact List.mem_singleton.mp hn ▸ hlt

theorem delete (h : Kept maxEntries s) {key : NxHostKey} (hpc : s.threads t = .deleting key) :
    Kept maxEntries (s.delete t key) := by
  have hheld : (s.threads t).held = [] := by rw [hpc]; rfl
  unfold LroState.delete
  rcases s.tbl.nxHashTblDelete_cases key with ⟨-, heq⟩ | ⟨n, -, hmem, heq⟩
  · rw [heq]
    exact h.goto (p := .idle) hheld.symm nofun
  · rw [heq]
    exact h.unlink (p := .freeing n) hmem hheld rfl rfl

/-- The entry that could not be announced is the one unlinked. -/
theorem deleteFailed (h : Kept maxEntries s) {entry : Nat} {key : NxHostKey}
    (hpc : s.threads t = .failed entry key) (hfind : s.tbl.find key = some entry) :
    Kept maxEntries (s.deleteFailed t entry key) := by
  have hheld : (s.threads t).held = [] := by rw [hpc]; rfl
  unfold LroState.deleteFailed
  rcases s.tbl.nxHashTblDelete_cases key with ⟨hnone, -⟩ | ⟨n, hsome, hmem, heq⟩
  · exact nomatch hnone.symm.trans hfind
  · obtain rfl := Option.some.inj (hsome.symm.trans hfind)
    rw [heq]
    exact h.unlink (p := .freeing n) hmem hheld rfl rfl

/-- **Every step** that meets the condition. -/
theorem step (h : Kept maxEntries s) {a : LroAction} (hcond : StillThere s a)
    (hstep : (lroMachine bucketCnt).next s a = some s') : Kept maxEntries s' := by
  cases a with
  | initiate t key ctxId => exact h.call rfl rfl hstep
  | response t key => exact h.call rfl rfl hstep
  | deleteCtx t ctxId => exact h.call rfl rfl hstep
  | step t refused =>
    replace hstep : s.step t refused = some s' := hstep
    unfold LroState.step at hstep
    cases hpc : s.threads t with
    | idle =>
      rw [hpc] at hstep
      cases hstep
    | allocating key ctxId =>
      rw [hpc] at hstep
      exact Option.some.inj hstep ▸ h.allocate hpc
    | inserting entry key =>
      simp only [hpc, Option.ite_none_right_eq_some] at hstep
      exact Option.some.inj hstep.2 ▸ h.insert hpc
    | sending entry key =>
      rw [hpc] at hstep
      have hlt : ∀ n ∈ [entry], n < maxEntries := fun n hn => h.sent t n (hpc ▸ hn)
      refine Option.some.inj hstep ▸ h.goto ?_ ?_
      · rw [hpc]
        split <;> rfl
      · split
        · exact hlt
        · exact nofun
    | failed entry key =>
      simp only [hpc, Option.ite_none_right_eq_some] at hstep
      simp only [StillThere, hpc] at hcond
      exact Option.some.inj hstep.2 ▸ h.deleteFailed hpc hcond
    | freeing entry =>
      rw [hpc] at hstep
      exact Option.some.inj hstep ▸ h.free (by rw [hpc]; rfl) rfl rfl
    | deleting key =>
      simp only [hpc, Option.ite_none_right_eq_some] at hstep
      exact Option.some.inj hstep.2 ▸ h.delete hpc
    | sweeping ctxId i =>
      rw [hpc] at hstep
      exact h.sweep hpc hstep
    | visiting ctxId i =>
      rw [hpc] at hstep
      exact h.visit hpc hstep
    | unlinked ctxId i entry =>
      rw [hpc] at hstep
      exact Option.some.inj hstep ▸ h.free (by rw [hpc]; rfl) rfl rfl

/-- If the table has no entry for the key, the one that is returned is elsewhere. -/
theorem twice (h : Kept maxEntries s) {entry : Nat} {key : NxHostKey}
    (hpc : s.threads t = .failed entry key) (hnone : s.tbl.find key = none) :
    ¬ Owned maxEntries (s.deleteFailed t entry key) := by
  intro h'
  have hlt : entry < maxEntries := h.sent t entry (by rw [hpc]; exact List.mem_singleton_self _)
  obtain ⟨p, hp⟩ := (h.places.mem_iff entry).mp (Finset.mem_range.mpr hlt)
  have hheld : entry ∈ (s.deleteFailed t entry key).entries (.held t) := by
    show entry ∈ (Function.update s.threads t (.freeing entry) t).held
    rw [Function.update_self]
    exact List.mem_singleton_self entry
  have hdel : s.tbl.nxHashTblDelete key = (none, s.tbl) := by rw [HashTbl.nxHashTblDelete, hnone]
  have hp' : p ≠ .held t ∧ entry ∈ (s.deleteFailed t entry key).entries p := by
    cases p with
    | free => exact ⟨nofun, hp⟩
    | bucket i =>
      refine ⟨nofun, ?_⟩
      show entry ∈ (s.tbl.nxHashTblDelete key).2.buckets i
      rw [hdel]
      exact hp
    | held u =>
      replace hp : entry ∈ (s.threads u).held := hp
      have hu : u ≠ t := by
        rintro rfl
        rw [hpc] at hp
        exact absurd hp List.not_mem_nil
      refine ⟨fun heq => hu (LroPlace.held.inj heq), ?_⟩
      show entry ∈ (Function.update s.threads t _ u).held
      rwa [Function.update_of_ne hu]
  exact hp'.1 (h'.places.unique hp'.2 hheld)

/-- If it has another one, that one is nobody's from then on. -/
theorem lost (h : Kept maxEntries s) {entry n : Nat} {key : NxHostKey}
    (hother : n ≠ entry) (hfind : s.tbl.find key = some n) :
    ¬ Owned maxEntries (s.deleteFailed t entry key) := by
  intro h'
  have hmem : n ∈ s.entries (.bucket (HashTbl.getBucket key)) := (s.tbl.find_eq_some hfind).1
  obtain ⟨p, hp⟩ := (h'.places.mem_iff n).mp (h.places.mem hmem)
  have hdel : s.tbl.nxHashTblDelete key = (some n, s.tbl.setBucket (HashTbl.getBucket key)
      ((s.tbl.buckets (HashTbl.getBucket key)).erase n)) := by
    rw [HashTbl.nxHashTblDelete, hfind]
  cases p with
  | free => exact nomatch h.places.unique (i := .free) hp hmem
  | bucket i =>
    replace hp : n ∈ (s.tbl.nxHashTblDelete key).2.buckets i := hp
    rw [hdel] at hp
    replace hp : n ∈ Function.update s.tbl.buckets _ _ i := hp
    by_cases hi : i = HashTbl.getBucket key
    · subst hi
      rw [Function.update_self] at hp
      exact (h.places.nodup (.bucket _)).not_mem_erase hp
    · rw [Function.update_of_ne hi] at hp
      exact hi (LroPlace.bucket.inj (h.places.unique (i := .bucket i) hp hmem))
  | held u =>
    replace hp : n ∈ (Function.update s.threads t (.freeing entry) u).held := hp
    by_cases hu : u = t
    · subst hu
      rw [Function.update_self] at hp
      exact hother (List.mem_singleton.mp hp)
    · rw [Function.update_of_ne hu] at hp
      exact nomatch h.places.unique (i := .held u) hp hmem

/-- An entry that is returned is still in the table if all entries have one owner
afterwards. -/
theorem needs (h : Kept maxEntries s) {a : LroAction}
    (hstep : (lroMachine bucketCnt).next s a = some s') (h' : Owned maxEntries s') :
    StillThere s a := by
  cases a with
  | initiate t key ctxId => trivial
  | response t key => trivial
  | deleteCtx t ctxId => trivial
  | step t refused =>
    replace hstep : s.step t refused = some s' := hstep
    unfold LroState.step at hstep
    show match s.threads t with
      | .failed entry key => s.tbl.find key = some entry
      | _ => True
    split
    · rename_i entry key hpc
      simp only [hpc, Option.ite_none_right_eq_some] at hstep
      obtain rfl := Option.some.inj hstep.2
      cases hfind : s.tbl.find key with
      | none => exact absurd h' (h.twice hpc hfind)
      | some n =>
        by_contra hother
        exact h.lost (fun heq => hother (congrArg some heq)) hfind h'
    · trivial

omit [NeZero bucketCnt] in
theorem init : Kept maxEntries (initialLro bucketCnt maxEntries) := by
  have hfree : ∀ {p n}, n ∈ (initialLro bucketCnt maxEntries).entries p →
      p = .free ∧ n < maxEntries := by
    intro p n hn
    cases p with
    | free => exact ⟨rfl, List.mem_range.mp (List.mem_reverse.mp hn)⟩
    | bucket i => exact absurd hn List.not_mem_nil
    | held t => exact absurd hn List.not_mem_nil
  refine ⟨⟨fun p => ?_, fun n => ?_, fun hp hq => ?_⟩, ?_, fun t n hn => ?_⟩
  · cases p with
    | free => exact List.nodup_reverse.mpr List.nodup_range
    | bucket i => exact List.nodup_nil
    | held t => exact List.nodup_nil
  · rw [Finset.mem_range]
    constructor
    · exact fun hn => ⟨.free, List.mem_reverse.mpr (List.mem_range.mpr hn)⟩
    · exact fun ⟨p, hp⟩ => (hfree hp).2
  · exact (hfree hp).1.trans (hfree hq).1.symm
  · show (0 : Int) + ((List.range maxEntries).reverse.length : Int) = maxEntries
    rw [List.length_reverse, List.length_range, Int.zero_add]
  · exact absurd hn List.not_mem_nil

end Kept

/-- **Every entry has one owner** throughout a run just if each entry whose request
could not be sent is still the one that the table has for its key.  The runs are those
of any number of threads, contexts and entries, in any order of the locked sections. -/
theorem one_owner_iff [NeZero bucketCnt] {l : List LroAction} {s : LroState bucketCnt}
    (h : (lroMachine bucketCnt).run (initialLro bucketCnt maxEntries) l = some s) :
    (∀ u, (lroMachine bucketCnt).Visits (initialLro bucketCnt maxEntries) l u →
        Owned maxEntries u) ↔
      ∀ u a, (lroMachine bucketCnt).Takes (initialLro bucketCnt maxEntries) l u a →
        StillThere u a :=
  Machine.visits_iff_takes (K := Kept maxEntries) (fun _ hK => hK.owned)
    (fun _ _ _ hK hP hn => hK.step hP hn) (fun _ _ _ hK hn hI => hK.needs hn hI) Kept.init h

end

/-- A flow to a web server. -/
def portKey (sport : BitVec 16) : NxHostKey :=
  ⟨nxIpVersionV4, fun _ => 0xc0a80001, fun _ => 0x0a000001, sport, 80⟩

/-- One flow is set up and deleted by a response; another one's request is refused. -/
def refusedRun : List LroAction :=
  [.initiate 0 (portKey 1024) 7, .step 0 false, .step 0 false, .initiate 1 (portKey 1025) 7,
    .step 1 false, .step 0 false, .step 1 false, .step 1 true, .response 0 (portKey 1024),
    .step 1 false, .step 0 false, .step 1 false, .step 0 false]

/-- The run meets the condition: the refused request's entry is still the table's, and all
entries are free in the end. -/
theorem one_owner_iff_refused :
    ∃ s, (lroMachine 4).run (initialLro 4 3) refusedRun = some s ∧ s.freeList = [0, 1, 2] ∧
      ∀ u, (lroMachine 4).Visits (initialLro 4 3) refusedRun u → Owned 3 u := by
  have hrun : (((lroMachine 4).guard StillThere).run (initialLro 4 3) refusedRun).map
      (fun s => s.freeList) = some [0, 1, 2] := by
    decide +kernel
  obtain ⟨s, hs, hfree⟩ := Option.map_eq_some_iff.mp hrun
  have hs' := Machine.run_of_guard hs
  exact ⟨s, hs', hfree, (one_owner_iff hs').mpr fun _ _ ht => Machine.takes_of_guard hs ht⟩

/-- The entry is freed with its context, and again when its request is refused. -/
def twiceRun : List LroAction :=
  [.initiate 0 (portKey 1024) 7, .step 0 false, .step 0 false, .deleteCtx 1 7, .step 1 false,
    .step 1 false, .step 1 false, .step 1 false, .step 1 false, .step 0 true, .step 0 false,
    .step 0 false]

theorem freed_twice :
    ∃ s, (lroMachine 1).run (initialLro 1 1) twiceRun = some s ∧ ¬ Owned 1 s ∧
      s.freeList = [0, 0] ∧ s.allocated = -1 := by
  have hrun : ((lroMachine 1).run (initialLro 1 1) twiceRun).map
      (fun s => (s.freeList, s.allocated)) = some ([0, 0], -1) := by
    decide +kernel
  obtain ⟨s, hs, h⟩ := Option.map_eq_some_iff.mp hrun
  obtain ⟨hfree, halloc⟩ := Prod.mk.inj h
  refine ⟨s, hs, fun hgood => ?_, hfree, halloc⟩
  have hnodup : s.freeList.Nodup := hgood.places.nodup .free
  rw [hfree] at hnodup
  exact absurd hnodup (by decide)

end Lro
end NxNic

import NxNic.Tx.Commands

/-! # The pending queue

Commands that find the ring full wait in blocks: full blocks on `cmdList`, and
the block being filled in `currBlock`.  Read in that order the blocks hold one
sequence of commands (`PendingCmdDescs.queued`), and every operation acts on it
as a queue: `queueAll` appends to its end, `procLoop` takes from its front.

A request makes at most one new block necessary, because it has at most as many
commands as a block has places (`Fits`); so once
`nx_make_available_pend_cmd_desc` has succeeded no command of the request is
dropped.

The ring that the commands go to, and the runs, are in `NxNic.Tx.Fifo`.
-/
namespace NxNic
namespace Tx

/-! ## The contents of the queue -/

/-- The commands in the queue, the oldest first. -/
def PendingCmdDescs.queued (p : PendingCmdDescs) : List CmdDescType0 :=
  p.cmdList.flatMap PendingCmdDescBlock.descs ++
    p.currBlock.toList.flatMap PendingCmdDescBlock.descs

/-- The queue's invariant: the blocks on `cmdList` are full, the current block
is neither full nor empty, and `cnt` counts the commands. -/
structure PendingCmdDescs.Valid (p : PendingCmdDescs) : Prop where
  full : ∀ b ∈ p.cmdList, b.cnt = maxPendingDescBlockSize
  curr : ∀ b, p.currBlock = some b → 0 < b.cnt ∧ b.cnt < maxPendingDescBlockSize
  count : p.cnt = p.queued.length

theorem PendingCmdDescs.valid_empty : ({} : PendingCmdDescs).Valid :=
  ⟨by simp, by simp, rfl⟩

@[simp] theorem PendingCmdDescBlock.length_descs (b : PendingCmdDescBlock) :
    b.descs.length = b.cnt := by
  simp [PendingCmdDescBlock.descs]

@[simp] theorem PendingCmdDescBlock.cnt_push (b : PendingCmdDescBlock) (d : CmdDescType0) :
    (b.push d).cnt = b.cnt + 1 := rfl

theorem PendingCmdDescBlock.descs_push (b : PendingCmdDescBlock) (d : CmdDescType0) :
    (b.push d).descs = b.descs ++ [d] := by
  have hold : (List.range b.cnt).map (Function.update b.cmd b.cnt d)
      = (List.range b.cnt).map b.cmd := by
    apply List.map_congr_left
    intro i hi
    exact Function.update_of_ne (Nat.ne_of_lt (List.mem_range.mp hi)) ..
  simp only [PendingCmdDescBlock.descs, PendingCmdDescBlock.push, List.range_succ,
    List.map_append, List.map_cons, List.map_nil, Function.update_self, hold]

/-- Changing the free list changes nothing of the queue. -/
theorem PendingCmdDescs.Valid.withFree {p : PendingCmdDescs} (hp : p.Valid)
    (l : List PendingCmdDescBlock) : ({ p with freeList := l } : PendingCmdDescs).Valid :=
  ⟨hp.full, hp.curr, hp.count⟩

/-! ## Putting commands in -/

/-- What the block that takes a command adds to the queue: the block is the
current one, or a cleared one when there is none. -/
theorem putPendCmdDesc_spec {p : PendingCmdDescs} (hp : p.Valid) {b : PendingCmdDescBlock}
    (d : CmdDescType0) (hlt : b.cnt < maxPendingDescBlockSize)
    (hb : p.currBlock.toList.flatMap PendingCmdDescBlock.descs = b.descs) :
    (putPendCmdDesc p b d).Valid ∧ (putPendCmdDesc p b d).queued = p.queued ++ [d] := by
  have hcount := hp.count
  by_cases hfull : b.cnt + 1 = maxPendingDescBlockSize
  -- the command fills the block, which goes to the end of `cmdList`
  · have hput : putPendCmdDesc p b d = { p with
        cmdList := p.cmdList ++ [b.push d]
        currBlock := none
        cnt := p.cnt + 1 } := by
      simp [putPendCmdDesc, hfull]
    have hq : (putPendCmdDesc p b d).queued = p.queued ++ [d] := by
      simp [hput, PendingCmdDescs.queued, hb, PendingCmdDescBlock.descs_push]
    have hcnt : (putPendCmdDesc p b d).cnt = p.cnt + 1 := by rw [hput]
    refine ⟨⟨?_, by simp [hput], by simp [hq, hcnt, hcount]⟩, hq⟩
    intro c hc
    rw [hput] at hc
    rcases List.mem_append.mp hc with hc | hc
    · exact hp.full c hc
    · rw [List.mem_singleton.mp hc]
      exact hfull
  -- the block keeps a free place and becomes the current one
  · have hput : putPendCmdDesc p b d =
        { p with currBlock := some (b.push d), cnt := p.cnt + 1 } := by
      simp [putPendCmdDesc, hfull]
    have hq : (putPendCmdDesc p b d).queued = p.queued ++ [d] := by
      simp [hput, PendingCmdDescs.queued, hb, PendingCmdDescBlock.descs_push]
    have hcnt : (putPendCmdDesc p b d).cnt = p.cnt + 1 := by rw [hput]
    refine ⟨⟨by rw [hput]; exact hp.full, ?_, by simp [hq, hcnt, hcount]⟩, hq⟩
    intro c hc
    rw [hput] at hc
    obtain rfl := Option.some.inj hc
    simp only [PendingCmdDescBlock.cnt_push]
    omega

/-- There is a place for `k` more commands: in the current block alone, or with
a free block. -/
def PendingCmdDescs.Fits (p : PendingCmdDescs) (k : Nat) : Prop :=
  k = 0 ∨ (∃ b, p.currBlock = some b ∧ b.cnt + k ≤ maxPendingDescBlockSize) ∨ p.freeList ≠ []

theorem putPendCmdDesc_currBlock (p : PendingCmdDescs) (b : PendingCmdDescBlock)
    (d : CmdDescType0) :
    (putPendCmdDesc p b d).currBlock =
      if b.cnt + 1 = maxPendingDescBlockSize then none else some (b.push d) := by
  by_cases h : b.cnt + 1 = maxPendingDescBlockSize <;> simp [putPendCmdDesc, h]

theorem putPendCmdDesc_freeList (p : PendingCmdDescs) (b : PendingCmdDescBlock)
    (d : CmdDescType0) : (putPendCmdDesc p b d).freeList = p.freeList := by
  by_cases h : b.cnt + 1 = maxPendingDescBlockSize <;> simp [putPendCmdDesc, h]

/-- A block with places for `k + 1` commands leaves room for `k`. -/
theorem putPendCmdDesc_fits {p : PendingCmdDescs} {b : PendingCmdDescBlock} (d : CmdDescType0)
    {k : Nat} (h : b.cnt + (k + 1) ≤ maxPendingDescBlockSize) :
    (putPendCmdDesc p b d).Fits k := by
  by_cases hk : k = 0
  · exact Or.inl hk
  · refine Or.inr (Or.inl ⟨b.push d, ?_, ?_⟩)
    · rw [putPendCmdDesc_currBlock, if_neg (by omega)]
    · rw [PendingCmdDescBlock.cnt_push]
      omega

/-- One command is appended, nothing is dropped, and the room left is one less. -/
theorem nxQueuePendCmdDesc_spec {p : PendingCmdDescs} (hp : p.Valid) (d : CmdDescType0)
    {k : Nat} (hfit : p.Fits (k + 1)) (hk : k + 1 ≤ maxPendingDescBlockSize) :
    (nxQueuePendCmdDesc p d).1 = [] ∧ (nxQueuePendCmdDesc p d).2.Valid ∧
      (nxQueuePendCmdDesc p d).2.queued = p.queued ++ [d] ∧
      (nxQueuePendCmdDesc p d).2.Fits k := by
  cases hcurr : p.currBlock with
  | some b =>
    have hput : nxQueuePendCmdDesc p d = ([], putPendCmdDesc p b d) := by
      simp [nxQueuePendCmdDesc, hcurr]
    rw [hput]
    obtain ⟨hv, hq⟩ := putPendCmdDesc_spec hp d (hp.curr b hcurr).2 (by simp [hcurr])
    refine ⟨rfl, hv, hq, ?_⟩
    rcases hfit with h0 | ⟨c, hc, hle⟩ | hfree
    · omega
    · obtain rfl := Option.some.inj (hcurr.symm.trans hc)
      exact putPendCmdDesc_fits d hle
    · exact Or.inr (Or.inr (by rw [putPendCmdDesc_freeList]; exact hfree))
  | none =>
    -- without a current block the place promised by `Fits` is a free block's
    have hfree : p.freeList ≠ [] := by
      rcases hfit with h0 | ⟨c, hc, -⟩ | hfree
      · omega
      · rw [hcurr] at hc
        cases hc
      · exact hfree
    obtain ⟨b, rest, hb⟩ := List.exists_cons_of_ne_nil hfree
    have hput : nxQueuePendCmdDesc p d =
        ([], putPendCmdDesc { p with freeList := rest } { b with cnt := 0 } d) := by
      simp [nxQueuePendCmdDesc, hcurr, hb]
    rw [hput]
    obtain ⟨hv, hq⟩ := putPendCmdDesc_spec (hp.withFree rest) (b := { b with cnt := 0 }) d
      (by simp [maxPendingDescBlockSize]) (by simp [hcurr, PendingCmdDescBlock.descs])
    exact ⟨rfl, hv, hq, putPendCmdDesc_fits d (by simpa using hk)⟩

/-- A request for which there is room is appended whole. -/
theorem queueAll_spec (descs : List CmdDescType0) {p : PendingCmdDescs} (hp : p.Valid)
    (hfit : p.Fits descs.length) (hk : descs.length ≤ maxPendingDescBlockSize) :
    (queueAll descs p).1 = [] ∧ (queueAll descs p).2.Valid ∧
      (queueAll descs p).2.queued = p.queued ++ descs := by
  induction descs generalizing p with
  | nil => exact ⟨rfl, hp, (List.append_nil _).symm⟩
  | cons d rest ih =>
    obtain ⟨h1, hv, hq, hf⟩ := nxQueuePendCmdDesc_spec hp d hfit hk
    obtain ⟨h2, hv2, hq2⟩ := ih hv hf (by simp only [List.length_cons] at hk; omega)
    refine ⟨?_, hv2, ?_⟩
    · simp only [queueAll, h1, h2, List.append_nil]
    · simp only [queueAll, hq2, hq, List.append_assoc, List.singleton_append]

/-- `nx_make_available_pend_cmd_desc` makes room for the request and leaves the
queue's contents alone. -/
theorem nxMakeAvailable_spec {p q : PendingCmdDescs} (hp : p.Valid) {k : Nat}
    {alloc : Option PendingCmdDescBlock} (hk : k ≤ maxPendingDescBlockSize)
    (h : nxMakeAvailablePendCmdDesc p k alloc = some q) :
    q.Valid ∧ q.Fits k ∧ q.queued = p.queued := by
  unfold nxMakeAvailablePendCmdDesc at h
  split at h
  · rename_i hcurr
    obtain rfl := Option.some.inj h
    obtain ⟨b, hb, hle⟩ := Option.any_eq_true_iff_get .. |>.mp hcurr |> fun ⟨h1, h2⟩ =>
      (⟨_, (Option.some_get h1).symm, of_decide_eq_true h2⟩ :
        ∃ b, p.currBlock = some b ∧ b.cnt ≤ maxPendingDescBlockSize - k)
    exact ⟨hp, Or.inr (Or.inl ⟨b, hb, by omega⟩), rfl⟩
  · split at h
    · rename_i hfree
      obtain rfl := Option.some.inj h
      exact ⟨hp, Or.inr (Or.inr hfree), rfl⟩
    · obtain ⟨b, -, rfl⟩ := Option.map_eq_some_iff.mp h
      exact ⟨hp.withFree _, Or.inr (Or.inr (by simp [freePendCmdDescBlock])), rfl⟩

/-! ## Taking commands out -/

/-- A dequeued block is the front of the queue, and it is not empty. -/
theorem unmDequeue_spec {p q : PendingCmdDescs} (hp : p.Valid) {length : Nat}
    {b : PendingCmdDescBlock} (h : unmDequeuePendingCmdDesc p length = some (b, q)) :
    q.Valid ∧ p.queued = b.descs ++ q.queued ∧ 0 < b.cnt ∧ b.cnt ≤ length ∧
      q.blockCount + 1 = p.blockCount := by
  have hcount := hp.count
  unfold unmDequeuePendingCmdDesc at h
  split at h
  · rename_i c rest hlist
    split at h
    · cases h
    · rename_i hlen
      obtain ⟨rfl, rfl⟩ := Prod.mk.inj (Option.some.inj h)
      -- the first block of `cmdList`, which is full
      have hfull : c.cnt = maxPendingDescBlockSize := hp.full c (by simp [hlist])
      have hq : p.queued = c.descs ++
          ({ p with cmdList := rest, cnt := p.cnt - c.cnt } : PendingCmdDescs).queued := by
        simp [PendingCmdDescs.queued, hlist]
      refine ⟨⟨?_, hp.curr, ?_⟩, hq, ?_, by omega, ?_⟩
      · intro e he
        exact hp.full e (by simp [hlist, he])
      · rw [hq, List.length_append, PendingCmdDescBlock.length_descs] at hcount
        simp only
        omega
      · rw [hfull]
        decide
      · simp [PendingCmdDescs.blockCount, hlist]
        omega
  · rename_i c hlist hcurr
    split at h
    · cases h
    · rename_i hlen
      obtain ⟨rfl, rfl⟩ := Prod.mk.inj (Option.some.inj h)
      -- no full block is left: the current one, as far as it is filled
      have hq : p.queued = c.descs ++
          ({ p with currBlock := none, cnt := p.cnt - c.cnt } : PendingCmdDescs).queued := by
        simp [PendingCmdDescs.queued, hlist, hcurr]
      refine ⟨⟨hp.full, by simp, ?_⟩, hq, (hp.curr c hcurr).1, by omega, ?_⟩
      · rw [hq, List.length_append, PendingCmdDescBlock.length_descs] at hcount
        simp only
        omega
      · simp [PendingCmdDescs.blockCount, hcurr]
  · cases h

/-- The command descriptors among a function's effects, in order. -/
def placedBy (es : List Effect) : List CmdDescType0 :=
  es.filterMap fun
    | .desc _ d => some d
    | _ => none

theorem placedBy_append (es fs : List Effect) :
    placedBy (es ++ fs) = placedBy es ++ placedBy fs := List.filterMap_append

theorem placedBy_postDescs (a : Adapter) (cmd : BitVec 8) (descs : List CmdDescType0)
    (producer : Nat) : placedBy (postDescs a cmd descs producer).1 = descs := by
  induction descs generalizing producer with
  | nil => rfl
  | cons d rest ih =>
    show d :: placedBy (postDescs a cmd rest _).1 = d :: rest
    rw [ih]

/-- What the loop puts on the ring is what it takes off the front of the queue. -/
theorem procLoop_spec (a : Adapter) (fuel : Nat) {v : ProcLocals} (hv : v.pend.Valid) :
    (procLoop a fuel v).2.pend.Valid ∧
      v.pend.queued = placedBy (procLoop a fuel v).1 ++ (procLoop a fuel v).2.pend.queued := by
  induction fuel generalizing v with
  | zero => exact ⟨hv, rfl⟩
  | succ fuel ih =>
    unfold procLoop
    split
    · exact ⟨hv, rfl⟩
    · split
      · exact ⟨hv, rfl⟩
      · rename_i b p hdeq
        obtain ⟨hp, hq, -⟩ := unmDequeue_spec hv hdeq
        obtain ⟨h1, h2⟩ := ih (v := ⟨(postDescs a pegnetRequest b.descs v.producer).2,
          v.moved + b.cnt, v.length - b.cnt, freePendCmdDescBlock p b⟩) (hp.withFree _)
        refine ⟨h1, ?_⟩
        rw [placedBy_append, placedBy_postDescs, List.append_assoc, ← h2, hq]
        rfl

/-- The number of blocks is fuel enough: with more of it the loop does the same. -/
theorem procLoop_fuel (a : Adapter) (fuel : Nat) {v : ProcLocals} (hv : v.pend.Valid)
    (hf : v.pend.blockCount ≤ fuel) : procLoop a (fuel + 1) v = procLoop a fuel v := by
  induction fuel generalizing v with
  | zero =>
    have hc : v.pend.blockCount = 0 := by omega
    have hnone : unmDequeuePendingCmdDesc v.pend v.length = none := by
      cases hdeq : unmDequeuePendingCmdDesc v.pend v.length with
      | none => rfl
      | some r =>
        have := (unmDequeue_spec hv hdeq).2.2.2.2
        omega
    simp [procLoop, hnone]
  | succ fuel ih =>
    rw [procLoop, procLoop]
    split
    · rfl
    · split
      · rfl
      · rename_i b p hdeq
        obtain ⟨hp, -, -, -, hcount⟩ := unmDequeue_spec hv hdeq
        have hfree : (freePendCmdDescBlock p b).blockCount = p.blockCount := rfl
        simp only
        rw [ih (v := ⟨(postDescs a pegnetRequest b.descs v.producer).2, v.moved + b.cnt,
          v.length - b.cnt, freePendCmdDescBlock p b⟩) (hp.withFree _) (by simp only; omega)]

end Tx
end NxNic

import NxNic.Lib.Ledger
import NxNic.Tx.Plans

/-! # What a slot of `cmd_buf_arr` holds

A slot that carries a packet holds the packet and the DMA mappings of its
fragments.  Both are resources of the same kind (`Resource`): the effects of a
call acquire and release them, and `reapSlot` releases what its slot holds.

The lemmas say what each call does to `cmd_buf_arr` and to the ledger of either
resource: a queued packet ends up in its slot with its mappings; a packet one of
whose mappings fails is freed and its mappings undone, but the slot keeps the
packet's name.
-/
namespace NxNic
namespace Tx

/-! ## Stores to `cmd_buf_arr` -/

/-- Slot `s` holds `b` before the effects and `c` after them; they store to no
other slot. -/
def Rewrites (s : Nat) (b c : UnmCmdBuffer) (es : List Effect) : Prop :=
  ∀ a : Adapter, a.cmdBufArr s = b →
    (a.execAll es).cmdBufArr = Function.update a.cmdBufArr s c

/-- The effect leaves `cmd_buf_arr` alone. -/
def Effect.KeepsBuf : Effect → Prop
  | .buf _ _ => False
  | _ => True

theorem exec_cmdBufArr {e : Effect} (h : e.KeepsBuf) (a : Adapter) :
    (a.exec e).cmdBufArr = a.cmdBufArr := by
  cases e with
  | buf s b => exact absurd h id
  | copy off src len => rw [Adapter.exec, Adapter.setCmdConsumer_cmdBufArr]
  | _ => rfl

/-- What each effect leaves as it is, a list of them does. -/
theorem execAll_keeps {β : Type} (f : Adapter → β) {es : List Effect}
    (h : ∀ e ∈ es, ∀ a, f (a.exec e) = f a) (a : Adapter) : f (a.execAll es) = f a := by
  induction es generalizing a with
  | nil => rfl
  | cons e es ih =>
    rw [Adapter.execAll_cons, ih (fun e he => h e (List.mem_cons_of_mem _ he)),
      h e List.mem_cons_self]

theorem execAll_cmdBufArr {es : List Effect} (h : ∀ e ∈ es, e.KeepsBuf) (a : Adapter) :
    (a.execAll es).cmdBufArr = a.cmdBufArr :=
  execAll_keeps Adapter.cmdBufArr (fun e he => exec_cmdBufArr (h e he)) a

variable {s : Nat} {b c d : UnmCmdBuffer} {es fs : List Effect}

theorem Rewrites.append (h1 : Rewrites s b c es) (h2 : Rewrites s c d fs) :
    Rewrites s b d (es ++ fs) := by
  intro a ha
  rw [Adapter.execAll_append, h2 _ (by rw [h1 a ha, Function.update_self]), h1 a ha,
    Function.update_idem]

theorem Rewrites.keep (h : ∀ e ∈ es, e.KeepsBuf) : Rewrites s b b es := by
  intro a ha
  rw [execAll_cmdBufArr h a, ← ha, Function.update_eq_self]

theorem Rewrites.buf : Rewrites s b c [.buf s c] := fun _ _ => rfl

/-! ## The two resources -/

/-- A resource that slots hold: how an effect acquires or releases it, what a
slot holds of it, and the law of completions. -/
structure Resource (β : Type) [DecidableEq β] where
  entry : Effect → Option (Entry β)
  held : UnmCmdBuffer → Multiset β
  /-- A slot without a packet holds nothing. -/
  held_none : ∀ b, b.skb = none → held b = 0
  /-- A completed slot releases what it holds. -/
  reap : ∀ slot b m, (b.skb.isSome → 1 ≤ b.fragCount.toNat) →
    Ledger.settle (m + held b) ((reapSlot slot b).filterMap entry) = some m

/-- The resource's entries among the effects. -/
def Resource.ledger {β : Type} [DecidableEq β] (r : Resource β) (es : List Effect) :
    List (Entry β) := es.filterMap r.entry

theorem Resource.ledger_append {β : Type} [DecidableEq β] (r : Resource β) (es fs : List Effect) :
    r.ledger (es ++ fs) = r.ledger es ++ r.ledger fs := List.filterMap_append

/-- The first `k` entries of `fragArray`. -/
def UnmCmdBuffer.entries (b : UnmCmdBuffer) (k : Nat) : Multiset UnmSkbFrag :=
  ((List.range k).map b.fragArray : List UnmSkbFrag)

theorem UnmCmdBuffer.entries_succ (b : UnmCmdBuffer) (k : Nat) :
    b.entries (k + 1) = b.entries k + {b.fragArray k} := by
  simp [UnmCmdBuffer.entries, List.range_succ, ← Multiset.coe_add]

def skbEntry : Effect → Option (Entry Nat)
  | .kfreeSkb skb => some (.release skb)
  | _ => none

def dmaEntry : Effect → Option (Entry UnmSkbFrag)
  | .map dma len => some (.acquire ⟨dma, len⟩)
  | .unmap dma len => some (.release ⟨dma, len⟩)
  | _ => none

/-- A list of unmappings, as entries of a ledger. -/
theorem filterMap_unmap (xs : List UnmSkbFrag) :
    (xs.map fun f => Effect.unmap f.dma f.length).filterMap dmaEntry = xs.map .release := by
  induction xs with
  | nil => rfl
  | cons f xs ih =>
    rw [List.map_cons, List.map_cons, ← ih]
    rfl

theorem filterMap_skbEntry_unmap (xs : List UnmSkbFrag) :
    (xs.map fun f => Effect.unmap f.dma f.length).filterMap skbEntry = [] := by
  rw [List.filterMap_map]
  exact List.filterMap_eq_nil_iff.mpr fun _ _ => rfl

/-- What `reapSlot` unmaps, as a list of entries of `fragArray`. -/
theorem reapSlot_some {slot skb : Nat} {b : UnmCmdBuffer} (h : b.skb = some skb) :
    reapSlot slot b =
      (((List.range (max 1 b.fragCount.toNat)).map b.fragArray).map
          fun f => Effect.unmap f.dma f.length) ++
        [.kfreeSkb skb, .buf slot { b with skb := none }] := by
  rw [reapSlot, h, List.map_map]
  rfl

/-- The packets. -/
def skbs : Resource Nat where
  entry := skbEntry
  held b := (b.skb.toList : List Nat)
  held_none b h := by rw [h]; rfl
  reap slot b m _ := by
    cases hskb : b.skb with
    | none => simp [reapSlot, hskb]
    | some skb =>
      rw [reapSlot_some hskb, List.filterMap_append, filterMap_skbEntry_unmap]
      exact Ledger.settle_releases m [skb]

/-- The DMA mappings of packets. -/
def mappings : Resource UnmSkbFrag where
  entry := dmaEntry
  held b := if b.skb.isSome then b.entries b.fragCount.toNat else 0
  held_none b h := by rw [h]; rfl
  reap slot b m hfrag := by
    cases hskb : b.skb with
    | none => simp [reapSlot, hskb]
    | some skb =>
      have hmax : max 1 b.fragCount.toNat = b.fragCount.toNat :=
        Nat.max_eq_right (hfrag (by rw [hskb]; rfl))
      rw [reapSlot_some hskb, List.filterMap_append, filterMap_unmap, hmax]
      exact Ledger.settle_append_of (Ledger.settle_releases m _) rfl

/-! ## The loop over the fragments -/

/-- Effects that neither store to `cmd_buf_arr` nor touch a resource. -/
def Effect.Plain : Effect → Prop
  | .buf _ _ | .kfreeSkb _ | .map _ _ | .unmap _ _ => False
  | _ => True

theorem Effect.Plain.keepsBuf {e : Effect} (h : e.Plain) : e.KeepsBuf := by
  cases e with
  | buf slot b => exact h
  | _ => trivial

theorem skbs_ledger_plain (h : ∀ e ∈ es, e.Plain) : skbs.ledger es = [] := by
  refine List.filterMap_eq_nil_iff.mpr fun e he => ?_
  cases e <;> first | rfl | exact absurd (h _ he) id

theorem mappings_ledger_plain (h : ∀ e ∈ es, e.Plain) : mappings.ledger es = [] := by
  refine List.filterMap_eq_nil_iff.mpr fun e he => ?_
  cases e <;> first | rfl | exact absurd (h _ he) id

/-- The clearing of a descriptor. -/
theorem plain_clear {p : Prop} [Decidable p] {slot : Nat} {d : CmdDescType0} :
    ∀ e ∈ (if p then [Effect.desc slot d] else []), e.Plain := by
  intro e he
  split at he
  · rw [List.mem_singleton.mp he]
    trivial
  · cases he

@[simp] theorem UnmCmdBuffer.setFrag_skb (b : UnmCmdBuffer) (i : Nat) (f : UnmSkbFrag) :
    (b.setFrag i f).skb = b.skb := rfl

@[simp] theorem UnmCmdBuffer.setFrag_fragCount (b : UnmCmdBuffer) (i : Nat) (f : UnmSkbFrag) :
    (b.setFrag i f).fragCount = b.fragCount := rfl

/-- Recording fragment `i` leaves the earlier entries alone. -/
theorem UnmCmdBuffer.entries_setFrag (b : UnmCmdBuffer) (i : Nat) (f : UnmSkbFrag) :
    (b.setFrag i f).entries (i + 1) = f ::ₘ b.entries i := by
  have hold : (b.setFrag i f).entries i = b.entries i := by
    simp only [UnmCmdBuffer.entries, Multiset.coe_eq_coe]
    refine List.Perm.of_eq (List.map_congr_left fun j hj => ?_)
    exact Function.update_of_ne (Nat.ne_of_lt (List.mem_range.mp hj)) ..
  have hnew : (b.setFrag i f).fragArray i = f := Function.update_self ..
  rw [UnmCmdBuffer.entries_succ, hold, hnew, ← Multiset.singleton_add, add_comm]

/-- One mapping made: its entry in the ledger, its record in the slot. -/
theorem mapOne_ledger (saved slot i len : Nat) (dma : BitVec 64) (b : UnmCmdBuffer)
    (x : CmdDescType0) (m : Multiset UnmSkbFrag) :
    Ledger.settle (m + b.entries i) (mappings.ledger
        [.map dma len, .buf saved (b.setFrag i ⟨dma, len⟩), .desc slot x]) =
      some (m + (b.setFrag i ⟨dma, len⟩).entries (i + 1)) := by
  rw [UnmCmdBuffer.entries_setFrag, Multiset.add_cons]
  rfl

theorem mapOne_rewrites {saved slot i len : Nat} {dma : BitVec 64} {b : UnmCmdBuffer}
    {x : CmdDescType0} :
    Rewrites saved b (b.setFrag i ⟨dma, len⟩)
      [.map dma len, .buf saved (b.setFrag i ⟨dma, len⟩), .desc slot x] :=
  fun _ _ => rfl

/-- The undoing of the mappings made so far. -/
theorem clean_ledger (b : UnmCmdBuffer) {i : Nat} (hi : 1 ≤ i) (m : Multiset UnmSkbFrag) :
    Ledger.settle (m + b.entries i) (mappings.ledger (cleanTxDmaMapping b i)) = some m := by
  have hclean : cleanTxDmaMapping b i =
      ((List.range i).map b.fragArray).map fun f => Effect.unmap f.dma f.length := by
    rw [cleanTxDmaMapping, Nat.max_eq_right hi, List.map_map]
    rfl
  rw [Resource.ledger, hclean]
  show Ledger.settle _ (List.filterMap dmaEntry _) = _
  rw [filterMap_unmap]
  exact Ledger.settle_releases m _

theorem clean_keepsBuf (b : UnmCmdBuffer) (i : Nat) :
    ∀ e ∈ cleanTxDmaMapping b i, e.KeepsBuf := by
  intro e he
  obtain ⟨k, -, rfl⟩ := List.mem_map.mp he
  trivial

theorem clean_skbs (b : UnmCmdBuffer) (i : Nat) : skbs.ledger (cleanTxDmaMapping b i) = [] := by
  refine List.filterMap_eq_nil_iff.mpr fun e he => ?_
  obtain ⟨k, -, rfl⟩ := List.mem_map.mp he
  rfl

/-- The packet and the number of fragments a slot is for. -/
def UnmCmdBuffer.Same (b c : UnmCmdBuffer) : Prop := c.skb = b.skb ∧ c.fragCount = b.fragCount

theorem mapFrags_skbs (io : XmitIo) (n saved : Nat) (frags : List Nat) (i : Nat)
    (v : XmitLocals) : skbs.ledger (mapFrags io n saved frags i v).1 = [] := by
  induction frags generalizing i v with
  | nil => rfl
  | cons len rest ih =>
    unfold mapFrags
    simp only
    split
    · rw [Resource.ledger_append, skbs_ledger_plain plain_clear, clean_skbs]
      rfl
    · rw [Resource.ledger_append, Resource.ledger_append, skbs_ledger_plain plain_clear, ih]
      rfl

/-- Every fragment is mapped: the slot ends up with all of them. -/
theorem mapFrags_of_mapped (io : XmitIo) (n saved : Nat) (frags : List Nat) (i : Nat)
    (v : XmitLocals) (h : ∀ j < frags.length, (io.mapPage (i + j)).isSome = true) :
    ∃ x, (mapFrags io n saved frags i v).2 = some x ∧ v.pbuf.Same x.pbuf ∧
      Rewrites saved v.pbuf x.pbuf (mapFrags io n saved frags i v).1 ∧
      ∀ m, Ledger.settle (m + v.pbuf.entries i)
          (mappings.ledger (mapFrags io n saved frags i v).1) =
        some (m + x.pbuf.entries (i + frags.length)) := by
  induction frags generalizing i v with
  | nil =>
    exact ⟨v, rfl, ⟨rfl, rfl⟩, Rewrites.keep (fun e he => absurd he List.not_mem_nil),
      fun m => rfl⟩
  | cons len rest ih =>
    -- fragment `i` is the first of those left, and it gets an address
    obtain ⟨dma, hdma⟩ := Option.isSome_iff_exists.mp (h 0 (by simp))
    rw [Nat.add_zero] at hdma
    have hpbuf : (if v.k % 4 = 0 then v.nextDesc n else v).pbuf = v.pbuf := by
      split <;> rfl
    unfold mapFrags
    simp only [hdma]
    generalize (if v.k % 4 = 0 then v.nextDesc n else v) = w at hpbuf ⊢
    obtain ⟨x, hx, hsame, hrw, hset⟩ := ih (i + 1) (w.putFrag i len dma) (fun j hj => by
      rw [Nat.add_assoc, Nat.add_comm 1 j]
      exact h (j + 1) (by simpa using hj))
    have hput : (w.putFrag i len dma).pbuf = v.pbuf.setFrag i ⟨dma, len⟩ := by
      rw [← hpbuf]
      rfl
    rw [hput] at hsame hrw hset ⊢
    refine ⟨x, hx, hsame, ?_, fun m => ?_⟩
    · exact ((Rewrites.keep fun e he => (plain_clear e he).keepsBuf).append
        mapOne_rewrites).append hrw
    · rw [Resource.ledger_append, Resource.ledger_append, mappings_ledger_plain plain_clear,
        List.nil_append, List.length_cons, ← Nat.add_assoc, Nat.add_right_comm]
      exact Ledger.settle_append_of (mapOne_ledger ..) (hset m)

/-- A fragment is not mapped: every mapping is undone, and the slot keeps the
packet's name. -/
theorem mapFrags_of_unmapped (io : XmitIo) (n saved : Nat) (frags : List Nat) (i : Nat)
    (v : XmitLocals) (hi : 1 ≤ i)
    (h : ¬ ∀ j < frags.length, (io.mapPage (i + j)).isSome = true) :
    (mapFrags io n saved frags i v).2 = none ∧
      (∃ b, v.pbuf.Same b ∧ Rewrites saved v.pbuf b (mapFrags io n saved frags i v).1) ∧
      ∀ m, Ledger.settle (m + v.pbuf.entries i)
          (mappings.ledger (mapFrags io n saved frags i v).1) = some m := by
  induction frags generalizing i v with
  | nil => exact absurd (fun j hj => absurd hj (Nat.not_lt_zero j)) h
  | cons len rest ih =>
    have hpbuf : (if v.k % 4 = 0 then v.nextDesc n else v).pbuf = v.pbuf := by
      split <;> rfl
    unfold mapFrags
    simp only
    generalize (if v.k % 4 = 0 then v.nextDesc n else v) = w at hpbuf ⊢
    cases hdma : io.mapPage i with
    | none =>
      -- nothing is stored, and fragments `0`, …, `i - 1` are unmapped
      refine ⟨rfl, ⟨v.pbuf, ⟨rfl, rfl⟩, ?_⟩, fun m => ?_⟩
      · refine Rewrites.keep fun e he => ?_
        rcases List.mem_append.mp he with he | he
        · exact (plain_clear e he).keepsBuf
        · exact clean_keepsBuf _ _ e he
      · rw [Resource.ledger_append, mappings_ledger_plain plain_clear, List.nil_append, hpbuf]
        exact clean_ledger _ hi m
    | some dma =>
      obtain ⟨hres, ⟨b, hsame, hrw⟩, hset⟩ := ih (i + 1) (w.putFrag i len dma) (by omega)
        fun hall => h fun j hj => by
          cases j with
          | zero => simp [hdma]
          | succ j =>
            have := hall j (by simpa using hj)
            rwa [Nat.add_assoc, Nat.add_comm 1 j] at this
      have hput : (w.putFrag i len dma).pbuf = v.pbuf.setFrag i ⟨dma, len⟩ := by
        rw [← hpbuf]
        rfl
      rw [hput] at hsame hrw hset
      simp only [hput]
      refine ⟨hres, ⟨b, hsame, ?_⟩, fun m => ?_⟩
      · exact ((Rewrites.keep fun e he => (plain_clear e he).keepsBuf).append
          mapOne_rewrites).append hrw
      · rw [Resource.ledger_append, Resource.ledger_append,
          mappings_ledger_plain plain_clear, List.nil_append]
        exact Ledger.settle_append_of (mapOne_ledger ..) (hset m)

/-! ## Queueing a packet -/

/-- How far a list of effects moves `cmdProducer`. -/
def producedBy (es : List Effect) : Nat := (es.map Effect.produced).sum

@[simp] theorem producedBy_append (es fs : List Effect) :
    producedBy (es ++ fs) = producedBy es + producedBy fs := by
  simp [producedBy]

theorem producedBy_eq_zero (h : ∀ e ∈ es, e.produced = 0) : producedBy es = 0 := by
  refine List.sum_eq_zero fun k hk => ?_
  obtain ⟨e, he, rfl⟩ := List.mem_map.mp hk
  exact h e he

theorem clean_produced (b : UnmCmdBuffer) (i : Nat) : producedBy (cleanTxDmaMapping b i) = 0 := by
  refine producedBy_eq_zero fun e he => ?_
  obtain ⟨k, -, rfl⟩ := List.mem_map.mp he
  rfl

theorem mapFrags_produced (io : XmitIo) (n saved : Nat) (frags : List Nat) (i : Nat)
    (v : XmitLocals) : producedBy (mapFrags io n saved frags i v).1 = 0 := by
  have hclear : ∀ (p : Prop) [Decidable p] slot d,
      producedBy (if p then [Effect.desc slot d] else []) = 0 := by
    intro p _ slot d
    split <;> rfl
  induction frags generalizing i v with
  | nil => rfl
  | cons len rest ih =>
    unfold mapFrags
    simp only
    split
    · rw [producedBy_append, hclear, clean_produced]
    · rw [producedBy_append, producedBy_append, hclear, ih]
      rfl

/-- What pulling bytes off the front leaves of the fragments. -/
theorem length_eatFrags_le (eat : Nat) (frags : List Nat) :
    (eatFrags eat frags).length ≤ frags.length := by
  induction frags generalizing eat with
  | nil => exact Nat.le_refl 0
  | cons size rest ih =>
    unfold eatFrags
    split
    · exact Nat.le_succ_of_le (ih _)
    · exact Nat.succ_le_succ (ih _)

/-- Pulling the first `k` fragments leaves at most the others. -/
theorem length_eatFrags_sum_take (k : Nat) (frags : List Nat) :
    (eatFrags (frags.take k).sum frags).length ≤ frags.length - k := by
  induction frags generalizing k with
  | nil => simp [eatFrags]
  | cons size rest ih =>
    cases k with
    | zero => exact length_eatFrags_le _ _
    | succ k =>
      rw [List.take_succ_cons, List.sum_cons, eatFrags, if_pos (Nat.le_add_right _ _),
        Nat.add_sub_cancel_left, List.length_cons, Nat.succ_sub_succ]
      exact ih k

/-- A packet that gets past the linearization has few enough fragments. -/
theorem fragCount_le_of_linearize {io : XmitIo} {t : Nat} {skb x : Skb}
    (h : linearize io t skb = some x) : x.fragCount ≤ nxNicMaxSgPerTx := by
  have hmax : nxNicMaxSgPerTx = 14 := rfl
  unfold linearize at h
  simp only at h
  split at h
  · rename_i hex
    obtain rfl := Option.some.inj h
    simp only [Skb.fragCount]
    omega
  · split at h
    · obtain rfl := Option.some.inj h
      -- the fragments pulled are as many as there are too many
      have hle := length_eatFrags_sum_take
        (1 + skb.frags.length - (nxNicMaxSgPerTx - t)) skb.frags
      simp only [Skb.fragCount, pskbPullTail]
      omega
    · cases h

theorem xmitFinish_plain (n : Nat) (skb : Skb) (t saved : Nat) (v : XmitLocals) :
    ∀ e ∈ xmitFinish n skb t saved v, e.Plain := by
  have hcopy : ∀ dst hdrLen, ∀ e ∈ copyFirst skb dst hdrLen ++ copyMore skb dst hdrLen,
      e.Plain := by
    intro dst hdrLen e he
    unfold copyFirst copyMore at he
    split at he <;> simp only [List.mem_append, List.mem_cons, List.not_mem_nil, or_false] at he
    · rcases he with (rfl | rfl | rfl | rfl) | rfl <;> trivial
    · rcases he with rfl | rfl <;> trivial
  have htag : ∀ d, ∀ e ∈ storeTag skb saved d, e.Plain := fun d e he => by
    unfold storeTag at he
    exact plain_clear e he
  intro e he
  unfold xmitFinish at he
  simp only [List.cons_append, List.mem_cons, List.mem_append, List.not_mem_nil, or_false] at he
  rcases he with rfl | he | rfl | rfl
  · trivial
  · unfold nxNicTsoCopyHeaders at he
    simp only at he
    split at he
    · split at he <;> simp only [List.mem_append] at he
      · rcases he with (he | he) | he
        · exact htag _ e he
        · exact hcopy _ _ e (List.mem_append.mpr (Or.inl he))
        · exact hcopy _ _ e (List.mem_append.mpr (Or.inr he))
      · rcases he with he | he
        · exact htag _ e he
        · exact hcopy _ _ e (List.mem_append.mpr (Or.inl he))
    · exact htag _ e he
  · trivial
  · trivial

theorem producedBy_xmitFinish (n : Nat) (skb : Skb) (t saved : Nat) (v : XmitLocals) :
    0 < producedBy (xmitFinish n skb t saved v) := by
  unfold xmitFinish
  simp only [producedBy, List.cons_append, List.map_cons, List.map_append, List.sum_cons,
    List.sum_append, List.map_nil, Effect.produced]
  omega

/-- The slot of a packet at the start of the loop: the packet with its linear
part recorded. -/
theorem xmitLocals_pbuf (dev : NetDev) (skb : Skb) (a : Adapter) (dma : BitVec 64) :
    (xmitLocals dev skb a dma).pbuf =
      (xmitPbuf dev skb (a.cmdBufArr a.cmdProducer)).setFrag 0 ⟨dma, skb.len - skb.dataLen⟩ := rfl

/-- The first stores of a call: the slot names the packet. -/
theorem xmitStart_rewrites {s : Nat} {b c : UnmCmdBuffer} {d : CmdDescType0} :
    Rewrites s b c [.desc s d, .buf s c] := fun _ _ => rfl

theorem xmitStart_ledger (s len : Nat) (dma : BitVec 64) (b : UnmCmdBuffer) (d x : CmdDescType0)
    (m : Multiset UnmSkbFrag) :
    Ledger.settle m (mappings.ledger ([.desc s d, .buf s b] ++
        [.map dma len, .buf s (b.setFrag 0 ⟨dma, len⟩), .desc s x])) =
      some (m + (b.setFrag 0 ⟨dma, len⟩).entries 1) := by
  have hzero : m = m + b.entries 0 := by simp [UnmCmdBuffer.entries]
  rw [Resource.ledger_append]
  conv_lhs => rw [hzero]
  exact mapOne_ledger ..

/-- The loop over the fragments of a packet that is mapped. -/
theorem Mapped.loop {io : XmitIo} {skb : Skb} (h : Mapped io skb) (n saved : Nat)
    (v : XmitLocals) :
    ∃ x, (mapFrags io n saved skb.frags 1 v).2 = some x ∧ v.pbuf.Same x.pbuf ∧
      Rewrites saved v.pbuf x.pbuf (mapFrags io n saved skb.frags 1 v).1 ∧
      ∀ m, Ledger.settle (m + v.pbuf.entries 1)
          (mappings.ledger (mapFrags io n saved skb.frags 1 v).1) =
        some (m + x.pbuf.entries (1 + skb.frags.length)) := by
  refine mapFrags_of_mapped io n saved skb.frags 1 v fun j hj => ?_
  rw [Nat.add_comm]
  exact h.2 j hj

/-- **A packet all of whose parts are mapped** is in its slot with its mappings. -/
theorem xmitQueue_of_mapped (dev : NetDev) {io : XmitIo} {skb : Skb} (a : Adapter)
    (h : Mapped io skb) (hcount : skb.fragCount < 256) :
    ∃ b, b.skb = some skb.id ∧ 1 ≤ b.fragCount.toNat ∧
      Rewrites a.cmdProducer (a.cmdBufArr a.cmdProducer) b (xmitQueue dev io skb a) ∧
      skbs.ledger (xmitQueue dev io skb a) = [] ∧
      (∀ m, Ledger.settle m (mappings.ledger (xmitQueue dev io skb a)) =
        some (m + mappings.held b)) ∧
      0 < producedBy (xmitQueue dev io skb a) := by
  obtain ⟨dma, hdma⟩ := Option.isSome_iff_exists.mp h.1
  obtain ⟨x, hx, hsame, hrw, hset⟩ := h.loop a.maxTxDescCount a.cmdProducer
    (xmitLocals dev skb a dma)
  have hskbs := mapFrags_skbs io a.maxTxDescCount a.cmdProducer skb.frags 1
    (xmitLocals dev skb a dma)
  have hfinish := xmitFinish_plain a.maxTxDescCount skb (tagged dev skb) a.cmdProducer x
  have hfrags : x.pbuf.fragCount.toNat = skb.fragCount := by
    rw [hsame.2]
    exact Nat.mod_eq_of_lt hcount
  have hname : x.pbuf.skb = some skb.id := hsame.1
  unfold xmitQueue
  simp only [hdma, hx]
  rw [xmitLocals_pbuf] at hrw hset ⊢
  refine ⟨x.pbuf, hname, by rw [hfrags, Skb.fragCount]; omega, ?_, ?_, fun m => ?_, ?_⟩
  · exact ((xmitStart_rewrites.append mapOne_rewrites).append hrw).append
      (Rewrites.keep fun e he => (hfinish e he).keepsBuf)
  · rw [Resource.ledger_append, Resource.ledger_append, Resource.ledger_append, hskbs,
      skbs_ledger_plain hfinish]
    rfl
  · have hheld : mappings.held x.pbuf = x.pbuf.entries (1 + skb.frags.length) := by
      show (if x.pbuf.skb.isSome then x.pbuf.entries x.pbuf.fragCount.toNat else 0) = _
      rw [hname, hfrags]
      rfl
    rw [Resource.ledger_append, Resource.ledger_append, mappings_ledger_plain hfinish,
      List.append_nil, hheld]
    exact Ledger.settle_append_of (xmitStart_ledger ..) (hset m)
  · have := producedBy_xmitFinish a.maxTxDescCount skb (tagged dev skb) a.cmdProducer x
    rw [producedBy_append]
    omega

/-- **A packet one of whose parts is not mapped** is freed, its mappings are
undone, and its slot keeps its name. -/
theorem xmitQueue_of_unmapped (dev : NetDev) {io : XmitIo} {skb : Skb} (a : Adapter)
    (h : ¬ Mapped io skb) :
    (∃ b, b.skb = some skb.id ∧
      Rewrites a.cmdProducer (a.cmdBufArr a.cmdProducer) b (xmitQueue dev io skb a)) ∧
      skbs.ledger (xmitQueue dev io skb a) = [.release skb.id] ∧
      (∀ m, Ledger.settle m (mappings.ledger (xmitQueue dev io skb a)) = some m) ∧
      producedBy (xmitQueue dev io skb a) = 0 := by
  unfold xmitQueue
  cases hdma : io.mapSkb with
  | none =>
    -- the slot was given the packet's name before the mapping was tried
    exact ⟨⟨xmitPbuf dev skb (a.cmdBufArr a.cmdProducer), rfl, fun _ _ => rfl⟩, rfl, fun m => rfl,
      rfl⟩
  | some dma =>
    obtain ⟨hres, ⟨b, hsame, hrw⟩, hset⟩ := mapFrags_of_unmapped io a.maxTxDescCount
      a.cmdProducer skb.frags 1 (xmitLocals dev skb a dma) (Nat.le_refl 1) (fun hall =>
        h ⟨by rw [hdma]; rfl, fun i hi => by rw [Nat.add_comm]; exact hall i hi⟩)
    have hskbs := mapFrags_skbs io a.maxTxDescCount a.cmdProducer skb.frags 1
      (xmitLocals dev skb a dma)
    have hprod := mapFrags_produced io a.maxTxDescCount a.cmdProducer skb.frags 1
      (xmitLocals dev skb a dma)
    simp only [hres]
    rw [xmitLocals_pbuf] at hrw hset ⊢
    refine ⟨⟨b, hsame.1, ?_⟩, ?_, fun m => ?_, ?_⟩
    · exact ((xmitStart_rewrites.append mapOne_rewrites).append hrw).append
        (Rewrites.keep fun e he => by rw [List.mem_singleton.mp he]; trivial)
    · rw [Resource.ledger_append, Resource.ledger_append, Resource.ledger_append, hskbs]
      rfl
    · rw [Resource.ledger_append, Resource.ledger_append]
      exact Ledger.settle_append_of (Ledger.settle_append_of (xmitStart_ledger ..) (hset m)) rfl
    · rw [producedBy_append, producedBy_append, producedBy_append, hprod]
      rfl

end Tx
end NxNic

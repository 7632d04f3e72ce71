import NxNic.Rx.RingSteps

/-! # The machine, ring by ring

Each step of the machine is, for each receive ring, a sequence of steps of that
ring (`Follows`): a message that returns several buffers is one step for each
(`handle_follows`).  The handler of a message puts just the buffers that the
message returns on the list of its status ring, unless the message is
misdirected: then it takes none of them, and all of them are lost.

So what the ring steps keep holds in every reachable state of the machine
(`ReachableRx.ring_induction`).
-/
namespace NxNic
namespace Rx
variable {cfg : RxCfg} {st st' : RxState}

/-- In each ring, steps of the ring lead from the one state to the other. -/
def Follows (cfg : RxCfg) (st st' : RxState) : Prop := ∀ r,
  Relation.ReflTransGen (RingStep (cfg.ringSize r) (cfg.dmaSize r)) (st.view r) (st'.view r)

/-- The invariant, of all rings. -/
def Inv (cfg : RxCfg) (st : RxState) : Prop := ∀ r,
  RingInv (cfg.ringSize r) (cfg.dmaSize r) (st.view r)

theorem Follows.trans {st'' : RxState} (h : Follows cfg st st') (h' : Follows cfg st' st'') :
    Follows cfg st st'' := fun r => (h r).trans (h' r)

theorem Follows.of_view_eq (h : ∀ r, st'.view r = st.view r) : Follows cfg st st' :=
  fun r => h r ▸ .refl

/-- A step of one ring, which the others do not see. -/
theorem Follows.one (ring : Nat)
    (h : RingStep (cfg.ringSize ring) (cfg.dmaSize ring) (st.view ring) (st'.view ring))
    (hother : ∀ r, r ≠ ring → st'.view r = st.view r) : Follows cfg st st' := by
  intro r
  by_cases hr : r = ring
  · exact hr ▸ .single h
  · exact hother r hr ▸ .refl

theorem Inv.follows (hinv : Inv cfg st) (h : Follows cfg st st') : Inv cfg st' :=
  fun r => (hinv r).steps (h r)

/-- The card holds no buffers of rings that there are not. -/
def Idle (cfg : RxCfg) (st : RxState) : Prop := ∀ r, cfg.maxRdsRings ≤ r → (st.card r).held = []

/-- A buffer that the card holds exists, and has an skb. -/
theorem Inv.held (hinv : Inv cfg st) {ring index : Nat} (h : index ∈ (st.card ring).held) :
    index < cfg.ringSize ring ∧ (st.ctx.buf ring index).skb ≠ none := by
  have hmem : index ∈ (st.view ring).listAt .posted := List.mem_append_right _ h
  exact ⟨Finset.mem_range.mp ((hinv ring).places.mem hmem), (hinv ring).skb index hmem⟩

/-! ## Messages -/

/-- The state after a handler that has taken the buffers `xs`. -/
def RxState.took (st : RxState) (ctx : RxCtx) (xs : List (Nat × Nat)) : RxState :=
  { st with ctx := ctx, card := xs.foldl release st.card }

/-- The list of one receive ring with one status ring is set: what that receive ring has with
all of them. -/
theorem setFreeRbufs_self (lists : Nat → Nat → FreeRbufs) (s ring : Nat) (l : FreeRbufs) :
    (fun s' => Function.update lists s (Function.update (lists s) ring l) s' ring) =
      Function.update (fun s' => lists s' ring) s l := by
  funext s'
  by_cases hs : s' = s
  · subst hs
    rw [Function.update_self, Function.update_self, Function.update_self]
  · rw [Function.update_of_ne hs, Function.update_of_ne hs]

theorem setFreeRbufs_of_ne {r ring : Nat} (hr : r ≠ ring) (lists : Nat → Nat → FreeRbufs)
    (s : Nat) (l : FreeRbufs) :
    (fun s' => Function.update lists s (Function.update (lists s) ring l) s' r) =
      fun s' => lists s' r := by
  funext s'
  by_cases hs : s' = s
  · subst hs
    rw [Function.update_self, Function.update_of_ne hr]
  · rw [Function.update_of_ne hs]

/-- The log is no part of any ring. -/
theorem took_touch_follows (cfg : RxCfg) (st : RxState) (log : List Access) :
    Follows cfg st (st.took { st.ctx with log := log } []) := .of_view_eq fun _ => rfl

/-- The rings after one buffer is put on the list of a status ring. -/
theorem view_took (st : RxState) (s ring index : Nat) (rds : RdsRing) (allocs : Nat)
    (log : List Access) :
    let st' := st.took ({ st.ctx.setRds ring rds with
      allocs := allocs, log := log }.free s ring index) [(ring, index)]
    st'.view ring = (st.view ring).giveBack s index rds ∧
      ∀ r, r ≠ ring → st'.view r = st.view r := by
  constructor
  · simp only [RxState.view, RxState.took, RingView.giveBack, List.foldl_cons, List.foldl_nil,
      release, RxCtx.free, RxCtx.setFreeRbufs, RxCtx.setRds, Function.update_self,
      RingView.mk.injEq, true_and, and_true]
    exact setFreeRbufs_self ..
  · intro r hr
    simp only [RxState.view, RxState.took, List.foldl_cons, List.foldl_nil, release, RxCtx.free,
      RxCtx.setFreeRbufs, RxCtx.setRds, Function.update_of_ne hr, RingView.mk.injEq, true_and,
      and_true]
    exact setFreeRbufs_of_ne hr ..

/-- `process_rxbuffer`, of a buffer that the card holds. -/
theorem processRxbuffer_follows (hinv : Inv cfg st) (s : Nat) {ring index : Nat}
    (hheld : index ∈ (st.card ring).held) :
    ∃ skb, (processRxbuffer cfg s st.ctx ring index).2 = some skb ∧
      Follows cfg st
        (st.took (processRxbuffer cfg s st.ctx ring index).1 [(ring, index)]) := by
  obtain ⟨-, hskb⟩ := hinv.held hheld
  obtain ⟨skb, hsome⟩ := Option.ne_none_iff_exists'.mp hskb
  have heq : processRxbuffer cfg s st.ctx ring index =
      ({ st.ctx.setRds ring ((st.ctx.rdsRings ring).consume index (cfg.alloc st.ctx.allocs)) with
        allocs := st.ctx.allocs + 1
        log := st.ctx.log ++ [Access.rxBufArr ring index] }.free s ring index, some skb) := by
    have hbuf : ((st.ctx.touch (.rxBufArr ring index)).buf ring index).skb = some skb := hsome
    unfold processRxbuffer
    simp only [hbuf]
    rfl
  rw [heq]
  obtain ⟨hview, hother⟩ := view_took st s ring index
    ((st.ctx.rdsRings ring).consume index (cfg.alloc st.ctx.allocs)) (st.ctx.allocs + 1)
    (st.ctx.log ++ [.rxBufArr ring index])
  exact ⟨skb, rfl, .one _ (hview ▸ .consume s index _ hheld hskb) hother⟩

/-- A buffer goes back as it is. -/
theorem repost_follows (s : Nat) {ring index : Nat} (hheld : index ∈ (st.card ring).held) :
    Follows cfg st (st.took (repost s st.ctx ring index) [(ring, index)]) := by
  obtain ⟨hview, hother⟩ := view_took st s ring index (st.ctx.rdsRings ring) st.ctx.allocs
    (st.ctx.log ++ [.rxBufArr ring index])
  have hsame : st.ctx.setRds ring (st.ctx.rdsRings ring) = st.ctx := by
    simp only [RxCtx.setRds, Function.update_eq_self]
  rw [hsame] at hview hother
  exact .one _ (hview ▸ .repost s index hheld) hother

/-- A buffer that the card holds is of a ring that there is, and passes the checks
of its ring and its index. -/
theorem unmProcessRcv_follows (hinv : Inv cfg st) (hidle : Idle cfg st) (s : Nat)
    (desc : StatusDesc) (hheld : rcvIndex desc ∈ (st.card (rcvDescCtx desc)).held) :
    Follows cfg st (st.took (unmProcessRcv cfg s st.ctx desc) (rcvReturned desc)) := by
  have hring : ¬cfg.maxRdsRings ≤ rcvDescCtx desc := by
    intro hring
    rw [hidle _ hring] at hheld
    cases hheld
  have hindex : ¬cfg.ringSize (rcvDescCtx desc) < rcvIndex desc :=
    Nat.not_lt_of_gt (hinv.held hheld).1
  unfold unmProcessRcv
  simp only
  rw [if_neg hring, if_neg hindex]
  split
  · exact repost_follows s hheld
  · exact (processRxbuffer_follows hinv s hheld).choose_spec.2

theorem unmProcessLroContiguous_follows (hinv : Inv cfg st) (s : Nat) (desc : StatusDesc)
    (htype : desc.lro2Type.toNat = 1) (hheld : desc.lro2RefHandle.toNat ∈ (st.card 1).held) :
    Follows cfg st (st.took (unmProcessLroContiguous cfg s st.ctx desc)
      (lroContiguousReturned desc)) := by
  unfold unmProcessLroContiguous
  unfold lroContiguousReturned
  simp only
  rw [if_neg (not_not.mpr htype), htype]
  -- the store to the statistics, and then the buffer
  have htouch := took_touch_follows cfg st
    (st.ctx.log ++ [.bufsize (min (desc.lro2Length.toNat >>> 10) (nx1kPerLro - 1))])
  refine htouch.trans ?_
  split
  · rw [if_neg (Nat.not_le.mpr (hinv.held hheld).1)]
    exact repost_follows s hheld
  · exact (processRxbuffer_follows (hinv.follows htouch) s hheld).choose_spec.2

/-- The fragments that `nr_skbs` leaves to go through. -/
def fragsTaken (nrSkbs : Int) (handles : List Nat) : List Nat :=
  if nrSkbs < 0 then handles else handles.take nrSkbs.toNat

theorem fragsTaken_cons {nrSkbs : Int} (h : nrSkbs ≠ 0) (i : Nat) (handles : List Nat) :
    fragsTaken nrSkbs (i :: handles) = i :: fragsTaken (nrSkbs - 1) handles := by
  unfold fragsTaken
  by_cases hneg : nrSkbs < 0
  · rw [if_pos hneg, if_pos (by omega)]
  · obtain ⟨k, rfl⟩ : ∃ k : Nat, nrSkbs = k + 1 := ⟨(nrSkbs - 1).toNat, by omega⟩
    rw [if_neg hneg, if_neg (by omega)]
    have h1 : ((k : Int) + 1).toNat = k + 1 := by omega
    have h2 : ((k : Int) + 1 - 1).toNat = k := by omega
    rw [h1, h2, List.take_succ_cons]

/-- The loop over the fragments, by induction on them. -/
theorem lroLoop_follows (s : Nat) (handles : List Nat) (nrSkbs : Int) (hinv : Inv cfg st)
    (hnodup : (fragsTaken nrSkbs handles).Nodup)
    (hheld : ∀ i ∈ fragsTaken nrSkbs handles, i ∈ (st.card 0).held) :
    Follows cfg st (st.took (lroLoop cfg s 0 handles nrSkbs st.ctx)
      ((fragsTaken nrSkbs handles).map fun i => (0, i))) := by
  induction handles generalizing st nrSkbs with
  | nil =>
    have : fragsTaken nrSkbs [] = [] := by
      unfold fragsTaken
      rw [List.take_nil, ite_self]
    rw [this]
    exact .of_view_eq fun _ => rfl
  | cons i handles ih =>
    unfold lroLoop
    by_cases hzero : nrSkbs = 0
    · rw [if_pos hzero, hzero]
      exact .of_view_eq fun _ => rfl
    · rw [fragsTaken_cons hzero] at hnodup hheld ⊢
      obtain ⟨hi, hnodup⟩ := List.nodup_cons.mp hnodup
      have hfirst := hheld i List.mem_cons_self
      obtain ⟨skb, hskb, hfollows⟩ := processRxbuffer_follows hinv s hfirst
      rw [if_neg hzero, if_neg (Nat.not_le.mpr (hinv.held hfirst).1)]
      simp only [hskb]
      refine hfollows.trans (ih (nrSkbs - 1) (hinv.follows hfollows) hnodup fun k hk => ?_)
      -- the buffers after the first are still held
      have hne : k ≠ i := fun he => hi (he ▸ hk)
      show k ∈ (release st.card (0, i) 0).held
      rw [release, Function.update_self]
      exact (List.mem_erase_of_ne hne).mpr (hheld k (List.mem_cons_of_mem _ hk))

theorem lroTaken_eq (count : Nat) (handles : List Nat) :
    lroTaken count handles = fragsTaken (count - 1) handles := by
  unfold lroTaken fragsTaken
  by_cases hzero : count = 0
  · rw [if_pos hzero, if_pos (by omega)]
  · have : ((count : Int) - 1).toNat = count - 1 := by omega
    rw [if_neg hzero, if_neg (by omega), this]

theorem unmProcessLro_follows (hinv : Inv cfg st) (s : Nat) (desc : StatusDesc)
    (descList : List StatusDesc) (htype : desc.lroType.toNat = 0)
    (hnodup : (lroReturned desc descList).Nodup)
    (hheld : ∀ x ∈ lroReturned desc descList, x.2 ∈ (st.card x.1).held) :
    Follows cfg st (st.took (unmProcessLro cfg s st.ctx desc descList)
      (lroReturned desc descList)) := by
  unfold unmProcessLro
  unfold lroReturned at hnodup hheld ⊢
  simp only
  rw [htype] at hnodup hheld ⊢
  rw [if_neg (not_not.mpr rfl)]
  rw [lroTaken_eq] at hnodup hheld ⊢
  obtain ⟨hhead, hnodup⟩ := List.nodup_cons.mp (List.Nodup.of_map _ hnodup)
  have hheld : ∀ i ∈ desc.lroRefHandle.toNat ::
      fragsTaken (desc.lroCount.toNat - 1) (descList.flatMap lroFragHandles),
      i ∈ (st.card 0).held := fun i hi => hheld (0, i) (List.mem_map_of_mem hi)
  -- the statistics are only logged
  have hstart : ∃ log, (if desc.lroCount.toNat ≤ nxMaxPktsPerLro then
      st.ctx.touch (.accumulation (desc.lroCount.toNat - 1)) else st.ctx) =
      { st.ctx with log := log } := by
    split
    · exact ⟨_, rfl⟩
    · exact ⟨st.ctx.log, rfl⟩
  obtain ⟨log, hlog⟩ := hstart
  rw [hlog]
  have htouch := took_touch_follows cfg st log
  have hinv := hinv.follows htouch
  obtain ⟨skb, hskb, hfollows⟩ := processRxbuffer_follows hinv s
    (show desc.lroRefHandle.toNat ∈ _ from hheld _ List.mem_cons_self)
  have hskb : (processRxbuffer cfg s { st.ctx with log := log } 0
      desc.lroRefHandle.toNat).2 = some skb := hskb
  simp only [hskb]
  refine htouch.trans (hfollows.trans
    (lroLoop_follows s _ _ (hinv.follows hfollows) hnodup fun k hk => ?_))
  have hne : k ≠ desc.lroRefHandle.toNat := fun he => hhead (he ▸ hk)
  show k ∈ (release st.card (0, desc.lroRefHandle.toNat) 0).held
  rw [release, Function.update_self]
  exact (List.mem_erase_of_ne hne).mpr (hheld k (List.mem_cons_of_mem _ hk))

/-! ## Misdirected messages -/

/-- The state after a handler that has dropped a message with the buffers `xs`. -/
def RxState.dropped (st : RxState) (ctx : RxCtx) (xs : List (Nat × Nat)) : RxState :=
  { st with ctx := ctx, card := xs.foldl release st.card, lost := xs.foldl lose st.lost }

/-- One buffer is lost. -/
theorem dropped_one_follows (st : RxState) {ring index : Nat}
    (hheld : index ∈ (st.card ring).held) :
    Follows cfg st (st.dropped st.ctx [(ring, index)]) := by
  have hview : (st.dropped st.ctx [(ring, index)]).view ring = (st.view ring).drop index := by
    simp only [RxState.view, RxState.dropped, RingView.drop, List.foldl_cons, List.foldl_nil,
      release, lose, Function.update_self]
  refine .one ring (hview ▸ .drop index hheld) fun r hr => ?_
  simp only [RxState.view, RxState.dropped, List.foldl_cons, List.foldl_nil, release, lose,
    Function.update_of_ne hr]

/-- All buffers of a message are lost, by induction on them. -/
theorem dropped_follows (st : RxState) (ring : Nat) (handles : List Nat)
    (hnodup : handles.Nodup)
    (hheld : ∀ i ∈ handles, i ∈ (st.card ring).held) :
    Follows cfg st (st.dropped st.ctx (handles.map fun i => (ring, i))) := by
  induction handles generalizing st with
  | nil => exact .of_view_eq fun _ => rfl
  | cons i handles ih =>
    obtain ⟨hi, hnodup⟩ := List.nodup_cons.mp hnodup
    have hfirst : Follows cfg st (st.dropped st.ctx [(ring, i)]) :=
      dropped_one_follows st (hheld i List.mem_cons_self)
    refine hfirst.trans (ih (st.dropped st.ctx [(ring, i)]) hnodup fun k hk => ?_)
    have hne : k ≠ i := fun he => hi (he ▸ hk)
    show k ∈ (release st.card (ring, i) ring).held
    rw [release, Function.update_self]
    exact (List.mem_erase_of_ne hne).mpr (hheld k (List.mem_cons_of_mem _ hk))

/-- A misdirected message names buffers of one ring, and its handler takes none. -/
theorem Dispatch.Misdirected.cases (cfg : RxCfg) {call : Dispatch} (h : call.Misdirected) :
    (∃ (ring : Nat) (handles : List Nat), returned call = handles.map fun i => (ring, i)) ∧
      ∀ s ctx, handle cfg s ctx call = { ctx with log := ctx.log ++ call.stores } := by
  cases call with
  | rcv desc => exact absurd h not_false
  | lroContiguous desc =>
    refine ⟨⟨_, [desc.lro2RefHandle.toNat], rfl⟩, fun s ctx => ?_⟩
    have htype : desc.lro2Type.toNat ≠ 1 := h
    simp only [handle, unmProcessLroContiguous, if_pos htype]
  | lro desc descList =>
    refine ⟨⟨_, _, rfl⟩, fun s ctx => ?_⟩
    have htype : desc.lroType.toNat ≠ 0 := h
    simp only [handle, unmProcessLro, if_pos htype]
  | msg hdr values => exact absurd h not_false

/-- **A message** takes just the buffers that it returns, or loses them. -/
theorem handle_follows (hinv : Inv cfg st) (hidle : Idle cfg st) (s : Nat) (call : Dispatch)
    (h : CanReturn st call) :
    Follows cfg st { st with
      ctx := handle cfg s st.ctx call
      card := (returned call).foldl release st.card
      lost := call.losing st.lost } := by
  have htouch := took_touch_follows cfg st (st.ctx.log ++ call.stores)
  refine htouch.trans ?_
  obtain ⟨hnodup, hheld⟩ := h
  by_cases hmis : call.Misdirected
  · obtain ⟨⟨ring, handles, hreturned⟩, hhandle⟩ := hmis.cases cfg
    rw [hhandle, Dispatch.losing, if_pos hmis]
    rw [hreturned] at hnodup hheld ⊢
    exact dropped_follows (st.took { st.ctx with log := st.ctx.log ++ call.stores } []) ring
      handles (hnodup.of_map _) fun i hi => hheld _ (List.mem_map_of_mem hi)
  · have hinv := hinv.follows htouch
    rw [Dispatch.losing, if_neg hmis]
    cases call with
    | rcv desc => exact unmProcessRcv_follows hinv hidle s desc (hheld _ List.mem_cons_self)
    | lroContiguous desc =>
      have htype : desc.lro2Type.toNat = 1 := not_not.mp hmis
      have hheld := hheld _ List.mem_cons_self
      rw [htype] at hheld
      exact unmProcessLroContiguous_follows hinv s desc htype hheld
    | lro desc descList =>
      exact unmProcessLro_follows hinv s desc descList (not_not.mp hmis) hnodup hheld
    | msg hdr values => exact .of_view_eq fun _ => rfl

/-! ## Posting -/

/-- A thread that is idle is so in each ring. -/
theorem view_idle {t : Nat} (h : st.posters t = none) (r : Nat) : (st.view r).posters t = none := by
  simp only [RxState.view, h, Option.filter_none]

/-- The calls of a ring, after that of the thread `t` is replaced. -/
theorem filter_update (posters : Nat → Option Poster) (t r : Nat) (o : Option Poster) :
    (fun u => (Function.update posters t o u).filter fun p => p.ring = r) =
      Function.update (fun u => (posters u).filter fun p => p.ring = r) t
        (o.filter fun p => p.ring = r) := by
  funext u
  by_cases hu : u = t
  · subst hu
    rw [Function.update_self, Function.update_self]
  · rw [Function.update_of_ne hu, Function.update_of_ne hu]

/-- The view of a ring after one of its lists, its own state and a call are
replaced. -/
theorem view_update (st : RxState) (t s ring : Nat) (rds : RdsRing) (l : FreeRbufs)
    (o : Option Poster) :
    let st' : RxState := { st with
      ctx := (st.ctx.setRds ring rds).setFreeRbufs s ring l
      posters := Function.update st.posters t o }
    st'.view ring =
        { st.view ring with
          rds := rds
          sds := Function.update (st.view ring).sds s l
          posters := Function.update (st.view ring).posters t (o.filter fun p => p.ring = ring) } ∧
      ∀ r, r ≠ ring → st'.view r =
        { st.view r with
          posters := Function.update (st.view r).posters t (o.filter fun p => p.ring = r) } := by
  constructor
  · simp only [RxState.view, RxCtx.setFreeRbufs, RxCtx.setRds, Function.update_self,
      filter_update, RingView.mk.injEq, true_and, and_true]
    exact setFreeRbufs_self ..
  · intro r hr
    simp only [RxState.view, RxCtx.setFreeRbufs, RxCtx.setRds, Function.update_of_ne hr,
      filter_update, RingView.mk.injEq, true_and, and_true]
    exact setFreeRbufs_of_ne hr ..

/-- A new call of `nx_post_rx_descriptors`, or none, in another ring. -/
theorem update_idle {t r ring : Nat} (hidle : st.posters t = none) (hr : r ≠ ring)
    {o : Option Poster} (ho : ∀ p, o = some p → p.ring = ring) :
    Function.update (st.view r).posters t (o.filter fun p => p.ring = r) =
      (st.view r).posters := by
  have hnone : (o.filter fun p => p.ring = r) = none := by
    cases o with
    | none => rfl
    | some p => simp [Option.filter, ho p rfl, Ne.symm hr]
  rw [hnone, ← view_idle hidle r, Function.update_eq_self]

/-- A ring whose free buffers are perhaps taken over by a call. -/
theorem start_follows {t ring : Nat} (hidle : st.posters t = none) {o : Option Poster}
    {rds : RdsRing} (s : Nat) {l : FreeRbufs} {v : RingView}
    (hv : Relation.ReflTransGen (RingStep (cfg.ringSize ring) (cfg.dmaSize ring))
      (st.view ring) v)
    (hfields : v =
      { st.view ring with rds := v.rds, sds := Function.update (st.view ring).sds s l })
    (hstart : rds = v.rds ∧ o = none ∨
      v.rds.posting = false ∧ rds = v.rds.startPosting ∧ o = some (v.rds.poster ring)) :
    Follows cfg st { st with
      ctx := (st.ctx.setRds ring rds).setFreeRbufs s ring l
      posters := Function.update st.posters t o } := by
  obtain ⟨hsame, hother⟩ := view_update st t s ring rds l o
  intro r
  by_cases hr : r = ring
  · subst hr
    rw [hsame]
    rcases hstart with ⟨rfl, rfl⟩ | ⟨hfree, rfl, rfl⟩
    · have hnone :
          Function.update (st.view r).posters t (Option.filter (fun p => p.ring = r) none) =
          (st.view r).posters := by
        rw [Option.filter_none, ← view_idle hidle r, Function.update_eq_self]
      rw [hnone, ← hfields]
      exact hv
    -- the call that begins takes the list the splice may just have filled
    · have hsome : Option.filter (fun p : Poster => p.ring = r) (some (v.rds.poster r)) =
          some (v.rds.poster r) := by
        simp [Option.filter, RdsRing.poster]
      have hidle : v.posters t = none := by
        rw [hfields]
        exact view_idle hidle r
      rw [hsome]
      refine hv.tail ?_
      have hstep : RingStep (cfg.ringSize r) (cfg.dmaSize r) v (v.start t r) :=
        .start t r hidle hfree
      have hgoal : v.start t r =
          { st.view r with
            rds := v.rds.startPosting
            sds := Function.update (st.view r).sds s l
            posters := Function.update (st.view r).posters t (some (v.rds.poster r)) } := by
        rw [RingView.start, hfields]
      exact hgoal ▸ hstep
  · rw [hother r hr, update_idle hidle hr]
    intro p hp
    rcases hstart with ⟨-, rfl⟩ | ⟨-, -, rfl⟩
    · cases hp
    · exact Option.some.inj hp ▸ rfl

theorem nxPostFreedRxbufs_follows {t : Nat} (s ring : Nat) (hidle : st.posters t = none) :
    let r := nxPostFreedRxbufs (st.ctx.rdsRings ring) (st.ctx.freeRbufs s ring) ring
    Follows cfg st { st with
      ctx := (st.ctx.setRds ring r.1).setFreeRbufs s ring r.2.1
      posters := Function.update st.posters t r.2.2 } := by
  intro r
  -- the ring and the list after the splice, if there is one
  have hsplice : ∃ v : RingView, ∃ l : FreeRbufs,
      Relation.ReflTransGen (RingStep (cfg.ringSize ring) (cfg.dmaSize ring)) (st.view ring) v ∧
      v = { st.view ring with
        rds := v.rds, sds := Function.update (st.view ring).sds s l } ∧
      r = if v.rds.posting = false ∧ v.rds.freeRxbufs.count ≠ 0 then
          (v.rds.startPosting, l, some (v.rds.poster ring))
        else (v.rds, l, none) := by
    by_cases hempty : (st.ctx.freeRbufs s ring).head = []
    · refine ⟨st.view ring, st.ctx.freeRbufs s ring, .refl, ?_, ?_⟩
      · have hsame : Function.update (st.view ring).sds s (st.ctx.freeRbufs s ring) =
            (st.view ring).sds := Function.update_eq_self s (st.view ring).sds
        rw [hsame]
      · simp only [r, nxPostFreedRxbufs, if_pos hempty]
        rfl
    · refine ⟨(st.view ring).splice s, ⟨0, []⟩, .single (.splice s), rfl, ?_⟩
      simp only [r, nxPostFreedRxbufs, if_neg hempty]
      rfl
  obtain ⟨v, l, hv, hfields, hr⟩ := hsplice
  rw [hr]
  by_cases hstart : v.rds.posting = false ∧ v.rds.freeRxbufs.count ≠ 0
  · rw [if_pos hstart]
    exact start_follows hidle s hv hfields (Or.inr ⟨hstart.1, rfl, rfl⟩)
  · rw [if_neg hstart]
    exact start_follows hidle s hv hfields (Or.inl ⟨rfl, rfl⟩)

theorem unmPostRxBuffers_follows {t : Nat} (ring : Nat) (hidle : st.posters t = none) :
    let r := unmPostRxBuffers (st.ctx.rdsRings ring) ring
    Follows cfg st { st with
      ctx := st.ctx.setRds ring r.1
      posters := Function.update st.posters t r.2 } := by
  intro r
  have hkeep : ∀ ctx : RxCtx, ctx.freeRbufs = st.ctx.freeRbufs →
      ctx.setFreeRbufs 0 ring (st.ctx.freeRbufs 0 ring) = ctx := by
    intro ctx hctx
    simp only [RxCtx.setFreeRbufs, ← hctx, Function.update_eq_self]
  have hstart : r.1 = (st.view ring).rds ∧ r.2 = none ∨ (st.view ring).rds.posting = false ∧
      r.1 = (st.view ring).rds.startPosting ∧ r.2 = some ((st.view ring).rds.poster ring) := by
    simp only [r, unmPostRxBuffers]
    split
    · exact Or.inl ⟨rfl, rfl⟩
    · rename_i hfree
      rw [not_or] at hfree
      exact Or.inr ⟨Bool.not_eq_true _ ▸ hfree.1, rfl, rfl⟩
  have hnone : Relation.ReflTransGen (RingStep (cfg.ringSize ring) (cfg.dmaSize ring))
      (st.view ring) (st.view ring) := .refl
  have hfollows := start_follows hidle 0 (l := st.ctx.freeRbufs 0 ring) hnone
    (by rw [show st.ctx.freeRbufs 0 ring = (st.view ring).sds 0 from rfl,
      Function.update_eq_self]) hstart
  rw [hkeep (st.ctx.setRds ring r.1) rfl] at hfollows
  exact hfollows

/-- The calls of `nx_post_rx_descriptors` stay with their ring. -/
theorem nxPostStep_ring {size dmaSize : Nat} {o : Option (Nat × Nat)} {rds : RdsRing}
    {p p' : Poster} (h : (nxPostStep size dmaSize o rds p).poster = some p') :
    p'.ring = p.ring := by
  unfold nxPostStep at h
  cases hpc : p.pc with
  | posting =>
    simp only [hpc] at h
    obtain ⟨_, heq⟩ | ⟨_, _, _, _, heq⟩ | ⟨_, _, _, _, _, _, _, heq⟩ :=
      nxPostRound_cases size dmaSize o rds p <;>
    · rw [heq] at h
      exact Option.some.inj h ▸ rfl
  | returning =>
    simp only [hpc] at h
    split at h <;> exact Option.some.inj h ▸ rfl
  | storing => exact Option.some.inj (hpc ▸ h) ▸ rfl
  | ringing => exact Option.some.inj (hpc ▸ h) ▸ rfl
  | finishing =>
    simp only [hpc] at h
    cases h

/-- **One step** of the machine follows the rings. -/
theorem next_follows (hinv : Inv cfg st) (hidle : Idle cfg st) {a : RxAction}
    (h : (rxMachine cfg).next st a = some st') : Follows cfg st st' := by
  cases a with
  | receive s call =>
    simp only [rxMachine] at h
    by_cases hcan : CanReturn st call
    · rw [if_pos hcan] at h
      exact Option.some.inj h ▸ handle_follows hinv hidle s call hcan
    · rw [if_neg hcan] at h
      cases h
  | postFreed t s ring =>
    simp only [rxMachine] at h
    by_cases hidle : st.posters t = none
    · rw [if_pos hidle] at h
      exact Option.some.inj h ▸ nxPostFreedRxbufs_follows s ring hidle
    · rw [if_neg hidle] at h
      cases h
  | postBuffers t ring =>
    simp only [rxMachine] at h
    by_cases hidle : st.posters t = none
    · rw [if_pos hidle] at h
      exact Option.some.inj h ▸ unmPostRxBuffers_follows ring hidle
    · rw [if_neg hidle] at h
      cases h
  | post t =>
    obtain ⟨p, hp, rfl⟩ := Option.map_eq_some_iff.mp h
    have hview : (st.view p.ring).posters t = some p := by
      simp [RxState.view, hp, Option.filter]
    have hring : ∀ o rds, (nxPostStep (cfg.ringSize p.ring) (cfg.dmaSize p.ring) o rds
        p).poster.filter (fun p' => p'.ring = p.ring) =
        (nxPostStep (cfg.ringSize p.ring) (cfg.dmaSize p.ring) o rds p).poster := by
      intro o rds
      cases hpost : (nxPostStep (cfg.ringSize p.ring) (cfg.dmaSize p.ring) o rds p).poster with
      | none => rfl
      | some p' => simp [Option.filter, nxPostStep_ring hpost]
    -- a step of a call changes its own ring only
    refine .one p.ring ?_ fun r hr => ?_
    · have hstep : RingStep (cfg.ringSize p.ring) (cfg.dmaSize p.ring) (st.view p.ring) _ :=
        .post t p (cfg.alloc st.ctx.allocs) hview
      simp only [RxState.view, RxCtx.setRds, Function.update_self, filter_update, hring] at hstep ⊢
      exact hstep
    · have hother : ∀ o rds, (nxPostStep (cfg.ringSize p.ring) (cfg.dmaSize p.ring) o rds
          p).poster.filter (fun p' => p'.ring = r) = none := by
        intro o rds
        cases hpost : (nxPostStep (cfg.ringSize p.ring) (cfg.dmaSize p.ring) o rds p).poster with
        | none => rfl
        | some p' => simp [Option.filter, nxPostStep_ring hpost, Ne.symm hr]
      have hidle : (st.view r).posters t = none := by
        simp [RxState.view, hp, Option.filter, Ne.symm hr]
      have hsame : Function.update (fun u => (st.posters u).filter fun p' => p'.ring = r) t none =
          fun u => (st.posters u).filter fun p' => p'.ring = r := by
        rw [← hidle]
        exact Function.update_eq_self t _
      simp only [RxState.view, RxCtx.setRds, Function.update_of_ne hr, filter_update, hother,
        hsame]
  | fetch ring =>
    simp only [rxMachine] at h
    by_cases hnone : cfg.maxRdsRings ≤ ring ∨ (st.card ring).unread = []
    · rw [if_pos hnone] at h
      cases h
    · rw [if_neg hnone] at h
      obtain rfl := Option.some.inj h
      obtain ⟨-, hunread⟩ := not_or.mp hnone
      refine .one ring ?_ fun r hr => ?_
      · have hstep : RingStep (cfg.ringSize ring) (cfg.dmaSize ring) (st.view ring) _ :=
          .fetch hunread
        simp only [RxState.view, Function.update_self] at hstep ⊢
        exact hstep
      · simp only [RxState.view, Function.update_of_ne hr]

/-- Nothing but a fetch adds to what the card holds. -/
theorem held_foldl_release (xs : List (Nat × Nat)) (card : Nat → Card) (r : Nat) :
    (xs.foldl release card r).held.Sublist (card r).held := by
  induction xs generalizing card with
  | nil => exact List.Sublist.refl _
  | cons x xs ih =>
    refine (ih (release card x)).trans ?_
    unfold release
    by_cases hr : r = x.1
    · subst hr
      rw [Function.update_self]
      exact List.erase_sublist
    · rw [Function.update_of_ne hr]

/-- **One step** of the machine leaves the rings alone that there are not. -/
theorem Idle.next (hidle : Idle cfg st) {a : RxAction} (h : (rxMachine cfg).next st a = some st') :
    Idle cfg st' := by
  intro r hr
  cases a with
  | receive s call =>
    simp only [rxMachine] at h
    by_cases hcan : CanReturn st call
    · rw [if_pos hcan] at h
      have hsub := held_foldl_release (returned call) st.card r
      rw [hidle r hr] at hsub
      exact Option.some.inj h ▸ List.sublist_nil.mp hsub
    · rw [if_neg hcan] at h
      cases h
  | postFreed t s ring =>
    simp only [rxMachine] at h
    split at h
    · exact Option.some.inj h ▸ hidle r hr
    · cases h
  | postBuffers t ring =>
    simp only [rxMachine] at h
    split at h
    · exact Option.some.inj h ▸ hidle r hr
    · cases h
  | post t =>
    obtain ⟨p, -, rfl⟩ := Option.map_eq_some_iff.mp h
    by_cases hring : r = p.ring
    · subst hring
      simp only [Function.update_self]
      exact hidle _ hr
    · simp only [Function.update_of_ne hring]
      exact hidle r hr
  | fetch ring =>
    simp only [rxMachine] at h
    split at h
    · cases h
    · rename_i hnone
      obtain ⟨hring, -⟩ := not_or.mp hnone
      have hne : r ≠ ring := fun he => hring (he ▸ hr)
      refine Option.some.inj h ▸ ?_
      simp only [Function.update_of_ne hne]
      exact hidle r hr

/-! ## Reachable states -/

theorem Inv.init (cfg : RxCfg) : Inv cfg (initialRx cfg) := RingInv.init cfg

/-- **Every reachable state** of the machine is one in each ring. -/
theorem ReachableRx.follows (h : ReachableRx cfg st) :
    Inv cfg st ∧ Follows cfg (initialRx cfg) st := by
  obtain ⟨l, hl⟩ := h
  suffices hall : Idle cfg st ∧ Inv cfg st ∧ Follows cfg (initialRx cfg) st from hall.2
  refine (rxMachine cfg).run_invariant
    (I := fun st => Idle cfg st ∧ Inv cfg st ∧ Follows cfg (initialRx cfg) st) ?_
    ⟨fun _ _ => rfl, Inv.init cfg, .of_view_eq fun _ => rfl⟩ hl
  intro u a w hu hw
  obtain ⟨hidle, hinv, hfollows⟩ := hu
  have hstep := next_follows hinv hidle hw
  exact ⟨hidle.next hw, hinv.follows hstep, hfollows.trans hstep⟩

theorem ReachableRx.inv (h : ReachableRx cfg st) : Inv cfg st := h.follows.1

/-- **The rule for one ring**: what holds at the start and is kept by its steps
holds in every reachable state. -/
theorem ReachableRx.ring_induction (h : ReachableRx cfg st) (ring : Nat) {P : RingView → Prop}
    (init : P ((initialRx cfg).view ring))
    (step : ∀ v w, RingInv (cfg.ringSize ring) (cfg.dmaSize ring) v → P v →
      RingStep (cfg.ringSize ring) (cfg.dmaSize ring) v w → P w) : P (st.view ring) := by
  have hsteps := h.follows.2 ring
  suffices hboth : RingInv (cfg.ringSize ring) (cfg.dmaSize ring) (st.view ring) ∧
      P (st.view ring) from hboth.2
  generalize st.view ring = v at hsteps ⊢
  induction hsteps with
  | refl => exact ⟨RingInv.init cfg ring, init⟩
  | tail _ hstep ih => exact ⟨ih.1.step hstep, step _ _ ih.1 ih.2 hstep⟩

end Rx
end NxNic

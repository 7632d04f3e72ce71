import NxNic.Ctx.Consistency
import NxNic.Load.Firmware

/-! # The status rings of the contexts

A receive context has its status rings in the table `host_sds_rings` of the adapter, and each of
them an interrupt of `msix_entries`.  The size of the table is fixed when the adapter is probed:
the number of contexts where there can be several, and otherwise the number of rings of the only
one.  A context takes `ctx_id * num_sds_rings` as its first place in the table, and `ctx_id` as
its first interrupt, so that the two agree only while a context has one ring.

What the probe leaves (`SdsAdapter`) comes from the module's parameters and from the card, by
`nx_verify_module_params`, `unm_check_options` and `nx_enable_msi_x`; the contexts come and go in
the runs of the registry (`Ctx/Consistency`).  In them a context has the id of its entry, by an
invariant over the runs, and so its places are those of its entry.

`SdsAdapter.InRange` is the property of a state: all places are within their tables, and no two
rings share one.  `RssAndContexts` is where it fails, and `inRange_iff` has it as the exact
complement over all that a probe can leave.
-/
namespace NxNic
namespace Ctx
open Load

/-! ## What an adapter is probed with -/

/-- `unm_brdtype_t`. -/
inductive BrdType where
  | p1Bd | p1Sb | p1Smax | p1Sock
  | p2Sock31 | p2Sock35 | p2Sb35x4G | p2Sb31x10G | p2Sb31x2G
  | p2Sb31x10GImez | p2Sb31x10GHmez | p2Sb31x10GCx4
  | p3RefQg | p3Hmez | p3x10GCx4Lp | p3x4Gb | p3Imez | p3x10GSfpPlus | p3x10000BaseT | p3XgLom
  | p3x4GbMm | p3x10GCx4 | p3x10GXfp | p3x10GTp
  /-- A number that is none of these. -/
  | other
  deriving DecidableEq

/-- The parameters of the module; `esx` says for which system it is built. -/
structure ModuleParams where
  esx : Bool
  rssEnable : Bool
  useMsiX : Bool
  multiCtx : Int
  numRxQueues : Int

/-- The card and its place in the system, with the result of `pci_enable_msix`. -/
structure Card where
  boardType : BrdType
  pciFunc : Nat
  revisionId : Nat
  flashVer : NicVersion
  memLen : Nat
  pciEnableMsix : Int

def unmPci128MbSize : Nat := 0x8000000
def unmPci32MbSize : Nat := 0x2000000
def unmPci2MbSize : Nat := 0x200000

/-- `NETQ_MAX_RX_CONTEXTS`. -/
def netqMaxRxContexts : Nat := 15

/-- `CARD_SIZED_MAX_RSS_RINGS`. -/
def cardSizedMaxRssRings : Nat := 4

/-- `MIN_FLASH_FW_SUPP`. -/
def minFlashFwSupp : Nat := NicVersion.code ⟨4, 0, 505⟩

/-- `NX_MSIX_SUPPORT_*`. -/
def nxMsixSupport : Nat := NicVersion.code ⟨3, 4, 330⟩

/-- `num_rx_queues` after `nx_verify_module_params`. -/
def ModuleParams.queues (p : ModuleParams) : Nat :=
  if p.numRxQueues < 0 ∨ (netqMaxRxContexts : Int) < p.numRxQueues then netqMaxRxContexts
  else p.numRxQueues.toNat

/-- `MSIX_ENTRIES_PER_ADAPTER`. -/
def ModuleParams.msixEntriesPerAdapter (p : ModuleParams) : Nat := if p.esx then 16 else 4

/-- `adapter->portnum`. -/
def Card.portnum (c : Card) : Nat :=
  if (c.boardType = .p2Sb31x10GImez ∨ c.boardType = .p2Sb31x10GHmez) ∧ 2 ≤ c.pciFunc then
    c.pciFunc - 2
  else c.pciFunc

/-- `adapter->ahw.board_type == UNM_NIC_GBE`, as `unm_nic_get_board_info` sets it. -/
def Card.gbe (c : Card) : Bool :=
  match c.boardType with
  | .p2Sb35x4G | .p3RefQg | .p3x4Gb | .p3x4GbMm | .p1Bd | .p1Sb | .p1Smax | .p1Sock => true
  | .p3x10GTp => 2 ≤ c.pciFunc
  | _ => false

/-- `unm_check_options`: `msix_supported` and `max_possible_rss_rings`. -/
def unmCheckOptions (p : ModuleParams) (c : Card) : Bool × Nat :=
  let ofBoard : Bool × Nat :=
    match c.boardType with
    | .p3XgLom | .p3Hmez | .p2Sb31x10G | .p2Sb31x10GCx4 | .p3x10GCx4 | .p3x10GCx4Lp | .p3Imez
    | .p3x10GSfpPlus | .p3x10GXfp | .p3x10000BaseT => (true, cardSizedMaxRssRings)
    | .p2Sb31x10GImez | .p2Sb31x10GHmez => (false, 1)
    | .p3RefQg | .p3x4Gb | .p3x4GbMm => (true, 1)
    | .p2Sb35x4G | .p2Sb31x2G => (false, 1)
    | .p3x10GTp => if c.portnum < 2 then (true, cardSizedMaxRssRings) else (true, 1)
    | _ => (false, 1)
  (ofBoard.1, if p.rssEnable then ofBoard.2 else 1)

/-- `nx_enable_msi_x`, with `msix_supported`; `pci_enable_msix` grants all the vectors or none. -/
def nxEnableMsiX (p : ModuleParams) (c : Card) (msixSupported : Bool) : Bool :=
  if msixSupported = false then false
  else if p.useMsiX = false then false
  else if nxIsRevisionP2 c.revisionId ∧ c.flashVer.code < nxMsixSupport then false
  else if c.memLen ≠ unmPci128MbSize ∧ c.memLen ≠ unmPci2MbSize then false
  else if c.pciEnableMsix ≠ 0 then false
  else true

/-- What `unm_nic_probe` leaves in the adapter: `multi_ctx`, `max_possible_rss_rings`, whether
`UNM_NIC_MSIX_ENABLED` is set, and the parameters `num_rx_queues` and
`MSIX_ENTRIES_PER_ADAPTER`. -/
structure SdsAdapter where
  multiCtx : Bool
  maxPossibleRssRings : Nat
  msixEnabled : Bool
  numRxQueues : Nat
  msixEntries : Nat
  deriving DecidableEq

/-- `unm_nic_probe`; `none` where it gives up. -/
def unmNicProbe (p : ModuleParams) (c : Card) : Option SdsAdapter :=
  if ¬(nxIsRevisionP2 c.revisionId ∧ (c.memLen = unmPci128MbSize ∨ c.memLen = unmPci32MbSize) ∨
      nxIsRevisionP3 c.revisionId ∧ c.memLen = unmPci2MbSize) then none
  else if c.flashVer.code < minFlashFwSupp then none
  else
    let multiCtx := p.esx && p.multiCtx ≠ 0 && !nxIsRevisionP2 c.revisionId && !c.gbe
    let options := unmCheckOptions p c
    if nxEnableMsiX p c options.1 then
      some ⟨multiCtx, options.2, true, p.queues, p.msixEntriesPerAdapter⟩
    else some ⟨false, 1, false, p.queues, p.msixEntriesPerAdapter⟩

/-! ## The places of a ring -/

namespace SdsAdapter
variable (a : SdsAdapter)

/-- The queues beside the default one, which `nx_os_dev_alloc` makes room for; without
`multi_ctx` there is `MAX_RX_CTX`, the default one. -/
def queues : Nat := if a.multiCtx then a.numRxQueues else 0

/-- `adapter->num_sds_rings`, as `nx_alloc_adapter_sds_rings` sets it. -/
def numSdsRings : Nat := if a.multiCtx then a.numRxQueues + 1 else a.maxPossibleRssRings

/-- `num_sds_rings` of a context, as `nx_nic_create_rx_ctx` asks for it. -/
def ctxSdsRings : Nat := a.maxPossibleRssRings

/-- The place in `host_sds_rings` that `nx_nic_alloc_host_sds_resources` gives to a ring. -/
def hostSdsRing {k : Nat} (ctx : RxCtx k) (ring : Nat) : Nat :=
  ctx.thisId * a.ctxSdsRings + ring

/-- The place in `msix_entries` that `nx_alloc_sts_rings` gives to a ring. -/
def msixEntry {k : Nat} (ctx : RxCtx k) (ring : Nat) : Nat := ring + ctx.thisId

/-- A ring of a context, which is at a place in `rx_ctxs`. -/
structure IsRing {k : Nat} (d : NxDev k) (i : Fin (k + 1)) (ctx : RxCtx k) (ring : Nat) : Prop where
  live : d.rxCtxs i = some ctx
  lt : ring < a.ctxSdsRings

/-- **The places are in range**, and no two rings share one; interrupts are given where MSI-X is
enabled. -/
structure InRange {k : Nat} (d : NxDev k) : Prop where
  sds : ∀ i ctx r, a.IsRing d i ctx r → a.hostSdsRing ctx r < a.numSdsRings
  msix : a.msixEnabled = true → ∀ i ctx r, a.IsRing d i ctx r → msixEntry ctx r < a.msixEntries
  sdsApart : ∀ i ctx r j ctx' r', a.IsRing d i ctx r → a.IsRing d j ctx' r' → (i, r) ≠ (j, r') →
    a.hostSdsRing ctx r ≠ a.hostSdsRing ctx' r'
  msixApart : a.msixEnabled = true → ∀ i ctx r j ctx' r', a.IsRing d i ctx r →
    a.IsRing d j ctx' r' → (i, r) ≠ (j, r') → msixEntry ctx r ≠ msixEntry ctx' r'

end SdsAdapter

/-! ## The contexts know their places -/

namespace NxDev
variable {k : Nat} {d : NxDev k}

theorem Placed.free (h : d.Placed) (c : RxCtx k) : (d.nxFwCmdCreateRxCtxFree c).Placed := by
  rw [nxFwCmdCreateRxCtxFree]
  split
  · exact h
  · intro j c' hc'
    by_cases hj : j = c.thisId
    · subst hj
      exact absurd ((Function.update_self ..).symm.trans hc').symm (Option.some_ne_none _)
    · exact h j c' ((Function.update_of_ne hj ..).symm.trans hc')

theorem Placed.freeEntry (h : d.Placed) (i : Fin (k + 1)) : (d.freeEntry i).Placed := by
  rw [NxDev.freeEntry]
  split
  · exact h.free _
  · exact h

theorem Placed.detach (h : d.Placed) : d.unmNicFreeRingContext.Placed := by
  rw [unmNicFreeRingContext]
  generalize List.finRange (k + 1) = l
  induction l generalizing d with
  | nil => exact h
  | cons i l ih => exact ih (h.freeEntry i)

theorem Placed.alloc (h : d.Placed) (hk : k < 32) (o : AllocOutcome) :
    (d.nxNicMultictxAllocRxCtx o).2.Placed := by
  rcases alloc_cases d hk o with ⟨-, he⟩ | ⟨-, i, d', hc, -, -, ⟨-, he, -⟩ | ⟨-, he, -⟩⟩
  · rw [he]
    exact h
  · rw [he]
    exact hc.placed h
  · rw [he]
    exact hc.placed h

theorem Placed.resetRound (h : d.Placed) (hk : k < 32) (o : AllocOutcome) :
    (d.resetRound o).Placed := by
  rcases resetRound_cases d hk o with ⟨-, he⟩ | ⟨-, i, hc⟩
  · rw [he]
    exact h
  · exact hc.placed h

theorem Placed.attach (h : d.Placed) {isUp : Bool} {d' : NxDev k}
    (he : d.attach = some (isUp, d')) : d'.Placed := by
  rw [NxDev.attach] at he
  cases hf : d.findOpenRxId with
  | none =>
    rw [create_fails (.inr (findOpenRxId_eq_none.mp hf))] at he
    obtain ⟨-, rfl⟩ := Prod.mk.inj (Option.some.inj he)
    exact h
  | some i =>
    rw [create_succeeds hf] at he
    simp only at he
    split at he
    · obtain ⟨-, rfl⟩ := Prod.mk.inj (Option.some.inj he)
      exact (created_alloc hf).placed h
    · exact absurd he.symm (Option.some_ne_none _)

/-- The loop of the reset, by induction on what happens in its rounds. -/
theorem Placed.resetLoop (hk : k < 32) (outs : List AllocOutcome) {d d' : NxDev k} {n : BitVec 32}
    (h : d.Placed) (he : resetLoop outs n d = some d') : d'.Placed := by
  induction outs generalizing d n with
  | nil =>
    rw [Ctx.resetLoop] at he
    split at he
    · exact Option.some.inj he ▸ h
    · exact absurd he.symm (Option.some_ne_none _)
  | cons o outs ih =>
    rw [Ctx.resetLoop] at he
    split at he
    · exact absurd he.symm (Option.some_ne_none _)
    · exact ih (h.resetRound hk o) he

end NxDev

namespace CtxWorld
variable {k : Nat} {w u : CtxWorld k}

theorem placed_takes_rule {id : Int} {beyond : Bool} {r : NxDev.Result k} (h : w.dev.Placed)
    (hr : NxDev.RuleResult w.dev id beyond r) : (w.takes r).dev.Placed := by
  cases r with
  | returned ok d => exact (hr.2 ok d rfl).placed h
  | astray => exact h

theorem placed_takes_free (h : w.dev.Placed) (id : Int) (beyond : Bool) :
    (w.takes (w.dev.nxNicMultictxFreeRxCtx id beyond)).dev.Placed := by
  rw [NxDev.nxNicMultictxFreeRxCtx]
  split
  · exact h
  · split
    · exact h
    · exact h
    · exact h.free _

theorem placed_reset (hk : k < 32) (h : w.dev.Placed) {attached : Bool}
    {outs : List AllocOutcome} (hu : w.reset false attached outs = some u) : u.dev.Placed := by
  obtain ⟨d, hdetach, hu⟩ := Option.bind_eq_some_iff.mp hu
  obtain ⟨-, rfl⟩ := NxDev.detach_eq_some.mp hdetach
  rw [netxenNicAttachAllPorts] at hu
  split at hu
  · exact Option.some.inj hu ▸ h
  · rename_i isUp d hd
    obtain ⟨d', hr, rfl⟩ := Option.map_eq_some_iff.mp hu
    have hd : d.Placed := by
      split at hd
      · exact h.detach.attach hd
      · exact (Prod.mk.inj (Option.some.inj hd)).2 ▸ h.detach
    obtain ⟨t, ht, rfl⟩ := Option.map_eq_some_iff.mp hr
    have hinv : ({ d with rxCtxsState := ~~~d.rxCtxsState } : NxDev k).Placed := hd
    have ht : t.Placed := NxDev.Placed.resetLoop hk outs hinv ht
    exact ht

/-- No step of the machine moves a context. -/
theorem placed_next (hk : k < 32) {a : CtxAction} (h : w.dev.Placed)
    (hu : (ctxMachine k).next w a = some u) : u.dev.Placed := by
  simp only [ctxMachine] at hu
  split at hu
  · exact absurd hu.symm (Option.some_ne_none _)
  · cases a with
    | alloc o =>
      obtain rfl := Option.some.inj hu
      have hp := h.alloc hk o
      rw [CtxWorld.alloc]
      split
      · rename_i he
        rwa [he] at hp
      · rename_i he
        rwa [he] at hp
    | free id beyond => exact Option.some.inj hu ▸ placed_takes_free h id beyond
    | setRule id beyond mac taken =>
      exact Option.some.inj hu ▸ placed_takes_rule h (NxDev.setRxRule_result ..)
    | removeRule id beyond ruleId taken =>
      exact Option.some.inj hu ▸ placed_takes_rule h (NxDev.removeRxRule_result ..)
    | reset attached outs => exact placed_reset hk h hu

/-- In every run each context is at the place of its id. -/
theorem placed_run (hk : k < 32) {attached : Bool} {saved : Fin (k + 1) → RxRule}
    {l : List CtxAction} (h : (ctxMachine k).run (.init attached saved) l = some w) :
    w.dev.Placed := by
  refine Machine.run_invariant (I := fun w : CtxWorld k => w.dev.Placed) (ctxMachine k)
    (fun _ _ _ hw hnext => placed_next hk hw hnext) ?_ h
  intro i c hc
  rw [init] at hc
  cases attached with
  | false => exact absurd hc.symm (Option.some_ne_none _)
  | true =>
    by_cases hi : i = 0
    · subst hi
      exact Option.some.inj ((NxDev.alloc_self _ 0).symm.trans hc) ▸ rfl
    · exact absurd ((NxDev.alloc_of_ne _ hi).symm.trans hc).symm (Option.some_ne_none _)

end CtxWorld

/-! ## When the places are in range -/

/-- RSS with several contexts: the driver that has them, on a P3 board that takes several rings,
with the parameters that turn both on and with MSI-X. -/
def RssAndContexts (p : ModuleParams) (c : Card) : Prop :=
  p.esx = true ∧ p.multiCtx ≠ 0 ∧ p.rssEnable = true ∧ nxIsRevisionP2 c.revisionId = false ∧
    1 < (unmCheckOptions p c).2 ∧ nxEnableMsiX p c (unmCheckOptions p c).1 = true

instance decidableRssAndContexts (p : ModuleParams) (c : Card) : Decidable (RssAndContexts p c) :=
  inferInstanceAs (Decidable (_ ∧ _))

theorem queues_le (p : ModuleParams) : p.queues ≤ netqMaxRxContexts := by
  rw [ModuleParams.queues]
  split
  · exact Nat.le_refl _
  · omega

/-- A board has one ring or four, and four only when it is none of a gigabit. -/
theorem unmCheckOptions_cases (p : ModuleParams) (c : Card) :
    (unmCheckOptions p c).2 = 1 ∨
      (unmCheckOptions p c).2 = cardSizedMaxRssRings ∧ p.rssEnable = true ∧ c.gbe = false := by
  cases hr : p.rssEnable with
  | false => exact .inl (by rw [unmCheckOptions, hr]; rfl)
  | true =>
    obtain ⟨boardType, pciFunc, revisionId, flashVer, memLen, pciEnableMsix⟩ := c
    cases boardType with
    | p3x10GTp =>
      -- a port of the first two is one of ten gigabits
      by_cases hp : pciFunc < 2
      · refine .inr ⟨?_, rfl, ?_⟩
        · simp [unmCheckOptions, Card.portnum, hr, hp]
        · simpa [Card.gbe] using hp
      · left
        simp [unmCheckOptions, Card.portnum, hr, hp]
    | _ => simp [unmCheckOptions, hr, Card.gbe]

/-- What a probe that succeeds leaves. -/
structure Probed (p : ModuleParams) (c : Card) (a : SdsAdapter) : Prop where
  queues : a.numRxQueues ≤ netqMaxRxContexts
  entries : cardSizedMaxRssRings ≤ a.msixEntries
  rings : a.maxPossibleRssRings = 1 ∨ a.maxPossibleRssRings = cardSizedMaxRssRings
  contexts : a.multiCtx = true → a.msixEnabled = true ∧ netqMaxRxContexts < a.msixEntries
  both : RssAndContexts p c ↔ a.multiCtx = true ∧ a.maxPossibleRssRings = cardSizedMaxRssRings

theorem probed {p : ModuleParams} {c : Card} {a : SdsAdapter} (h : unmNicProbe p c = some a) :
    Probed p c a := by
  have hentries : cardSizedMaxRssRings ≤ p.msixEntriesPerAdapter := by
    rw [ModuleParams.msixEntriesPerAdapter]
    split <;> decide
  rw [unmNicProbe] at h
  split at h
  · exact absurd h.symm (Option.some_ne_none _)
  · split at h
    · exact absurd h.symm (Option.some_ne_none _)
    · dsimp only at h
      split at h
      · rename_i hmsix
        obtain rfl := Option.some.inj h
        refine ⟨queues_le p, hentries, ?_, fun hm => ⟨rfl, ?_⟩, ?_⟩
        · exact (unmCheckOptions_cases p c).imp_right And.left
        · simp only [Bool.and_eq_true] at hm
          rw [ModuleParams.msixEntriesPerAdapter, if_pos hm.1.1.1]
          exact (by decide : netqMaxRxContexts < 16)
        · rw [RssAndContexts]
          simp only [Bool.and_eq_true, decide_eq_true_eq, Bool.not_eq_true']
          constructor
          · rintro ⟨hesx, hmulti, -, hrev, hrings, -⟩
            cases unmCheckOptions_cases p c with
            | inl hone => omega
            | inr hfour => exact ⟨⟨⟨⟨hesx, hmulti⟩, hrev⟩, hfour.2.2⟩, hfour.1⟩
          · rintro ⟨⟨⟨⟨hesx, hmulti⟩, hrev⟩, -⟩, hrings⟩
            cases unmCheckOptions_cases p c with
            | inl hone => exact absurd (hone.symm.trans hrings) (by decide)
            | inr hfour =>
              exact ⟨hesx, hmulti, hfour.2.1, hrev, hrings ▸ by decide, hmsix⟩
      · rename_i hmsix
        obtain rfl := Option.some.inj h
        refine ⟨queues_le p, hentries, .inl rfl, fun hm => absurd hm Bool.false_ne_true, ?_⟩
        exact iff_of_false (fun hb => hmsix hb.2.2.2.2.2)
          (fun hb => Bool.false_ne_true hb.1)

namespace SdsAdapter
variable {a : SdsAdapter}

theorem queues_of_multi (h : a.multiCtx = true) : a.queues = a.numRxQueues := if_pos h

theorem queues_of_single (h : a.multiCtx = false) : a.queues = 0 := by
  rw [queues, h]
  rfl

/-- With one ring for each context, a ring's places are its context's. -/
theorem inRange_of_one {p : ModuleParams} {c : Card} (ha : Probed p c a)
    (hone : a.maxPossibleRssRings = 1) {d : NxDev a.queues} (hd : d.Placed) : a.InRange d := by
  have hplace : ∀ i ctx r, a.IsRing d i ctx r →
      r = 0 ∧ a.hostSdsRing ctx r = i ∧ msixEntry ctx r = i := by
    intro i ctx r hr
    have hlt := hr.lt
    rw [ctxSdsRings, hone] at hlt
    obtain rfl : r = 0 := Nat.lt_one_iff.mp hlt
    rw [hostSdsRing, msixEntry, ctxSdsRings, hone, hd i ctx hr.live]
    exact ⟨rfl, Nat.mul_one _, Nat.zero_add _⟩
  have hapart : ∀ {i j : Fin (a.queues + 1)} {r r' : Nat}, r = 0 → r' = 0 → (i, r) ≠ (j, r') →
      i.val ≠ j.val := by
    rintro i j r r' rfl rfl hne he
    exact hne (congrArg (·, 0) (Fin.ext he))
  have hnum : a.numSdsRings = a.queues + 1 := by
    rw [numSdsRings, queues, hone]
    split <;> rfl
  refine ⟨?_, ?_, ?_, ?_⟩
  · intro i ctx r hr
    rw [(hplace i ctx r hr).2.1, hnum]
    exact i.isLt
  · intro _ i ctx r hr
    rw [(hplace i ctx r hr).2.2]
    have hi := i.isLt
    cases hm : a.multiCtx with
    | true =>
      have hq := queues_of_multi hm
      have hle := ha.queues
      have he := (ha.contexts hm).2
      omega
    | false =>
      have hq := queues_of_single hm
      have he := ha.entries
      rw [cardSizedMaxRssRings] at he
      omega
  · intro i ctx r j ctx' r' hr hr' hne
    rw [(hplace i ctx r hr).2.1, (hplace j ctx' r' hr').2.1]
    exact hapart (hplace i ctx r hr).1 (hplace j ctx' r' hr').1 hne
  · intro _ i ctx r j ctx' r' hr hr' hne
    rw [(hplace i ctx r hr).2.2, (hplace j ctx' r' hr').2.2]
    exact hapart (hplace i ctx r hr).1 (hplace j ctx' r' hr').1 hne

/-- With one context, a ring's places are its own. -/
theorem inRange_of_single {p : ModuleParams} {c : Card} (ha : Probed p c a)
    (hsingle : a.multiCtx = false) {d : NxDev a.queues} (hd : d.Placed) : a.InRange d := by
  have hzero : ∀ i : Fin (a.queues + 1), i.val = 0 := by
    intro i
    have hi := i.isLt
    have hq := queues_of_single hsingle
    omega
  have hplace : ∀ i ctx r, a.IsRing d i ctx r → a.hostSdsRing ctx r = r ∧ msixEntry ctx r = r := by
    intro i ctx r hr
    rw [hostSdsRing, msixEntry, hd i ctx hr.live, hzero i]
    exact ⟨(congrArg (· + r) (Nat.zero_mul _)).trans (Nat.zero_add r), rfl⟩
  have hapart : ∀ {i j : Fin (a.queues + 1)} {r r' : Nat}, (i, r) ≠ (j, r') → r ≠ r' := by
    rintro i j r r' hne rfl
    exact hne (congrArg (·, r) (Fin.ext ((hzero i).trans (hzero j).symm)))
  have hle : a.ctxSdsRings ≤ cardSizedMaxRssRings := by
    rw [ctxSdsRings]
    cases ha.rings with
    | inl h => rw [h]; decide
    | inr h => rw [h]
  refine ⟨?_, ?_, ?_, ?_⟩
  · intro i ctx r hr
    rw [(hplace i ctx r hr).1, numSdsRings, hsingle]
    exact hr.lt
  · intro _ i ctx r hr
    rw [(hplace i ctx r hr).2]
    exact Nat.lt_of_lt_of_le hr.lt (hle.trans ha.entries)
  · intro i ctx r j ctx' r' hr hr' hne
    rw [(hplace i ctx r hr).1, (hplace j ctx' r' hr').1]
    exact hapart hne
  · intro _ i ctx r j ctx' r' hr hr' hne
    rw [(hplace i ctx r hr).2, (hplace j ctx' r' hr').2]
    exact hapart hne

/-- **With RSS and contexts**, a second context takes an interrupt of the first one, and where
there is no second one the first has no room. -/
theorem not_inRange_of_both {p : ModuleParams} {c : Card} (ha : Probed p c a)
    (hboth : RssAndContexts p c) (saved : Fin (a.queues + 1) → RxRule) :
    ∃ l w, (ctxMachine a.queues).run (.init true saved) l = some w ∧ ¬a.InRange w.dev := by
  obtain ⟨hmulti, hrings⟩ := ha.both.mp hboth
  have hctx : a.ctxSdsRings = 4 := hrings
  have hnum : a.numSdsRings = a.queues + 1 := by rw [numSdsRings, queues, hmulti]; rfl
  have hfirst : (CtxWorld.init true saved).dev.rxCtxs 0 = some (NxDev.blank 0) :=
    NxDev.alloc_self _ 0
  by_cases hone : a.InRange (CtxWorld.init true saved).dev
  · -- there is room for the rings of the first context, so also for another context
    have hroom := hone.sds 0 (NxDev.blank 0) 3 ⟨hfirst, by omega⟩
    have hlt : 1 < a.queues + 1 := by
      rw [hostSdsRing, hnum] at hroom
      omega
    let second : Fin (a.queues + 1) := ⟨1, hlt⟩
    have hfound : (CtxWorld.init true saved).dev.findOpenRxId = some second := by
      refine NxDev.findOpenRxId_eq_some.mpr ⟨⟨?_, BitVec.getLsbD_zero⟩, fun j hj hopen => ?_⟩
      · exact NxDev.alloc_of_ne _ (Fin.ne_of_val_ne Nat.one_ne_zero)
      · obtain rfl : j = 0 := Fin.ext (Nat.lt_one_iff.mp hj)
        exact Option.some_ne_none _ (hfirst.symm.trans hopen.1)
    let w := (CtxWorld.init true saved).alloc ⟨none, false, true⟩
    have htable : w.dev.rxCtxs =
        ((CtxWorld.init true saved).dev.nxFwCmdCreateRxCtxAlloc second).rxCtxs := by
      simp only [w, CtxWorld.alloc, NxDev.nxNicMultictxAllocRxCtx, NxDev.create_succeeds hfound]
      rfl
    refine ⟨[.alloc ⟨none, false, true⟩], w, rfl, fun hin => ?_⟩
    have hr₁ : a.IsRing w.dev 0 (NxDev.blank 0) 1 := by
      refine ⟨?_, by omega⟩
      rw [htable, NxDev.alloc_of_ne _ (Fin.ne_of_val_ne Nat.zero_ne_one)]
      exact hfirst
    have hr₂ : a.IsRing w.dev second (NxDev.blank second) 0 :=
      ⟨by rw [htable]; exact NxDev.alloc_self _ _, by omega⟩
    refine hin.msixApart (ha.contexts hmulti).1 _ _ _ _ _ _ hr₁ hr₂ ?_ rfl
    exact fun he => Nat.one_ne_zero (congrArg Prod.snd he)
  · exact ⟨[], _, rfl, hone⟩

end SdsAdapter

/-- **The places of the rings are in range in every run**, and no two rings share one, exactly
unless the adapter has both RSS and several contexts.  With both, a run of allocations leads to a
context whose rings are behind the table. -/
theorem inRange_iff {p : ModuleParams} {c : Card} {a : SdsAdapter} (h : unmNicProbe p c = some a) :
    (∀ attached saved l w, (ctxMachine a.queues).run (.init attached saved) l = some w →
      a.InRange w.dev) ↔ ¬RssAndContexts p c := by
  have ha := probed h
  constructor
  · intro hall hboth
    obtain ⟨l, w, hrun, hnot⟩ := SdsAdapter.not_inRange_of_both ha hboth fun _ => ⟨0, false, 0⟩
    exact hnot (hall true _ l w hrun)
  · intro hnot attached saved l w hrun
    have hk : a.queues < 32 := by
      cases hm : a.multiCtx with
      | true =>
        rw [SdsAdapter.queues_of_multi hm]
        exact Nat.lt_of_le_of_lt ha.queues (by decide)
      | false =>
        rw [SdsAdapter.queues_of_single hm]
        decide
    have hd := CtxWorld.placed_run hk hrun
    cases hm : a.multiCtx with
    | true =>
      refine SdsAdapter.inRange_of_one ha (ha.rings.resolve_right fun hfour => ?_) hd
      exact hnot (ha.both.mpr ⟨hm, hfour⟩)
    | false => exact SdsAdapter.inRange_of_single ha hm hd

/-- The parameters of a driver with several contexts, as they are by default but for RSS. -/
def queuesParams (rssEnable : Bool) : ModuleParams := ⟨true, rssEnable, true, 1, 15⟩

/-- A board that takes several rings, with all its interrupts granted. -/
def sfpCard : Card := ⟨.p3x10GSfpPlus, 0, 0x30, ⟨4, 0, 556⟩, unmPci2MbSize, 0⟩

/-- What the probe of that board leaves. -/
def queuesAdapter (rings : Nat) : SdsAdapter := ⟨true, rings, true, 15, 16⟩

/-- With the parameters as they are by default the probe leaves one ring for each context, and every
run keeps them in range. -/
theorem inRange_default :
    unmNicProbe (queuesParams false) sfpCard = some (queuesAdapter 1) ∧
      ∀ attached saved l w, (ctxMachine 15).run (.init attached saved) l = some w →
        (queuesAdapter 1).InRange w.dev :=
  have hprobe : unmNicProbe (queuesParams false) sfpCard = some (queuesAdapter 1) := by
    decide +kernel
  ⟨hprobe, (inRange_iff hprobe).mpr (by decide +kernel)⟩

/-- A queue is allocated, and nothing fails. -/
def allocOk : CtxAction := .alloc ⟨none, false, true⟩

/-- With RSS enabled as well, the fifth context has its first ring behind the end of the table, and
the first interrupt of the second context is the second one of the first. -/
theorem rss_out_of_range :
    unmNicProbe (queuesParams true) sfpCard = some (queuesAdapter 4) ∧
      ∃ w : CtxWorld 15,
        (ctxMachine 15).run (.init true fun _ => ⟨0, false, 0⟩) (List.replicate 4 allocOk) =
            some w ∧
          (queuesAdapter 4).IsRing w.dev 4 (NxDev.blank 4) 0 ∧
          (queuesAdapter 4).hostSdsRing (NxDev.blank (k := 15) 4) 0 = 16 ∧
          (queuesAdapter 4).numSdsRings = 16 ∧
          SdsAdapter.msixEntry (NxDev.blank (k := 15) 1) 0 =
            SdsAdapter.msixEntry (NxDev.blank (k := 15) 0) 1 ∧
          ¬(queuesAdapter 4).InRange w.dev := by
  have hrun : ((ctxMachine 15).run (.init true fun _ => ⟨0, false, 0⟩)
      (List.replicate 4 allocOk)).bind (fun w => w.dev.rxCtxs 4) = some (NxDev.blank 4) := by
    decide +kernel
  obtain ⟨w, hw, hlive⟩ := Option.bind_eq_some_iff.mp hrun
  have hring : (queuesAdapter 4).IsRing w.dev 4 (NxDev.blank 4) 0 := ⟨hlive, by decide⟩
  refine ⟨by decide +kernel, w, hw, hring, rfl, rfl, rfl, fun hin => ?_⟩
  exact absurd (hin.sds _ _ _ hring) (by decide)

end Ctx
end NxNic

import NxNic.Mac.P2Registers

/-! # Ports that share a P2

A P2 has its registers for all ports together: each port has its own configuration, station
address, pool and table, and they share the port mode, the register that controls the filters, the
frame counter with its selection, and the drop register.  The state of the card
(`Turns`) is these registers and, for each port, either the adapter it is left with between its
calls or the program of the call it is in.  A step is one register access of one port's call, or
the start of a call: `unm_nic_open`, `unm_nic_close`, a change of the list or of the address.
What the counter reads comes with the step.

The bottom of the module says what each function does to the parts of the registers, from the
accesses up to the calls (`P2Registers` has the functions as programs): which regions it changes
and what it leaves in its own.  From these `call_meets` has the outcome of a whole call as a
postcondition that the accesses of the others cannot spoil, since what a port sees of the
registers is its own.

**The result** is `P2Card.run_tracked`: between its calls each port's registers are as `Tracks`
has them, whatever the other ports did meanwhile.  The receiver and the promiscuous bit are as the
adapter's flag, which is as the last list wanted it unless the change of mode returned an error;
the filter is enabled just if that list was for the table, and then the table holds it; the
station registers have the adapter's address while the port is up.  The pool keeps the address that
the adapter had when the filter was last switched on, `filterMac`, for a later `unm_nic_set_mac`
does not write it.  The shared control register is tracked where lists are for one port only.
-/
namespace NxNic
namespace Mac
open Words

/-! ## One function after another -/

/-- What the calls for a port may read and write. -/
structure P2Board.May (b : P2Board) (sees owns : Nat → Prop) : Prop where
  sees : ∀ g x, b.In g x → g ≠ .cntl → g ≠ .select → g ≠ .drop → sees x
  owns : ∀ g x, b.In g x → g ≠ .cntl → g ≠ .portMode → owns x

section Functions
variable {b : P2Board} {sees owns : Nat → Prop} {r : Regs}

theorem not_live_of_in {g : Region} {x : Nat} (h : b.In g x) : ¬ Live x := by
  have hle := b.physicalPort_le
  rw [P2Board.In] at h
  rw [Live]
  intro heq
  cases g <;>
    dsimp only [Region.place, unmNiuXgeConfig0, unmNiuApStationAddr0, unmUnicastAddr, unmMcastAddr,
      unmPortModeAddr, unmMacAddrCntlReg, unmNiuFrameCountSelect, unmNiuGbDropWrongaddr,
      unmNiuFrameCount, unmCrbNiu, unmPciCrbWindow] at h heq <;>
    omega

theorem nxrd32_meets (may : b.May sees owns) {Q : BitVec 32 → Regs → Prop} {g : Region} {x : Nat}
    (hx : b.In g x) (hg : g ≠ .cntl ∧ g ≠ .select ∧ g ≠ .drop) (h : Q (r x) r) :
    (nxrd32 x).Meets sees owns Live Q r :=
  .inr ⟨not_live_of_in hx, may.sees g x hx hg.1 hg.2.1 hg.2.2, h⟩

theorem nxwr32_meets {Q : Unit → Regs → Prop} {x : Nat} {d : BitVec 32} (hx : owns x)
    (h : Q () (Function.update r x d)) : (nxwr32 x d).Meets sees owns Live Q r := ⟨hx, h⟩

theorem drain_meets {Q : Int → Regs → Prop} (left : Nat) (h : Q 0 r) (h' : Q (-1) r) :
    (drain left).Meets sees owns Live Q r := by
  induction left with
  | zero => exact .inl ⟨rfl, fun _ => h'⟩
  | succ left ih =>
    refine .inl ⟨rfl, fun d => ?_⟩
    show (if d = 0 then (return 0) else drain left : Niu Int).Meets sees owns Live Q r
    split
    · exact h
    · exact ih

theorem setConfig1_meets (may : b.May sees owns) {mode : Bool} {ret : Int}
    {Q : Unit → Regs → Prop}
    (h : ∀ r', b.Changes [.config] r r' →
      (r' (unmNiuXgeConfig1 b.physicalPort)).getLsbD 13 =
        (if ret ≠ -1 then mode else (r (unmNiuXgeConfig1 b.physicalPort)).getLsbD 13) → Q () r') :
    (setConfig1 b mode ret).Meets sees owns Live Q r := by
  rw [setConfig1]
  by_cases hret : ret ≠ -1
  · rw [if_pos hret]
    refine Prog.meets_bind.mpr (nxrd32_meets may (in_config1 (b := b)) (by decide) ?_)
    refine nxwr32_meets (may.owns .config _ in_config1 (by decide) (by decide)) (h _ ?_ ?_)
    · exact P2Board.Changes.refl.update (by decide) in_config1 _
    · rw [Function.update_self, if_pos hret]
      cases mode with
      | true => simp
      | false => simp
  · rw [if_neg hret]
    exact h r .refl (by rw [if_neg hret])

/-- The promiscuous mode was changed, if `ret` is 0. -/
structure Switched (b : P2Board) (mode : Bool) (ret : Int) (r r' : Regs) : Prop where
  changes : b.Changes [.config, .select, .drop] r r'
  rxEnable : (r (unmNiuXgeConfig0 b.physicalPort)).getLsbD 2 = true →
    (r' (unmNiuXgeConfig0 b.physicalPort)).getLsbD 2 = true
  ap : r unmPortModeAddr = unmPortMode8023Ap →
    (r' (unmNiuXgeConfig1 b.physicalPort)).getLsbD 13 =
      (r (unmNiuXgeConfig1 b.physicalPort)).getLsbD 13
  mode : r unmPortModeAddr ≠ unmPortMode8023Ap →
    (r' (unmNiuXgeConfig1 b.physicalPort)).getLsbD 13 =
      if ret = 0 then mode else (r (unmNiuXgeConfig1 b.physicalPort)).getLsbD 13

/-- **The promiscuous mode** is changed when the frames are gone in time, and the receiver is
switched on again in either case. -/
theorem setPromiscuousMode_meets (may : b.May sees owns) (mode : Bool) {Q : Int → Regs → Prop}
    (h : ∀ ret r', Switched b mode ret r r' → Q ret r') :
    (unmNiuXgSetPromiscuousMode b mode).Meets sees owns Live Q r := by
  rw [unmNiuXgSetPromiscuousMode]
  split
  · exact h (-1) r ⟨.refl, fun hrx => hrx, fun _ => rfl, fun _ => rfl⟩
  refine Prog.meets_bind.mpr (nxrd32_meets may (in_portMode (b := b)) (by decide) ?_)
  split
  · rename_i hap
    refine Prog.meets_bind.mpr (nxwr32_meets (may.owns .drop _ in_drop (by decide) (by decide)) ?_)
    have hchanges : b.Changes [.drop] r (Function.update r unmNiuGbDropWrongaddr 0) :=
      P2Board.Changes.refl.update (by decide) in_drop _
    have hconfig := hchanges.same (g := .config) (by decide)
    refine h 0 _ ⟨hchanges.mono (by decide), fun hrx => ?_, fun _ => ?_, fun hne => absurd hap hne⟩
    · rw [hconfig _ in_config0]
      exact hrx
    · rw [hconfig _ in_config1]
  rename_i hap
  refine Prog.meets_bind.mpr (nxrd32_meets may (in_config0 (b := b)) (by decide) ?_)
  refine Prog.meets_bind.mpr
    (nxwr32_meets (may.owns .config _ in_config0 (by decide) (by decide)) ?_)
  refine Prog.meets_bind.mpr
    (nxwr32_meets (may.owns .select _ in_select (by decide) (by decide)) ?_)
  generalize hr₁ : Function.update (Function.update r _ _) unmNiuFrameCountSelect _ = r₁
  have hchanges : b.Changes [.config, .select, .drop] r r₁ := by
    rw [← hr₁]
    exact (P2Board.Changes.refl.update (by decide) in_config0 _).update (by decide) in_select _
  have hbit : r₁ (unmNiuXgeConfig1 b.physicalPort) = r (unmNiuXgeConfig1 b.physicalPort) := by
    rw [← hr₁, Function.update_of_ne (in_config1.ne in_select (by decide)),
      Function.update_of_ne config0_ne_config1.symm]
  -- what is left, whether the frames are gone or not
  have hrest : ∀ ret, (ret = 0 ↔ ret ≠ -1) → (do
      setConfig1 b mode ret
      nxwr32 (unmNiuXgeConfig0 b.physicalPort) (r (unmNiuXgeConfig0 b.physicalPort) &&& ~~~4 ||| 4)
      return ret : Niu Int).Meets sees owns Live Q r₁ := by
    intro ret hret
    refine Prog.meets_bind.mpr (setConfig1_meets may fun r₂ hchanges₂ hbit₂ => ?_)
    refine Prog.meets_bind.mpr
      (nxwr32_meets (may.owns .config _ in_config0 (by decide) (by decide)) ?_)
    refine h ret _ ⟨?_, fun _ => ?_, fun hmode => absurd hmode hap, fun _ => ?_⟩
    · exact (hchanges.trans (hchanges₂.mono (by decide))).update (by decide) in_config0 _
    · rw [Function.update_self]
      simp
    · rw [Function.update_of_ne config0_ne_config1.symm, hbit₂, hbit]
      exact if_congr hret.symm rfl rfl
  exact Prog.meets_bind.mpr (drain_meets 20 (hrest 0 (by decide)) (hrest (-1) (by decide)))

theorem changePromiscMode_meets (may : b.May sees owns) {mode : Bool} {a : P2Adapter}
    (hset : PromiscSet b a.promisc r) {Q : Int × P2Adapter → Regs → Prop}
    (h : ∀ ret r', b.Changes [.config, .select, .drop] r r' →
      PromiscSet b (if ret = 0 then mode else a.promisc) r' →
      Q (ret, { a with promisc := if ret = 0 then mode else a.promisc }) r') :
    (changePromiscMode b mode a).Meets sees owns Live Q r := by
  rw [changePromiscMode]
  by_cases hmode : a.promisc = mode
  · rw [if_pos hmode]
    have hsame := h 0 r .refl
    rw [if_pos rfl, ← hmode] at hsame
    exact hsame hset
  rw [if_neg hmode]
  refine Prog.meets_bind.mpr (setPromiscuousMode_meets may mode fun ret r' hswitched => ?_)
  have hport := hswitched.changes.same (g := .portMode) (by decide) _ in_portMode
  have hafter := h ret r' hswitched.changes ⟨hswitched.rxEnable hset.rxEnable, ?_, ?_⟩
  · refine Eq.subst (motive := fun x => Q (ret, x) r') ?_ hafter
    split <;> rfl
  · rw [hport]
    intro hap
    rw [hswitched.ap hap, hset.ap hap]
  · rw [hport]
    intro hap
    rw [hswitched.mode hap, hset.mode hap]

/-- **The filter is switched on.** -/
theorem enableMcastFilter_meets (may : b.May sees owns) (hcntl : owns unmMacAddrCntlReg)
    {alone : Prop} {a : P2Adapter} {filterMac : Option Bytes}
    (hset : FilterSet b alone a.mcEnabled filterMac r) {Q : P2Adapter → Regs → Prop}
    (h : ∀ r', b.Changes [.pool, .cntl] r r' →
      FilterSet b alone true (if true = a.mcEnabled then filterMac else some a.macAddr) r' →
      Q { a with mcEnabled := true } r') :
    (unmNicEnableMcastFilter b a).Meets sees owns Live Q r := by
  rw [unmNicEnableMcastFilter]
  by_cases hon : a.mcEnabled = true
  · rw [if_pos hon]
    have hsame := h r .refl
    rw [if_pos hon.symm, ← hon] at hsame
    exact hsame hset
  rw [if_neg hon]
  rw [if_neg (Ne.symm hon)] at h
  have hpool : ∀ i k, i < 4 → k < 8 → owns (unmUnicastAddr b.physicalPort i + k) :=
    fun _ _ hi hk => may.owns .pool _ (in_pool hi hk) (by decide) (by decide)
  refine Prog.meets_bind.mpr (nxwr32_meets hcntl ?_)
  refine Prog.meets_bind.mpr (nxwr32_meets (hpool 0 0 (by decide) (by decide)) ?_)
  refine Prog.meets_bind.mpr (nxwr32_meets (hpool 0 4 (by decide) (by decide)) ?_)
  refine Prog.meets_bind.mpr (nxwr32_meets (hpool 1 0 (by decide) (by decide)) ?_)
  refine Prog.meets_bind.mpr (nxwr32_meets (hpool 1 4 (by decide) (by decide)) ?_)
  have hbytes : ∀ k, k < 3 → byte (0xffffff#32) k = broadcast k := by decide
  refine h _ ?_ ⟨⟨fun _ => ⟨?_, a.macAddr, rfl, ?_⟩, fun hoff => absurd hoff (by decide)⟩,
    fun _ => ⟨fun _ => ?_, fun hoff => absurd hoff (by decide)⟩⟩
  · have hrefl : b.Changes [.pool, .cntl] r r := .refl
    have hcntl := hrefl.update (by decide) (in_cntl (b := b)) (cntlWord b)
    exact (((hcntl.update (by decide) (in_pool (i := 0) (k := 0) (by decide) (by decide)) _).update
      (by decide) (in_pool (by decide) (by decide)) _).update (by decide)
      (in_pool (i := 1) (k := 0) (by decide) (by decide)) _).update (by decide)
      (in_pool (by decide) (by decide)) _
  · refine ((entry_update_update hbytes fun k hk => hbytes k hk).update ?_ ?_ _).update ?_ ?_ _
    all_goals dsimp only [unmUnicastAddr]; omega
  · exact entry_memcpyWord _ _
  · have hne : ∀ i k, i < 4 → k < 8 → unmMacAddrCntlReg ≠ unmUnicastAddr b.physicalPort i + k :=
      fun i k hi hk => in_cntl.ne (in_pool hi hk) (by decide)
    have hfirst : ∀ i, i < 4 → unmMacAddrCntlReg ≠ unmUnicastAddr b.physicalPort i :=
      fun i hi => hne i 0 hi (by decide)
    rw [Function.update_of_ne (hne 1 4 (by decide) (by decide)),
      Function.update_of_ne (hfirst 1 (by decide)),
      Function.update_of_ne (hne 0 4 (by decide) (by decide)),
      Function.update_of_ne (hfirst 0 (by decide)), Function.update_self]

/-- **The filter is switched off**, for all ports, and the pool is just for the adapter's
address. -/
theorem disableMcastFilter_meets (may : b.May sees owns) {alone : Prop} {a : P2Adapter}
    (hcntl : a.mcEnabled = true → owns unmMacAddrCntlReg) {filterMac : Option Bytes}
    (hset : FilterSet b alone a.mcEnabled filterMac r) {Q : P2Adapter → Regs → Prop}
    (h : ∀ r', b.Changes [.pool, .cntl] r r' →
      FilterSet b alone false (if false = a.mcEnabled then filterMac else some a.macAddr) r' →
      Q { a with mcEnabled := false } r') :
    (unmNicDisableMcastFilter b a).Meets sees owns Live Q r := by
  rw [unmNicDisableMcastFilter]
  by_cases hon : a.mcEnabled = true
  swap
  · rw [if_neg hon]
    have hsame := h r .refl
    rw [if_pos (Bool.eq_false_iff.mpr hon).symm, ← Bool.eq_false_iff.mpr hon] at hsame
    exact hsame hset
  rw [if_pos hon]
  rw [if_neg (by rw [hon]; exact Bool.noConfusion)] at h
  have hpool : ∀ i k, i < 4 → k < 8 → owns (unmUnicastAddr b.physicalPort i + k) :=
    fun _ _ hi hk => may.owns .pool _ (in_pool hi hk) (by decide) (by decide)
  refine Prog.meets_bind.mpr (nxwr32_meets (hcntl hon) ?_)
  refine Prog.meets_bind.mpr (nxwr32_meets (hpool 0 0 (by decide) (by decide)) ?_)
  refine Prog.meets_bind.mpr (nxwr32_meets (hpool 0 4 (by decide) (by decide)) ?_)
  refine h _ ?_ ⟨⟨fun hoff => absurd hoff (by decide), fun _ mac hmac => ?_⟩,
    fun _ => ⟨fun hoff => absurd hoff (by decide), fun _ _ => ?_⟩⟩
  · have hrefl : b.Changes [.pool, .cntl] r r := .refl
    have hcntl := hrefl.update (by decide) (in_cntl (b := b)) 0
    exact (hcntl.update (by decide) (in_pool (i := 0) (k := 0) (by decide) (by decide)) _).update
      (by decide) (in_pool (by decide) (by decide)) _
  · obtain rfl := Option.some.inj hmac
    exact entry_memcpyWord _ _
  · have hne : ∀ i k, i < 4 → k < 8 → unmMacAddrCntlReg ≠ unmUnicastAddr b.physicalPort i + k :=
      fun i k hi hk => in_cntl.ne (in_pool hi hk) (by decide)
    have hfirst : unmMacAddrCntlReg ≠ unmUnicastAddr b.physicalPort 0 :=
      hne 0 0 (by decide) (by decide)
    rw [Function.update_of_ne (hne 0 4 (by decide) (by decide)), Function.update_of_ne hfirst,
      Function.update_self]

theorem setMcastAddr_meets (may : b.May sees owns) {index : Nat} (hindex : index < 16)
    {addr : Bytes} {Q : Unit → Regs → Prop}
    (h : ∀ r', b.Changes [.table] r r' →
      (∀ i, i ≠ index → ∀ mac, Entry r (unmMcastAddr b.physicalPort i) mac →
        Entry r' (unmMcastAddr b.physicalPort i) mac) →
      Entry r' (unmMcastAddr b.physicalPort index) addr → Q () r') :
    (unmNicSetMcastAddr b index addr).Meets sees owns Live Q r := by
  have hin : ∀ k, k < 8 → b.In .table (unmMcastAddr b.physicalPort index + k) :=
    fun k hk => in_table hindex hk
  have hzero : b.In .table (unmMcastAddr b.physicalPort index) := hin 0 (by decide)
  rw [unmNicSetMcastAddr]
  refine Prog.meets_bind.mpr (nxwr32_meets (may.owns .table _ hzero (by decide) (by decide)) ?_)
  refine nxwr32_meets (may.owns .table _ (hin 4 (by decide)) (by decide) (by decide)) (h _ ?_ ?_ ?_)
  · exact (P2Board.Changes.refl.update (by decide) hzero _).update (by decide)
      (hin 4 (by decide)) _
  · intro i hi mac hentry
    refine (hentry.update ?_ ?_ _).update ?_ ?_ _
    all_goals dsimp only [unmMcastAddr]; omega
  · exact entry_memcpyWord _ _

/-- The loop over the list fills the table from `index` on. -/
theorem setMcastAddrs_meets (may : b.May sees owns) {index : Nat} {l : List Bytes}
    (hroom : index + l.length ≤ 16) {Q : Nat → Regs → Prop}
    (h : ∀ r', b.Changes [.table] r r' →
      (∀ i, i < index → ∀ mac, Entry r (unmMcastAddr b.physicalPort i) mac →
        Entry r' (unmMcastAddr b.physicalPort i) mac) →
      (∀ i, i < l.length →
        Entry r' (unmMcastAddr b.physicalPort (index + i)) (l.getD i nullAddr)) →
      Q (index + l.length) r') :
    (setMcastAddrs b index l).Meets sees owns Live Q r := by
  induction l generalizing index r with
  | nil => exact h r .refl (fun _ _ _ he => he) fun i hi => absurd hi (Nat.not_lt_zero i)
  | cons addr rest ih =>
    rw [List.length_cons] at hroom h
    rw [setMcastAddrs]
    refine Prog.meets_bind.mpr
      (setMcastAddr_meets may (by omega) fun r₁ hchanges hothers hnew => ?_)
    refine ih (by omega) fun r₂ hchanges' hothers' hrest => ?_
    rw [Nat.add_right_comm, Nat.add_assoc]
    refine h r₂ (hchanges.trans hchanges') (fun i hi mac hentry => ?_) fun i hi => ?_
    · exact hothers' i (by omega) mac (hothers i (by omega) mac hentry)
    · cases i with
      | zero => exact hothers' index (by omega) addr hnew
      | succ i =>
        have hentry := hrest i (by omega)
        rw [Nat.add_right_comm, Nat.add_assoc] at hentry
        exact hentry

/-- The rest of the table is cleared. -/
theorem clearMcastAddrs_meets (may : b.May sees owns) {index n : Nat} (hroom : index + n ≤ 16)
    {Q : Unit → Regs → Prop}
    (h : ∀ r', b.Changes [.table] r r' →
      (∀ i, i < index → ∀ mac, Entry r (unmMcastAddr b.physicalPort i) mac →
        Entry r' (unmMcastAddr b.physicalPort i) mac) →
      (∀ i, i < n → Entry r' (unmMcastAddr b.physicalPort (index + i)) nullAddr) → Q () r') :
    (clearMcastAddrs b index n).Meets sees owns Live Q r := by
  induction n generalizing index r with
  | zero => exact h r .refl (fun _ _ _ he => he) fun i hi => absurd hi (Nat.not_lt_zero i)
  | succ n ih =>
    rw [clearMcastAddrs]
    refine Prog.meets_bind.mpr
      (setMcastAddr_meets may (by omega) fun r₁ hchanges hothers hnew => ?_)
    refine ih (by omega) fun r₂ hchanges' hothers' hrest => ?_
    refine h r₂ (hchanges.trans hchanges') (fun i hi mac hentry => ?_) fun i hi => ?_
    · exact hothers' i (by omega) mac (hothers i (by omega) mac hentry)
    · cases i with
      | zero => exact hothers' index (by omega) nullAddr hnew
      | succ i =>
        have hentry := hrest i (by omega)
        rw [Nat.add_right_comm, Nat.add_assoc] at hentry
        exact hentry

/-- **The table** is the list, and no more. -/
theorem mcastTable_meets (may : b.May sees owns) {l : List Bytes} (hl : l.length ≤ b.maxMcCount)
    {Q : Unit → Regs → Prop}
    (h : ∀ r', b.Changes [.table] r r' → TableSet b l r' → Q () r') :
    (setMcastAddrs b 0 l).Meets sees owns Live (fun index r =>
      (clearMcastAddrs b index (b.maxMcCount - index)).Meets sees owns Live Q r) r := by
  have hmax := b.maxMcCount_le
  refine setMcastAddrs_meets may (by omega) fun r₁ hchanges _ hlist => ?_
  rw [Nat.zero_add]
  refine clearMcastAddrs_meets may (by omega) fun r₂ hchanges' hothers hrest => ?_
  refine h r₂ (hchanges.trans hchanges') fun i hi => ?_
  by_cases hin : i < l.length
  · have hentry := hlist i hin
    rw [Nat.zero_add] at hentry
    exact hothers i hin _ hentry
  · have hentry := hrest (i - l.length) (by omega)
    rw [Nat.add_sub_of_le (by omega)] at hentry
    rw [List.getD_eq_default _ _ (by omega)]
    exact hentry

theorem setStation_meets {addr0 addr1 : Nat} {addr : Bytes} (hne : addr0 ≠ addr1)
    (h₀ : owns addr0) (h₁ : owns addr1) {Q : Unit → Regs → Prop}
    (h : ∀ d d', StationAt (Function.update (Function.update r addr1 d) addr0 d') addr0 addr1 addr →
      Q () (Function.update (Function.update r addr1 d) addr0 d')) :
    (setStation addr0 addr1 addr).Meets sees owns Live Q r := by
  rw [setStation]
  refine Prog.meets_bind.mpr (nxwr32_meets h₁ (nxwr32_meets h₀ (h _ _ ⟨fun k hk => ?_, ?_⟩)))
  · rw [Function.update_of_ne hne.symm, Function.update_self, byte_shiftLeft _ 2 (by omega),
      if_neg (by omega), Nat.add_sub_cancel_left, byte_memcpyWord _ _ _ (by omega), if_pos hk]
  · intro k hk
    rw [Function.update_self, byte_memcpyWord _ _ _ hk, if_pos hk]

/-- What both ports of an XG card do. -/
theorem station_meets (may : b.May sees owns) {addr : Bytes} {addr0 addr1 : Nat}
    (h₀ : addr0 = unmNiuXgeConfig0 b.physicalPort + 0xc)
    (h₁ : addr1 = unmNiuXgeConfig0 b.physicalPort + 0x10) {Q : Int → Regs → Prop}
    (h : ∀ r', b.Changes [.station, .apStation] r r' → StationSet b addr r' → Q 0 r') :
    (do
      let portMode ← nxrd32 unmPortModeAddr
      if portMode = unmPortMode8023Ap then do
        setStation (unmNiuApStationAddr0 b.physicalPort) (unmNiuApStationAddr1 b.physicalPort) addr
        return 0
      else do
        setStation addr0 addr1 addr
        return 0 : Niu Int).Meets sees owns Live Q r := by
  refine Prog.meets_bind.mpr (nxrd32_meets may (in_portMode (b := b)) (by decide) ?_)
  have howns : ∀ g x, b.In g x → g = .station ∨ g = .apStation → owns x := by
    rintro g x hx (rfl | rfl)
    · exact may.owns .station x hx (by decide) (by decide)
    · exact may.owns .apStation x hx (by decide) (by decide)
  split
  · rename_i hap
    refine Prog.meets_bind.mpr (setStation_meets ?_ (howns _ _ in_apStation0 (.inr rfl))
      (howns _ _ in_apStation1 (.inr rfl)) fun d d' hstation => ?_)
    · dsimp only [unmNiuApStationAddr0, unmNiuApStationAddr1]
      omega
    have hchanges : b.Changes [.station, .apStation] r (Function.update (Function.update r
        (unmNiuApStationAddr1 b.physicalPort) d) (unmNiuApStationAddr0 b.physicalPort) d') :=
      (P2Board.Changes.refl.update (by decide) in_apStation1 d).update (by decide) in_apStation0 d'
    refine h _ hchanges fun _ => ?_
    rw [hchanges.same (g := .portMode) (by decide) _ in_portMode, if_pos hap]
    exact hstation
  · rename_i hap
    subst h₀ h₁
    refine Prog.meets_bind.mpr (setStation_meets (by omega) (howns _ _ in_station0 (.inl rfl))
      (howns _ _ in_station1 (.inl rfl)) fun d d' hstation => ?_)
    have hchanges : b.Changes [.station, .apStation] r (Function.update (Function.update r
        (unmNiuXgeConfig0 b.physicalPort + 0x10) d) (unmNiuXgeConfig0 b.physicalPort + 0xc) d') :=
      (P2Board.Changes.refl.update (by decide) in_station1 d).update (by decide) in_station0 d'
    refine h _ hchanges fun _ => ?_
    rw [hchanges.same (g := .portMode) (by decide) _ in_portMode, if_neg hap]
    exact hstation

theorem xgMacaddrSet_meets (may : b.May sees owns) {addr : Bytes} {Q : Int → Regs → Prop}
    (h : ∀ r', b.Changes [.station, .apStation] r r' → StationSet b addr r' → Q 0 r') :
    (unmNiuXgMacaddrSet b addr).Meets sees owns Live Q r := by
  rw [unmNiuXgMacaddrSet]
  split
  · rename_i hport
    have h₀ : unmNiuXgeStationAddr0Hi = unmNiuXgeConfig0 b.physicalPort + 0xc := by
      rw [hport]
      rfl
    have h₁ : unmNiuXgeStationAddr01 = unmNiuXgeConfig0 b.physicalPort + 0x10 := by
      rw [hport]
      rfl
    have hmeets := station_meets may h₀ h₁ h
    rw [hport] at hmeets
    exact hmeets
  · rename_i hport
    have h₀ : unmNiuXg1StationAddr0Hi = unmNiuXgeConfig0 b.physicalPort + 0xc := by
      rw [hport]
      rfl
    have h₁ : unmNiuXg1StationAddr01 = unmNiuXgeConfig0 b.physicalPort + 0x10 := by
      rw [hport]
      rfl
    have hmeets := station_meets may h₀ h₁ h
    rw [hport] at hmeets
    exact hmeets
  · rename_i hzero hone
    refine h r .refl fun hport => ?_
    rcases Nat.le_one_iff_eq_zero_or_eq_one.mp hport with hport | hport
    · exact absurd hport hzero
    · exact absurd hport hone

theorem initPort_meets (may : b.May sees owns) {Q : Int → Regs → Prop}
    (h : ∀ r', b.Changes [.config] r r' → PromiscSet b false r' → Q 0 r') :
    (unmNicInitPort b).Meets sees owns Live Q r := by
  rw [unmNicInitPort]
  have howns : ∀ x, b.In .config x → owns x :=
    fun x hx => may.owns .config x hx (by decide) (by decide)
  refine Prog.meets_bind.mpr (nxwr32_meets (howns _ in_config0) ?_)
  refine Prog.meets_bind.mpr (nxrd32_meets may (in_config1 (b := b)) (by decide) ?_)
  refine Prog.meets_bind.mpr (nxwr32_meets (howns _ in_config1) (h _ ?_ ⟨?_, ?_, ?_⟩))
  · exact (P2Board.Changes.refl.update (by decide) in_config0 _).update (by decide) in_config1 _
  · rw [Function.update_of_ne config0_ne_config1, Function.update_self]
    decide
  · rw [Function.update_self]
    simp
  · rw [Function.update_self]
    simp

theorem stopPort_meets (may : b.May sees owns) {a : P2Adapter} {Q : P2Adapter → Regs → Prop}
    (h : ∀ r', b.Changes [.config] r r' → Q { a with promisc := false } r') :
    (nxNicP2StopPort b a).Meets sees owns Live Q r := by
  rw [nxNicP2StopPort, unmNiuDisableXgPort]
  refine Prog.meets_bind.mpr ?_
  split
  · exact h r .refl
  · refine Prog.meets_bind.mpr (nxwr32_meets (may.owns .config _ in_config0 (by decide) (by decide))
      (h _ ?_))
    exact P2Board.Changes.refl.update (by decide) in_config0 _

/-! ## The filters of a port -/

/-- The list is for the table. -/
def P2Board.Filtered (b : P2Board) (dev : P2NetDevice) : Prop :=
  dev.promisc = false ∧ dev.mcList.length ≤ b.maxMcCount ∧ dev.mcList ≠ []

instance filteredDecidable (b : P2Board) (dev : P2NetDevice) : Decidable (b.Filtered dev) :=
  inferInstanceAs (Decidable (_ ∧ _ ∧ _))

/-- The port is to take what is not for it: the filters are behind the mode. -/
def P2NetDevice.wantsPromisc (dev : P2NetDevice) : Bool := dev.promisc || !dev.mcList.isEmpty

/-- The adapter and the registers after `nx_nic_p2_set_multi`. -/
structure Multi (b : P2Board) (alone : Prop) (dev : P2NetDevice) (filterMac : Option Bytes)
    (a : P2Adapter) (ret : Int) (a' : P2Adapter) (r' : Regs) : Prop where
  macAddr : a'.macAddr = a.macAddr
  enabled : a'.mcEnabled = decide (b.Filtered dev)
  promisc : PromiscSet b a'.promisc r'
  filter : FilterSet b alone a'.mcEnabled
    (if a'.mcEnabled = a.mcEnabled then filterMac else some a'.macAddr) r'
  table : b.Filtered dev → TableSet b dev.mcList r'
  wanted : ret = 0 → a'.promisc = dev.wantsPromisc

/-- **One call** of `nx_nic_p2_set_multi`. -/
theorem setMulti_meets (may : b.May sees owns) {alone : Prop} {dev : P2NetDevice} {a : P2Adapter}
    {filterMac : Option Bytes}
    (hcntl : a.mcEnabled = true ∨ b.Filtered dev → owns unmMacAddrCntlReg)
    (hpromisc : PromiscSet b a.promisc r) (hfilter : FilterSet b alone a.mcEnabled filterMac r)
    {Q : Int × P2Adapter → Regs → Prop}
    (h : ∀ ret a' r', b.Changes [.config, .select, .drop, .pool, .cntl, .table] r r' →
      Multi b alone dev filterMac a ret a' r' → Q (ret, a') r') :
    (nxNicP2SetMulti b dev a).Meets sees owns Live Q r := by
  -- the mode is changed first, and then the filter switched off, in two of the cases
  have hoff : ∀ mode, ¬ b.Filtered dev → mode = dev.wantsPromisc → (do
      let x ← changePromiscMode b mode a
      let a ← unmNicDisableMcastFilter b x.2
      return (x.1, a) : Niu (Int × P2Adapter)).Meets sees owns Live Q r := by
    intro mode hnot hmode
    refine Prog.meets_bind.mpr
      (changePromiscMode_meets may hpromisc fun ret r₁ hchanges hpromisc₁ => ?_)
    have hfilter₁ : FilterSet b alone a.mcEnabled filterMac r₁ :=
      hfilter.elsewhere hchanges (by decide)
    refine Prog.meets_bind.mpr (disableMcastFilter_meets may
      (a := { a with promisc := if ret = 0 then mode else a.promisc })
      (fun hon => hcntl (.inl hon)) hfilter₁ fun r₂ hchanges₂ hfilter₂ => ?_)
    refine h ret _ r₂ ((hchanges.mono (by decide)).trans (hchanges₂.mono (by decide)))
      ⟨rfl, (decide_eq_false hnot).symm, ?_, ?_, fun hyes => absurd hyes hnot, fun hret => ?_⟩
    · exact hpromisc₁.elsewhere hchanges₂ (by decide)
    · exact hfilter₂
    · rw [← hmode]
      exact if_pos hret
  rw [nxNicP2SetMulti]
  split
  · rename_i hall
    refine hoff true (fun hyes => ?_) ?_
    · rcases hall with hdev | hlong
      · exact Bool.noConfusion (hyes.1.symm.trans hdev)
      · exact absurd hyes.2.1 (by omega)
    · rw [P2NetDevice.wantsPromisc]
      rcases hall with hdev | hlong
      · rw [hdev]
        rfl
      · cases hlist : dev.mcList with
        | nil => rw [hlist, List.length_nil] at hlong; omega
        | cons addr rest => simp
  · rename_i hall
    rw [not_or, Bool.not_eq_true, Nat.not_lt] at hall
    split
    · rename_i hempty
      have hnil := List.length_eq_zero_iff.mp hempty
      refine hoff false (fun hyes => hyes.2.2 hnil) ?_
      rw [P2NetDevice.wantsPromisc, hall.1, hnil]
      rfl
    · rename_i hempty
      have hyes : b.Filtered dev := ⟨hall.1, hall.2, fun hnil => hempty (by rw [hnil]; rfl)⟩
      refine Prog.meets_bind.mpr
        (changePromiscMode_meets may hpromisc fun ret r₁ hchanges hpromisc₁ => ?_)
      have hfilter₁ : FilterSet b alone a.mcEnabled filterMac r₁ :=
        hfilter.elsewhere hchanges (by decide)
      refine Prog.meets_bind.mpr (enableMcastFilter_meets may (hcntl (.inr hyes))
        (a := { a with promisc := if ret = 0 then true else a.promisc }) hfilter₁
        fun r₂ hchanges₂ hfilter₂ => ?_)
      refine Prog.meets_bind.mpr ((mcastTable_meets may hyes.2.1
        fun r₃ hchanges₃ htable => ?_).mono fun index r hclear => Prog.meets_bind.mpr hclear)
      refine h ret _ r₃ (((hchanges.mono (by decide)).trans (hchanges₂.mono (by decide))).trans
        (hchanges₃.mono (by decide))) ⟨rfl, (decide_eq_true hyes).symm, ?_, ?_, fun _ => htable, ?_⟩
      · exact (hpromisc₁.elsewhere hchanges₂ (by decide)).elsewhere hchanges₃ (by decide)
      · exact hfilter₂.elsewhere hchanges₃ (by decide)
      · intro hret
        rw [P2NetDevice.wantsPromisc, hall.1]
        cases hlist : dev.mcList with
        | nil => exact absurd hlist hyes.2.2
        | cons addr rest => exact if_pos hret

/-! ## Calls -/

/-- What is so of a port between its calls: `filters` says whether lists may be for its
table, `alone` that this is so of no other port.  `last` is the device of the last call of
`nx_nic_p2_set_multi`, and `late` that the change of mode in it returned an error. -/
structure Tracks (b : P2Board) (alone filters : Prop) (s : P2Port) (r : Regs) : Prop where
  promisc : s.running = true → PromiscSet b s.adapter.promisc r
  stopped : s.running = false → s.adapter.promisc = false
  wanted : s.running = true →
    ∃ dev, s.last = some dev ∧ (s.late = false → s.adapter.promisc = dev.wantsPromisc)
  enabled : s.adapter.mcEnabled = true ↔ ∃ dev, s.last = some dev ∧ b.Filtered dev
  filter : FilterSet b alone s.adapter.mcEnabled s.filterMac r
  table : ∀ dev, s.last = some dev → b.Filtered dev → TableSet b dev.mcList r
  station : s.isUp = true → StationSet b s.adapter.macAddr r
  asks : s.adapter.mcEnabled = true → filters

variable {alone filters : Prop} {s : P2Port}

theorem Tracks.same {r' : Regs} (h : Tracks b alone filters s r)
    (hsame : ∀ g, g ≠ .cntl → g ≠ .select → g ≠ .drop → b.Same g r r')
    (hcntl : alone → b.Same .cntl r r') : Tracks b alone filters s r' where
  promisc hrun := (h.promisc hrun).same (hsame _ (by decide) (by decide) (by decide))
    (hsame _ (by decide) (by decide) (by decide))
  stopped := h.stopped
  wanted := h.wanted
  enabled := h.enabled
  filter := h.filter.same (hsame _ (by decide) (by decide) (by decide)) hcntl
  table dev hlast hyes :=
    (h.table dev hlast hyes).same (hsame _ (by decide) (by decide) (by decide))
  station hup := (h.station hup).same (hsame _ (by decide) (by decide) (by decide))
    (hsame _ (by decide) (by decide) (by decide)) (hsame _ (by decide) (by decide) (by decide))
  asks := h.asks

/-- The port after `nx_nic_p2_set_multi`, whatever came before it. -/
theorem Multi.tracks {dev : P2NetDevice} {ret : Int} {a' : P2Adapter} {r' : Regs}
    (h : Multi b alone dev s.filterMac s.adapter ret a' r') (hasks : b.Filtered dev → filters)
    (isUp : Bool) (hstation : isUp = true → StationSet b s.adapter.macAddr r') :
    Tracks b alone filters
      { s.afterSetMulti dev ret a' with running := true, isUp := isUp } r' where
  promisc _ := h.promisc
  stopped hrun := absurd hrun (by simp)
  wanted _ := ⟨dev, rfl, fun hlate => h.wanted (by simpa [P2Port.afterSetMulti] using hlate)⟩
  enabled := by
    show a'.mcEnabled = true ↔ _
    rw [h.enabled, decide_eq_true_iff]
    constructor
    · exact fun hyes => ⟨dev, rfl, hyes⟩
    · rintro ⟨dev', hlast, hyes⟩
      exact Option.some.inj hlast ▸ hyes
  filter := h.filter
  table dev' hlast hyes := by
    obtain rfl := Option.some.inj hlast
    exact h.table hyes
  station hup := by
    show StationSet b a'.macAddr r'
    rw [h.macAddr]
    exact hstation hup
  asks hon := hasks (of_decide_eq_true (h.enabled.symm.trans hon))

/-- A list for the table is among the arguments of the call. -/
def P2Call.asks (b : P2Board) : P2Call → Bool
  | .unmNicOpen dev | .netxenSetMulticastList dev => decide (b.Filtered dev)
  | .unmNicClose | .unmNicSetMac _ => false

/-- **One call**, whatever it is. -/
theorem call_meets (may : b.May sees owns) (hcntl : filters → owns unmMacAddrCntlReg)
    {c : P2Call} (hasks : c.asks b = true → filters) (h : Tracks b alone filters s r)
    {p : Niu P2Port} (hp : c.prog b s = some p) :
    p.Meets sees owns Live (Tracks b alone filters) r := by
  cases c with
  | unmNicOpen dev =>
    rw [P2Call.prog] at hp
    split at hp
    · cases hp
    rename_i hrun
    obtain rfl := Option.some.inj hp
    have hstopped := h.stopped (Bool.not_eq_true _ ▸ hrun)
    refine Prog.meets_bind.mpr (xgMacaddrSet_meets may fun r₁ hchanges₁ hstation => ?_)
    refine Prog.meets_bind.mpr (initPort_meets may fun r₂ hchanges₂ hpromisc => ?_)
    have hfilter₁ := h.filter.elsewhere hchanges₁ (by decide)
    have hfilter := hfilter₁.elsewhere hchanges₂ (by decide)
    refine Prog.meets_bind.mpr (setMulti_meets may ?_ (hstopped.symm ▸ hpromisc) hfilter
      fun ret a' r₃ hchanges₃ hmulti => ?_)
    · exact fun hon => hcntl (hon.elim h.asks fun hyes => hasks (decide_eq_true hyes))
    · exact hmulti.tracks (fun hyes => hasks (decide_eq_true hyes)) true fun _ =>
        (hstation.elsewhere hchanges₂ (by decide)).elsewhere hchanges₃ (by decide)
  | unmNicClose =>
    rw [P2Call.prog] at hp
    split at hp
    swap
    · cases hp
    obtain rfl := Option.some.inj hp
    refine Prog.meets_bind.mpr (stopPort_meets may fun r₁ hchanges => ?_)
    exact
      { promisc := fun hrun => absurd hrun (by simp)
        stopped := fun _ => rfl
        wanted := fun hrun => absurd hrun (by simp)
        enabled := h.enabled
        filter := h.filter.elsewhere hchanges (by decide)
        table := fun dev hlast hyes => (h.table dev hlast hyes).same (hchanges.same (by decide))
        station := fun hup => (h.station hup).elsewhere hchanges (by decide)
        asks := h.asks }
  | netxenSetMulticastList dev =>
    rw [P2Call.prog] at hp
    split at hp
    swap
    · cases hp
    rename_i hrun
    obtain rfl := Option.some.inj hp
    refine Prog.meets_bind.mpr (setMulti_meets may ?_ (h.promisc hrun) h.filter
      fun ret a' r₁ hchanges hmulti => ?_)
    · exact fun hon => hcntl (hon.elim h.asks fun hyes => hasks (decide_eq_true hyes))
    · have hstation : s.isUp = true → StationSet b s.adapter.macAddr r₁ := fun hup =>
        (h.station hup).elsewhere hchanges (by decide)
      have htracks := hmulti.tracks (fun hyes => hasks (decide_eq_true hyes)) s.isUp hstation
      rw [← hrun] at htracks
      exact htracks
  | unmNicSetMac addr =>
    rw [P2Call.prog] at hp
    dsimp only at hp
    split at hp
    · obtain rfl := Option.some.inj hp
      refine Prog.meets_bind.mpr (xgMacaddrSet_meets may fun r₁ hchanges hstation => ?_)
      exact
        { promisc := fun hrun => (h.promisc hrun).elsewhere hchanges (by decide)
          stopped := h.stopped
          wanted := h.wanted
          enabled := h.enabled
          filter := h.filter.elsewhere hchanges (by decide)
          table := fun dev hlast hyes => (h.table dev hlast hyes).same (hchanges.same (by decide))
          station := fun _ => hstation
          asks := h.asks }
    · rename_i hup
      obtain rfl := Option.some.inj hp
      exact { h with station := fun hup' => absurd hup' hup }

end Functions

/-! ## The card -/

/-- The ports of a card; lists may be for the tables of those that `filters` says. -/
structure P2Card (ι : Type) where
  board : ι → P2Board
  filters : ι → Bool
  apart : ∀ i j, (board i).physicalPort = (board j).physicalPort → i = j

namespace P2Card
variable {ι : Type} (c : P2Card ι)

/-- The filters are for this port only. -/
def Alone (i : ι) : Prop := c.filters i = true ∧ ∀ j, c.filters j = true → j = i

/-- A port looks at its own registers, and at the shared one if it is for this port only. -/
def Sees (i : ι) (x : Nat) : Prop :=
  ∃ g, (c.board i).In g x ∧ g ≠ .select ∧ g ≠ .drop ∧ (g = .cntl → c.Alone i)

/-- A call of a port, if lists may be for its table. -/
def prog (i : ι) (call : P2Call) (s : P2Port) : Option (Niu P2Port) :=
  if call.asks (c.board i) && !c.filters i then none else call.prog (c.board i) s

def machine [DecidableEq ι] :
    Machine (Turns ι Nat (BitVec 32) P2Port) (Turn ι (BitVec 32) P2Call) :=
  turns Live c.prog

theorem may (i : ι) : (c.board i).May (c.Sees i) (Turns.Owns c.Sees i) where
  sees g x hx hcntl hselect hdrop := ⟨g, hx, hselect, hdrop, fun heq => absurd heq hcntl⟩
  owns g x hx hcntl hmode := by
    rintro j hj ⟨g', hx', hselect, hdrop, -⟩
    obtain ⟨rfl, hshared | hport⟩ := hx.apart hx'
    · rcases hshared with hg | hg | hg | hg
      · exact hmode hg
      · exact hcntl hg
      · exact hselect hg
      · exact hdrop hg
    · exact hj (c.apart i j hport).symm

theorem owns_cntl {i : ι} (h : c.filters i = true) : Turns.Owns c.Sees i unmMacAddrCntlReg := by
  rintro j hj ⟨g, hx, -, -, halone⟩
  obtain ⟨rfl, -⟩ := hx.apart (in_cntl (b := c.board i))
  exact hj ((halone rfl).2 i h).symm

/-- What is so of each port between its calls. -/
def Tracked (i : ι) : P2Port → Regs → Prop :=
  Tracks (c.board i) (c.Alone i) (c.filters i = true)

theorem tracked_local : Turns.Local c.Sees c.Tracked := by
  intro i s r r' hsame h
  refine h.same (fun g hcntl hselect hdrop x hx => ?_) fun halone x hx => ?_
  · exact (hsame x ⟨g, hx, hselect, hdrop, fun heq => absurd heq hcntl⟩).symm
  · exact (hsame x ⟨.cntl, hx, by decide, by decide, fun _ => halone⟩).symm

/-- An adapter before it is first opened. -/
def probed (macAddr : Bytes) : P2Port where
  adapter := ⟨false, false, macAddr⟩
  running := false
  isUp := false
  last := none
  late := false
  filterMac := none

/-- The card before any port is opened. -/
def initial (r : Regs) (macAddr : ι → Bytes) : Turns ι Nat (BitVec 32) P2Port :=
  ⟨r, fun i => .idle (probed (macAddr i))⟩

theorem tracks_probed {b : P2Board} {alone filters : Prop} (macAddr : Bytes) {r : Regs} :
    Tracks b alone filters (probed macAddr) r where
  promisc hrun := absurd hrun Bool.false_ne_true
  stopped _ := rfl
  wanted hrun := absurd hrun Bool.false_ne_true
  enabled := by
    constructor
    · exact fun hon => absurd hon Bool.false_ne_true
    · rintro ⟨dev, hlast, -⟩
      exact absurd hlast.symm (Option.some_ne_none dev)
  filter := by
    refine ⟨⟨fun hon => absurd hon Bool.false_ne_true, fun _ mac hmac => ?_⟩, fun _ =>
      ⟨fun hon => absurd hon Bool.false_ne_true, fun _ hsome => absurd rfl hsome⟩⟩
    exact absurd hmac.symm (Option.some_ne_none mac)
  table dev hlast := absurd hlast.symm (Option.some_ne_none dev)
  station hup := absurd hup Bool.false_ne_true
  asks hon := absurd hon Bool.false_ne_true

end P2Card

/-- A card with two ports, with tables of one entry. -/
def twoPorts : P2Card Bool where
  board second := ⟨if second then 1 else 0, true, false, 1, by cases second <;> decide, by decide⟩
  filters _ := true
  apart i j h := by cases i <;> cases j <;> simp_all

/-- The first port is opened with a list of one address, and the second one changes its
address meanwhile. -/
def twoPortsTurns : List (Turn Bool (BitVec 32) P2Call) :=
  .call false (.unmNicOpen ⟨false, [fun _ => 1]⟩) :: .access false 0 ::
    .call true (.unmNicSetMac fun _ => 2) :: .access true 0 :: List.replicate 21 (.access false 0)

end Mac
end NxNic

import NxNic.Mac.P2Filters
import Mathlib.Data.List.GetD

/-! # The registers of the address filters

Each port of a P2 has registers of its own, and some are shared.  What the registers say is
said part by part: the mode, the pool, the register that switches the filters, the table and
the station address.  Each part stays so while its own registers do.

A function that changes the registers of some regions only (`P2Board.Changes`) keeps every part
that has none of them (`P2Board.Changes.same`), for the regions do not overlap
(`P2Board.In.apart`): that is how the parts of other ports, and other parts of the same port, come
through a call.
-/
namespace NxNic
namespace Mac
open Words

/-! ## Whose registers are whose -/

/-- The registers by what they are for. -/
inductive Region where
  | config
  | station
  | apStation
  | pool
  | table
  | portMode
  | cntl
  | select
  | drop
deriving DecidableEq

/-- Where the registers of a port begin, and how many bytes they are. -/
def Region.place (port : Nat) : Region → Nat × Nat
  | .config => (unmNiuXgeConfig0 port, 8)
  | .station => (unmNiuXgeConfig0 port + 0xc, 8)
  | .apStation => (unmNiuApStationAddr0 port, 8)
  | .pool => (unmUnicastAddr port 0, 32)
  | .table => (unmMcastAddr port 0, 0x80)
  | .portMode => (unmPortModeAddr, 4)
  | .cntl => (unmMacAddrCntlReg, 4)
  | .select => (unmNiuFrameCountSelect, 4)
  | .drop => (unmNiuGbDropWrongaddr, 4)

/-- Those that all ports use. -/
def Region.Shared (g : Region) : Prop :=
  g = .portMode ∨ g = .cntl ∨ g = .select ∨ g = .drop

section Regions
variable {b b' : P2Board} {g g' : Region} {x : Nat} {gs : List Region} {r r' r'' : Regs}

/-- The register is one of the port's for that purpose. -/
def P2Board.In (b : P2Board) (g : Region) (x : Nat) : Prop :=
  (g.place b.physicalPort).1 ≤ x ∧
    x < (g.place b.physicalPort).1 + (g.place b.physicalPort).2

/-- **Registers for different purposes or of different ports are apart.** -/
theorem P2Board.In.apart (h : b.In g x) (h' : b'.In g' x) :
    g = g' ∧ (g.Shared ∨ b.physicalPort = b'.physicalPort) := by
  have hle := b.physicalPort_le
  have hle' := b'.physicalPort_le
  rw [P2Board.In] at h h'
  cases g <;> cases g' <;>
    dsimp only [Region.place, unmNiuXgeConfig0, unmNiuApStationAddr0, unmUnicastAddr, unmMcastAddr,
      unmPortModeAddr, unmMacAddrCntlReg, unmNiuFrameCountSelect, unmNiuGbDropWrongaddr, unmCrbNiu,
      unmPciCrbWindow] at h h' <;>
    first
      | omega
      | exact ⟨rfl, .inr (by omega)⟩
      | exact ⟨rfl, .inl (by simp [Region.Shared])⟩

theorem P2Board.In.ne {y : Nat} (h : b.In g x) (h' : b.In g' y) (hg : g ≠ g') : x ≠ y :=
  fun heq => hg (h.apart (heq ▸ h')).1

/-- No register but those for these purposes differs. -/
def P2Board.Changes (b : P2Board) (gs : List Region) (r r' : Regs) : Prop :=
  ∀ x, (∀ g ∈ gs, ¬ b.In g x) → r' x = r x

/-- The registers for that purpose are the same. -/
def P2Board.Same (b : P2Board) (g : Region) (r r' : Regs) : Prop := ∀ x, b.In g x → r' x = r x

theorem P2Board.Changes.refl : b.Changes gs r r := fun _ _ => rfl

theorem P2Board.Changes.trans (h : b.Changes gs r r') (h' : b.Changes gs r' r'') :
    b.Changes gs r r'' := fun x hx => (h' x hx).trans (h x hx)

theorem P2Board.Changes.mono {gs' : List Region} (h : b.Changes gs r r')
    (hsub : ∀ g ∈ gs, g ∈ gs') : b.Changes gs' r r' :=
  fun x hx => h x fun g hg => hx g (hsub g hg)

theorem P2Board.Changes.update (h : b.Changes gs r r') (hg : g ∈ gs) (hx : b.In g x)
    (d : BitVec 32) : b.Changes gs r (Function.update r' x d) := by
  intro y hy
  have hne : y ≠ x := fun heq => hy g hg (heq ▸ hx)
  rw [Function.update_of_ne hne]
  exact h y hy

/-- What is for another purpose stays as it is. -/
theorem P2Board.Changes.same (h : b.Changes gs r r') (hg : g ∉ gs) : b.Same g r r' :=
  fun x hx => h x fun _ hmem hin => hg ((hx.apart hin).1 ▸ hmem)

end Regions

/-! ## What the registers say -/

/-- The two words at `x` hold the address. -/
def Entry (r : Regs) (x : Nat) (mac : Bytes) : Prop :=
  ∀ k, k < 3 → byte (r x) k = mac k ∧ byte (r (x + 4)) k = mac (3 + k)

/-- The station address. -/
def StationAt (r : Regs) (addr0 addr1 : Nat) (mac : Bytes) : Prop :=
  (∀ k, k < 2 → byte (r addr1) (2 + k) = mac k) ∧ ∀ k, k < 4 → byte (r addr0) k = mac (2 + k)

def broadcast : Bytes := fun _ => 0xff

theorem byte_memcpyWord (val : BitVec 32) (src : Bytes) (n : Nat) {k : Nat} (hk : k < 4) :
    byte (memcpyWord val src n) k = if k < n then src k else byte val k := by
  rw [memcpyWord, byte_load _ _ _ (by omega), if_pos hk, Nat.zero_add]
  by_cases hn : k < n
  · rw [copy_of_mem (Nat.zero_le k) (by omega), if_pos hn, Nat.sub_zero]
  · rw [copy_of_not_mem (by omega), if_neg hn, store, if_pos ⟨Nat.zero_le k, by omega⟩,
      Nat.sub_zero]

section Parts
variable (b : P2Board)

/-- The receiver is on, and the mode is `promisc`, which a port in the mode of IEEE 802.3ap
has no register for. -/
structure PromiscSet (promisc : Bool) (r : Regs) : Prop where
  rxEnable : (r (unmNiuXgeConfig0 b.physicalPort)).getLsbD 2 = true
  ap : r unmPortModeAddr = unmPortMode8023Ap →
    (r (unmNiuXgeConfig1 b.physicalPort)).getLsbD 13 = false
  mode : r unmPortModeAddr ≠ unmPortMode8023Ap →
    (r (unmNiuXgeConfig1 b.physicalPort)).getLsbD 13 = promisc

/-- The pool is for the broadcast address and the adapter's, as it was when the filter was
switched on, or for just the adapter's. -/
structure PoolSet (enabled : Bool) (filterMac : Option Bytes) (r : Regs) : Prop where
  on : enabled = true → Entry r (unmUnicastAddr b.physicalPort 0) broadcast ∧
    ∃ mac, filterMac = some mac ∧ Entry r (unmUnicastAddr b.physicalPort 1) mac
  off : enabled = false → ∀ mac, filterMac = some mac →
    Entry r (unmUnicastAddr b.physicalPort 0) mac

/-- The filters are on or off. -/
structure CntlSet (enabled : Bool) (filterMac : Option Bytes) (r : Regs) : Prop where
  on : enabled = true → r unmMacAddrCntlReg = cntlWord b
  off : enabled = false → filterMac ≠ none → r unmMacAddrCntlReg = 0

/-- The pool, and the register that all ports share if it is for this one `alone`. -/
structure FilterSet (alone : Prop) (enabled : Bool) (filterMac : Option Bytes) (r : Regs) :
    Prop where
  pool : PoolSet b enabled filterMac r
  cntl : alone → CntlSet b enabled filterMac r

/-- The table has the addresses of the list, and no others. -/
def TableSet (l : List Bytes) (r : Regs) : Prop :=
  ∀ i, i < b.maxMcCount → Entry r (unmMcastAddr b.physicalPort i) (l.getD i nullAddr)

def StationSet (mac : Bytes) (r : Regs) : Prop :=
  b.physicalPort ≤ 1 →
    if r unmPortModeAddr = unmPortMode8023Ap then
      StationAt r (unmNiuApStationAddr0 b.physicalPort) (unmNiuApStationAddr1 b.physicalPort) mac
    else
      StationAt r (unmNiuXgeConfig0 b.physicalPort + 0xc)
        (unmNiuXgeConfig0 b.physicalPort + 0x10) mac

end Parts

section PartsSame
variable {b : P2Board} {r r' : Regs}

theorem in_config0 : b.In .config (unmNiuXgeConfig0 b.physicalPort) :=
  ⟨Nat.le_refl _, by dsimp only [Region.place]; omega⟩

theorem in_config1 : b.In .config (unmNiuXgeConfig1 b.physicalPort) := by
  dsimp only [P2Board.In, Region.place, unmNiuXgeConfig0, unmNiuXgeConfig1]
  omega

theorem config0_ne_config1 {port : Nat} : unmNiuXgeConfig0 port ≠ unmNiuXgeConfig1 port := by
  dsimp only [unmNiuXgeConfig0, unmNiuXgeConfig1]
  omega

theorem in_portMode : b.In .portMode unmPortModeAddr :=
  ⟨Nat.le_refl _, by dsimp only [Region.place]; omega⟩

theorem in_cntl : b.In .cntl unmMacAddrCntlReg :=
  ⟨Nat.le_refl _, by dsimp only [Region.place]; omega⟩

theorem in_select : b.In .select unmNiuFrameCountSelect :=
  ⟨Nat.le_refl _, by dsimp only [Region.place]; omega⟩

theorem in_drop : b.In .drop unmNiuGbDropWrongaddr :=
  ⟨Nat.le_refl _, by dsimp only [Region.place]; omega⟩

theorem in_pool {i k : Nat} (hi : i < 4) (hk : k < 8) :
    b.In .pool (unmUnicastAddr b.physicalPort i + k) := by
  dsimp only [P2Board.In, Region.place, unmUnicastAddr]
  omega

theorem in_table {i k : Nat} (hi : i < 16) (hk : k < 8) :
    b.In .table (unmMcastAddr b.physicalPort i + k) := by
  dsimp only [P2Board.In, Region.place, unmMcastAddr]
  omega

theorem in_station0 : b.In .station (unmNiuXgeConfig0 b.physicalPort + 0xc) := by
  dsimp only [P2Board.In, Region.place]
  omega

theorem in_station1 : b.In .station (unmNiuXgeConfig0 b.physicalPort + 0x10) := by
  dsimp only [P2Board.In, Region.place]
  omega

theorem in_apStation0 : b.In .apStation (unmNiuApStationAddr0 b.physicalPort) := by
  dsimp only [P2Board.In, Region.place]
  omega

theorem in_apStation1 : b.In .apStation (unmNiuApStationAddr1 b.physicalPort) := by
  dsimp only [P2Board.In, Region.place, unmNiuApStationAddr0, unmNiuApStationAddr1]
  omega

theorem Entry.same {x : Nat} {mac : Bytes} (h : Entry r x mac) (hx : r' x = r x)
    (hx4 : r' (x + 4) = r (x + 4)) : Entry r' x mac := by
  intro k hk
  rw [hx, hx4]
  exact h k hk

theorem Entry.update {x y : Nat} {mac : Bytes} (h : Entry r x mac) (hx : x ≠ y) (hx4 : x + 4 ≠ y)
    (d : BitVec 32) : Entry (Function.update r y d) x mac :=
  h.same (Function.update_of_ne hx _ _) (Function.update_of_ne hx4 _ _)

/-- The two words are written one after the other. -/
theorem entry_update_update {x : Nat} {mac : Bytes} {hi lo : BitVec 32}
    (hhi : ∀ k, k < 3 → byte hi k = mac k) (hlo : ∀ k, k < 3 → byte lo k = mac (3 + k)) :
    Entry (Function.update (Function.update r x hi) (x + 4) lo) x mac := by
  intro k hk
  rw [Function.update_self, Function.update_of_ne (by omega), Function.update_self]
  exact ⟨hhi k hk, hlo k hk⟩

theorem entry_memcpyWord {x : Nat} {mac : Bytes} (val val' : BitVec 32) :
    Entry (Function.update (Function.update r x (memcpyWord val mac 3)) (x + 4)
      (memcpyWord val' (fun i => mac (3 + i)) 3)) x mac := by
  refine entry_update_update (fun k hk => ?_) fun k hk => ?_
  · rw [byte_memcpyWord _ _ _ (by omega), if_pos hk]
  · rw [byte_memcpyWord _ _ _ (by omega), if_pos hk]

theorem PromiscSet.same {promisc : Bool} (h : PromiscSet b promisc r)
    (hconfig : b.Same .config r r') (hmode : b.Same .portMode r r') : PromiscSet b promisc r' where
  rxEnable := by rw [hconfig _ in_config0]; exact h.rxEnable
  ap := by rw [hconfig _ in_config1, hmode _ in_portMode]; exact h.ap
  mode := by rw [hconfig _ in_config1, hmode _ in_portMode]; exact h.mode

theorem PoolSet.same {enabled : Bool} {filterMac : Option Bytes} (h : PoolSet b enabled filterMac r)
    (hpool : b.Same .pool r r') : PoolSet b enabled filterMac r' := by
  have hentry : ∀ i, i < 2 → ∀ mac, Entry r (unmUnicastAddr b.physicalPort i) mac →
      Entry r' (unmUnicastAddr b.physicalPort i) mac := fun i hi mac he =>
    he.same (hpool _ (in_pool (k := 0) (by omega) (by omega)))
      (hpool _ (in_pool (by omega) (by omega)))
  refine ⟨fun hon => ?_, fun hoff mac hmac => hentry 0 (by omega) mac (h.off hoff mac hmac)⟩
  obtain ⟨hall, mac, hmac, hown⟩ := h.on hon
  exact ⟨hentry 0 (by omega) _ hall, mac, hmac, hentry 1 (by omega) mac hown⟩

theorem CntlSet.same {enabled : Bool} {filterMac : Option Bytes} (h : CntlSet b enabled filterMac r)
    (hcntl : b.Same .cntl r r') : CntlSet b enabled filterMac r' where
  on hon := (hcntl _ in_cntl).trans (h.on hon)
  off hoff hsome := (hcntl _ in_cntl).trans (h.off hoff hsome)

theorem FilterSet.same {alone : Prop} {enabled : Bool} {filterMac : Option Bytes}
    (h : FilterSet b alone enabled filterMac r) (hpool : b.Same .pool r r')
    (hcntl : alone → b.Same .cntl r r') : FilterSet b alone enabled filterMac r' where
  pool := h.pool.same hpool
  cntl halone := (h.cntl halone).same (hcntl halone)

theorem TableSet.same {l : List Bytes} (h : TableSet b l r) (htable : b.Same .table r r') :
    TableSet b l r' := by
  have hmax := b.maxMcCount_le
  intro i hi
  exact (h i hi).same (htable _ (in_table (k := 0) (by omega) (by omega)))
    (htable _ (in_table (by omega) (by omega)))

theorem StationAt.same {addr0 addr1 : Nat} {mac : Bytes} (h : StationAt r addr0 addr1 mac)
    (h₀ : r' addr0 = r addr0) (h₁ : r' addr1 = r addr1) : StationAt r' addr0 addr1 mac := by
  rw [StationAt, h₀, h₁]
  exact h

theorem StationSet.same {mac : Bytes} (h : StationSet b mac r) (hmode : b.Same .portMode r r')
    (hstation : b.Same .station r r') (hap : b.Same .apStation r r') : StationSet b mac r' := by
  intro hport
  have hold := h hport
  rw [hmode _ in_portMode]
  split
  · rename_i hmode
    rw [if_pos hmode] at hold
    exact hold.same (hap _ in_apStation0) (hap _ in_apStation1)
  · rename_i hmode
    rw [if_neg hmode] at hold
    exact hold.same (hstation _ in_station0) (hstation _ in_station1)

/-! ## What changes elsewhere -/

variable {gs : List Region}

theorem PromiscSet.elsewhere {promisc : Bool} (h : PromiscSet b promisc r)
    (hchanges : b.Changes gs r r') (hgs : Region.config ∉ gs ∧ Region.portMode ∉ gs) :
    PromiscSet b promisc r' :=
  h.same (hchanges.same hgs.1) (hchanges.same hgs.2)

theorem FilterSet.elsewhere {alone : Prop} {enabled : Bool} {filterMac : Option Bytes}
    (h : FilterSet b alone enabled filterMac r) (hchanges : b.Changes gs r r')
    (hgs : Region.pool ∉ gs ∧ Region.cntl ∉ gs) : FilterSet b alone enabled filterMac r' :=
  h.same (hchanges.same hgs.1) fun _ => hchanges.same hgs.2

theorem StationSet.elsewhere {mac : Bytes} (h : StationSet b mac r)
    (hchanges : b.Changes gs r r')
    (hgs : Region.portMode ∉ gs ∧ Region.station ∉ gs ∧ Region.apStation ∉ gs) :
    StationSet b mac r' :=
  h.same (hchanges.same hgs.1) (hchanges.same hgs.2.1) (hchanges.same hgs.2.2)

end PartsSame

end Mac
end NxNic

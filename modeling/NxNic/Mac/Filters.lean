import Mathlib.Data.Finset.Basic
import Mathlib.Data.List.Nodup
import NxNic.Lib.Machine

/-! # Address filters of the P3

`nx_nic_p3_set_multi` (`unm_nic_main.c`) brings the card's address filters in line
with the device's address, the broadcast address and the multicast list.  It sorts
the addresses of the list it kept from the last time into those still wanted and
those to delete, and notes those to add.

The state (`MacState`) is the adapter's list with all that has ever been sent to the
card, in order; what filters the card has is `replay` of that.  A step is one call, for
a device with any address, flags and multicast list.

`Reconciled` is the property: an address is listed once, the list has just the addresses
that are wanted, and the card has a filter for just those on the list.  `Sorted` is the
invariant within a call, of the three lists after some of the addresses have been looked
at.  An address that comes up twice and is new is noted twice, for `nx_nic_p3_add_mac`
looks for it on the list of old ones only; `reconciled_iff` has `Repeated` as the exact
condition on the calls of a run.
-/
namespace NxNic
namespace Mac

/-- `ETH_ALEN` bytes. -/
abbrev MacAddr := BitVec 48

def bcastAddr : MacAddr := 0xffffffffffff

/-- `VPORT_MISS_MODE_DROP` and so on. -/
inductive MissMode where
  | drop
  | acceptAll
  | acceptMulti
deriving DecidableEq

/-- What is sent to the card, in order. -/
inductive Request where
  | setVportMissMode (mode : MissMode)
  | removeL2Mac (addr : MacAddr)
  | addL2Mac (addr : MacAddr)
deriving DecidableEq

/-- What `nx_nic_p3_set_multi` reads of the device and the adapter: the address,
the flags `IFF_PROMISC` and `IFF_ALLMULTI`, the multicast list and the most
addresses that it may have. -/
structure NetDevice where
  macAddr : MacAddr
  promisc : Bool
  allmulti : Bool
  mcList : List MacAddr
  maxMcCount : Nat
deriving DecidableEq

/-- The mode for the addresses that no filter is for. -/
def NetDevice.mode (dev : NetDevice) : MissMode :=
  if dev.promisc then .acceptAll
  else if dev.allmulti || decide (dev.maxMcCount < dev.mcList.length) then .acceptMulti
  else .drop

/-- The addresses for which `nx_nic_p3_add_mac` is called, in order. -/
def NetDevice.wanted (dev : NetDevice) : List MacAddr :=
  dev.macAddr :: bcastAddr :: if dev.mode = .drop then dev.mcList else []

/-! ## The lists -/

/-- The three lists that `nx_nic_p3_add_mac` works on. -/
structure MacLists where
  macList : List MacAddr
  addList : List MacAddr
  delList : List MacAddr

/-- `nx_nic_p3_add_mac`. -/
def nxNicP3AddMac (l : MacLists) (addr : MacAddr) : MacLists :=
  if addr ∈ l.delList then
    { l with delList := l.delList.erase addr, macList := addr :: l.macList }
  else if addr ∈ l.macList then l
  else { l with addList := addr :: l.addList }

/-- The adapter's list and what has been sent to the card; the device as it was in
the last call. -/
structure MacState where
  macList : List MacAddr
  sent : List Request
  last : Option NetDevice

/-- The lists after the calls of `nx_nic_p3_add_mac`. -/
def sortMacs (old wanted : List MacAddr) : MacLists :=
  wanted.foldl nxNicP3AddMac ⟨[], [], old⟩

/-- `nx_nic_p3_set_multi`. -/
def nxNicP3SetMulti (st : MacState) (dev : NetDevice) : MacState :=
  let l := sortMacs st.macList dev.wanted
  { macList := l.addList.reverse ++ l.macList
    sent := st.sent ++ .setVportMissMode dev.mode :: l.delList.map .removeL2Mac ++
      l.addList.map .addL2Mac
    last := some dev }

/-- The calls of `nx_nic_p3_set_multi`. -/
def macMachine : Machine MacState NetDevice where
  next st dev := some (nxNicP3SetMulti st dev)

def initialMac : MacState := ⟨[], [], none⟩

/-! ## The card's filters -/

/-- What a request does to the card's filters. -/
def Request.apply (filters : Finset MacAddr) : Request → Finset MacAddr
  | .setVportMissMode _ => filters
  | .removeL2Mac addr => filters.erase addr
  | .addL2Mac addr => insert addr filters

/-- The filters that the requests leave. -/
def replay (sent : List Request) : Finset MacAddr := sent.foldl Request.apply ∅

theorem mem_removes (filters : Finset MacAddr) (l : List MacAddr) (a : MacAddr) :
    a ∈ (l.map Request.removeL2Mac).foldl Request.apply filters ↔ a ∈ filters ∧ a ∉ l := by
  induction l generalizing filters with
  | nil => simp
  | cons b l ih =>
    rw [List.map_cons, List.foldl_cons, ih]
    simp only [Request.apply, Finset.mem_erase, List.mem_cons, not_or]
    exact ⟨fun ⟨⟨hab, ha⟩, hl⟩ => ⟨ha, hab, hl⟩, fun ⟨ha, hab, hl⟩ => ⟨⟨hab, ha⟩, hl⟩⟩

theorem mem_adds (filters : Finset MacAddr) (l : List MacAddr) (a : MacAddr) :
    a ∈ (l.map Request.addL2Mac).foldl Request.apply filters ↔ a ∈ filters ∨ a ∈ l := by
  induction l generalizing filters with
  | nil => simp
  | cons b l ih =>
    rw [List.map_cons, List.foldl_cons, ih]
    simp only [Request.apply, Finset.mem_insert, List.mem_cons]
    rw [or_assoc, or_left_comm]

/-- The filters after a call. -/
theorem mem_replay_setMulti (st : MacState) (dev : NetDevice) (a : MacAddr) :
    a ∈ replay (nxNicP3SetMulti st dev).sent ↔
      (a ∈ replay st.sent ∧ a ∉ (sortMacs st.macList dev.wanted).delList) ∨
        a ∈ (sortMacs st.macList dev.wanted).addList := by
  unfold replay nxNicP3SetMulti
  rw [List.foldl_append, mem_adds, List.foldl_append, List.foldl_cons, mem_removes]
  rfl

/-! ## How the addresses are sorted -/

/-- The lists when the addresses `ws` have been looked at, with `old` the list that
was there before. -/
structure Sorted (old ws : List MacAddr) (l : MacLists) : Prop where
  kept : l.macList.Nodup ∧ ∀ a, a ∈ l.macList ↔ a ∈ old ∧ a ∈ ws
  dropped : l.delList.Nodup ∧ ∀ a, a ∈ l.delList ↔ a ∈ old ∧ a ∉ ws
  /-- A new address is noted each time it comes up. -/
  added : ∀ a, l.addList.count a = if a ∈ old then 0 else ws.count a

namespace Sorted
variable {old ws : List MacAddr} {l : MacLists} {w : MacAddr}

theorem init (h : old.Nodup) : Sorted old [] ⟨[], [], old⟩ := by
  refine ⟨⟨List.nodup_nil, fun a => ?_⟩, ⟨h, fun a => ?_⟩, fun a => ?_⟩
  · simp
  · simp
  · simp

/-- **One address.** -/
theorem addMac (h : Sorted old ws l) (w : MacAddr) :
    Sorted old (ws ++ [w]) (nxNicP3AddMac l w) := by
  have hws : ∀ a, a ∈ ws ++ [w] ↔ a ∈ ws ∨ a = w := fun a => by
    rw [List.mem_append, List.mem_singleton]
  have hcount : ∀ a, a ∈ old ∨ a ≠ w → l.addList.count a =
      if a ∈ old then 0 else (ws ++ [w]).count a := by
    intro a ha
    rw [h.added a]
    by_cases hold : a ∈ old
    · rw [if_pos hold, if_pos hold]
    · have haw : a ≠ w := ha.resolve_left hold
      rw [if_neg hold, if_neg hold, List.count_append, List.count_singleton]
      simp [Ne.symm haw]
  unfold nxNicP3AddMac
  by_cases hdel : w ∈ l.delList
  · -- it was on the old list and comes up for the first time
    rw [if_pos hdel]
    obtain ⟨hold, hfresh⟩ := (h.dropped.2 w).mp hdel
    refine ⟨⟨?_, fun a => ?_⟩, ⟨h.dropped.1.erase w, fun a => ?_⟩, fun a => ?_⟩
    · exact List.nodup_cons.mpr ⟨fun hmem => hfresh ((h.kept.2 w).mp hmem).2, h.kept.1⟩
    · rw [List.mem_cons, h.kept.2, hws]
      constructor
      · rintro (rfl | ⟨ha, hmem⟩)
        · exact ⟨hold, Or.inr rfl⟩
        · exact ⟨ha, Or.inl hmem⟩
      · rintro ⟨ha, hmem | rfl⟩
        · exact Or.inr ⟨ha, hmem⟩
        · exact Or.inl rfl
    · rw [h.dropped.1.mem_erase_iff, h.dropped.2, hws, not_or]
      exact ⟨fun ⟨haw, ha, hmem⟩ => ⟨ha, hmem, haw⟩, fun ⟨ha, hmem, haw⟩ => ⟨haw, ha, hmem⟩⟩
    · apply hcount
      by_cases haw : a = w
      · exact Or.inl (haw ▸ hold)
      · exact Or.inr haw
  rw [if_neg hdel]
  have hdropped : l.delList.Nodup ∧ ∀ a, a ∈ l.delList ↔ a ∈ old ∧ a ∉ ws ++ [w] := by
    refine ⟨h.dropped.1, fun a => ?_⟩
    rw [h.dropped.2, hws, not_or]
    constructor
    · rintro ⟨ha, hmem⟩
      refine ⟨ha, hmem, ?_⟩
      rintro rfl
      exact hdel ((h.dropped.2 a).mpr ⟨ha, hmem⟩)
    · exact fun ⟨ha, hmem, _⟩ => ⟨ha, hmem⟩
  -- what is kept stays the same, unless it is new
  have hkept : w ∈ old → w ∈ ws := by
    intro hold
    by_contra hmem
    exact hdel ((h.dropped.2 w).mpr ⟨hold, hmem⟩)
  have hkept' : ∀ a, a ∈ l.macList ↔ a ∈ old ∧ a ∈ ws ++ [w] := by
    intro a
    rw [h.kept.2, hws]
    constructor
    · exact fun ⟨ha, hmem⟩ => ⟨ha, Or.inl hmem⟩
    · rintro ⟨ha, hmem | rfl⟩
      · exact ⟨ha, hmem⟩
      · exact ⟨ha, hkept ha⟩
  by_cases hmac : w ∈ l.macList
  · rw [if_pos hmac]
    have hold := ((h.kept.2 w).mp hmac).1
    refine ⟨⟨h.kept.1, hkept'⟩, hdropped, fun a => hcount a ?_⟩
    by_cases haw : a = w
    · exact Or.inl (haw ▸ hold)
    · exact Or.inr haw
  · rw [if_neg hmac]
    have hnew : w ∉ old := fun hold => hmac ((h.kept.2 w).mpr ⟨hold, hkept hold⟩)
    refine ⟨⟨h.kept.1, hkept'⟩, hdropped, fun a => ?_⟩
    by_cases haw : a = w
    · subst haw
      rw [if_neg hnew, List.count_cons_self, h.added, if_neg hnew, List.count_append,
        List.count_singleton_self]
    · rw [List.count_cons_of_ne (Ne.symm haw)]
      exact hcount a (Or.inr haw)

/-- **All the addresses.** -/
theorem sortMacs (h : old.Nodup) (ws : List MacAddr) : Sorted old ws (sortMacs old ws) := by
  have hrun : ∀ (rest done : List MacAddr) (l : MacLists), Sorted old done l →
      Sorted old (done ++ rest) (rest.foldl nxNicP3AddMac l) := by
    intro rest
    induction rest with
    | nil =>
      intro done l hl
      rw [List.append_nil]
      exact hl
    | cons w rest ih =>
      intro done l hl
      rw [List.foldl_cons, List.append_cons]
      exact ih _ _ (hl.addMac w)
  exact hrun ws [] _ (init h)

end Sorted

/-! ## The list and the filters agree -/

/-- The adapter's list and the card's filters are what they are to be. -/
structure Reconciled (st : MacState) : Prop where
  once : st.macList.Nodup
  /-- Unless the device takes packets for other addresses, the list has just its
  own address, the broadcast address and the multicast list. -/
  listed : ∀ dev ∈ st.last, dev.mode = .drop →
    ∀ a, a ∈ st.macList ↔ a = dev.macAddr ∨ a = bcastAddr ∨ a ∈ dev.mcList
  filtered : ∀ a, a ∈ replay st.sent ↔ a ∈ st.macList

/-- The condition on a call: an address that comes up twice is on the list already. -/
def Repeated (st : MacState) (dev : NetDevice) : Prop :=
  ∀ a ∈ dev.wanted, 1 < dev.wanted.count a → a ∈ st.macList

-- by the list, not by all the addresses there are
instance (st : MacState) : DecidablePred (Repeated st) := fun dev =>
  List.decidableBAll (fun a => 1 < dev.wanted.count a → a ∈ st.macList) dev.wanted

namespace Reconciled
variable {st : MacState} {dev : NetDevice}

theorem mem_added (h : Sorted st.macList dev.wanted (sortMacs st.macList dev.wanted))
    (a : MacAddr) : a ∈ (sortMacs st.macList dev.wanted).addList ↔
      a ∉ st.macList ∧ a ∈ dev.wanted := by
  rw [← List.count_pos_iff, h.added]
  by_cases hold : a ∈ st.macList
  · rw [if_pos hold]
    exact iff_of_false (Nat.lt_irrefl 0) fun hno => hno.1 hold
  · rw [if_neg hold, List.count_pos_iff]
    exact (and_iff_right hold).symm

/-- The list after a call. -/
theorem mem_macList (h : st.macList.Nodup) (a : MacAddr) :
    a ∈ (nxNicP3SetMulti st dev).macList ↔ a ∈ dev.wanted := by
  have hsorted := Sorted.sortMacs h dev.wanted
  show a ∈ (sortMacs st.macList dev.wanted).addList.reverse ++ _ ↔ _
  rw [List.mem_append, List.mem_reverse, mem_added hsorted, hsorted.kept.2]
  constructor
  · rintro (⟨-, hmem⟩ | ⟨-, hmem⟩)
    · exact hmem
    · exact hmem
  · intro hmem
    by_cases hold : a ∈ st.macList
    · exact Or.inr ⟨hold, hmem⟩
    · exact Or.inl ⟨hold, hmem⟩

/-- The list has no address twice just if none is noted twice. -/
theorem nodup_iff (h : st.macList.Nodup) :
    (nxNicP3SetMulti st dev).macList.Nodup ↔ Repeated st dev := by
  have hsorted := Sorted.sortMacs h dev.wanted
  show ((sortMacs st.macList dev.wanted).addList.reverse ++ _).Nodup ↔ _
  rw [List.nodup_append']
  have hapart : (sortMacs st.macList dev.wanted).addList.reverse.Disjoint
      (sortMacs st.macList dev.wanted).macList := by
    intro a hadd hkept
    rw [List.mem_reverse, mem_added hsorted] at hadd
    exact hadd.1 ((hsorted.kept.2 a).mp hkept).1
  rw [and_iff_left hapart, and_iff_left hsorted.kept.1, List.nodup_reverse,
    List.nodup_iff_count_le_one]
  constructor
  · intro hall a _ htwice
    by_contra hold
    have hle := hall a
    rw [hsorted.added, if_neg hold] at hle
    omega
  · intro hall a
    rw [hsorted.added]
    by_cases hold : a ∈ st.macList
    · rw [if_pos hold]
      omega
    · rw [if_neg hold]
      by_contra htwice
      have hpos : 0 < dev.wanted.count a := by omega
      exact hold (hall a (List.count_pos_iff.mp hpos) (by omega))

/-- The filters after a call. -/
theorem mem_filters (h : Reconciled st) (a : MacAddr) :
    a ∈ replay (nxNicP3SetMulti st dev).sent ↔ a ∈ dev.wanted := by
  have hsorted := Sorted.sortMacs h.once dev.wanted
  rw [mem_replay_setMulti, h.filtered, hsorted.dropped.2, mem_added hsorted]
  by_cases hold : a ∈ st.macList
  · simp only [hold, true_and, not_true_eq_false, false_and, or_false, not_not]
  · simp only [hold, false_and, not_false_eq_true, true_and, false_or]

theorem mem_wanted (hmode : dev.mode = .drop) (a : MacAddr) :
    a ∈ dev.wanted ↔ a = dev.macAddr ∨ a = bcastAddr ∨ a ∈ dev.mcList := by
  rw [NetDevice.wanted, if_pos hmode, List.mem_cons, List.mem_cons]

/-- **A call** that meets the condition. -/
theorem step (h : Reconciled st) (hcond : Repeated st dev) :
    Reconciled (nxNicP3SetMulti st dev) := by
  refine ⟨(nodup_iff h.once).mpr hcond, fun last hlast hmode a => ?_, fun a => ?_⟩
  · obtain rfl : dev = last := Option.some.inj hlast
    rw [mem_macList h.once, mem_wanted hmode]
  · rw [h.mem_filters, mem_macList h.once]

theorem init : Reconciled initialMac := by
  refine ⟨List.nodup_nil, nofun, fun a => ?_⟩
  simp [initialMac, replay]

end Reconciled

/-! ## Runs -/

/-- **The list and the filters agree** after every call just if in every call the
addresses that come up twice are on the list already.  The device may change its
address, its flags and its list from call to call as it likes. -/
theorem reconciled_iff {l : List NetDevice} {st : MacState}
    (h : macMachine.run initialMac l = some st) :
    (∀ u, macMachine.Visits initialMac l u → Reconciled u) ↔
      ∀ u dev, macMachine.Takes initialMac l u dev → Repeated u dev := by
  apply Machine.visits_iff_takes (K := Reconciled) (fun _ hK => hK) ?_ ?_ Reconciled.init h
  · intro u dev t hK hcond hnext
    exact Option.some.inj hnext ▸ hK.step hcond
  · intro u dev t hK hnext hgood
    obtain rfl := Option.some.inj hnext
    exact (Reconciled.nodup_iff hK.once).mp hgood.once

/-- A device with a multicast list. -/
def multicast (mcList : List MacAddr) : NetDevice := ⟨0x001b21000001, false, false, mcList, 16⟩

/-- A list that gets longer, one with an address twice that is there already, and a
shorter one. -/
theorem reconciled_iff_known :
    ∃ st, macMachine.run initialMac
        [multicast [1], multicast [1, 2], multicast [2, 1, 2], multicast [2]] = some st ∧
      st.macList = [2, bcastAddr, 0x001b21000001] ∧
      ∀ u, macMachine.Visits initialMac
        [multicast [1], multicast [1, 2], multicast [2, 1, 2], multicast [2]] u →
          Reconciled u := by
  have hrun : ((macMachine.guard Repeated).run initialMac
      [multicast [1], multicast [1, 2], multicast [2, 1, 2], multicast [2]]).map
        (fun st => st.macList) = some [2, bcastAddr, 0x001b21000001] := by
    decide
  obtain ⟨st, hst, hlist⟩ := Option.map_eq_some_iff.mp hrun
  have hst' := Machine.run_of_guard hst
  exact ⟨st, hst', hlist, (reconciled_iff hst').mpr fun _ _ ht => Machine.takes_of_guard hst ht⟩

/-- An address that comes up twice is listed twice, and after the next call it is
listed and has no filter. -/
theorem filter_lost :
    ∃ st₁ st₂, macMachine.run initialMac [multicast [1, 1]] = some st₁ ∧
      macMachine.run initialMac [multicast [1, 1], multicast [1]] = some st₂ ∧
      ¬ st₁.macList.Nodup ∧ (1 : MacAddr) ∈ st₂.macList ∧ (1 : MacAddr) ∉ replay st₂.sent ∧
      ¬ Reconciled st₂ := by
  refine ⟨_, _, rfl, rfl, by decide, by decide, by decide, fun hgood => ?_⟩
  have hmem := (hgood.filtered 1).mpr (by decide)
  exact absurd hmem (by decide)

end Mac
end NxNic

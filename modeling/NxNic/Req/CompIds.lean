import NxNic.Req.WaitEvents

/-! # Completion ids in use

The bits of the entries on the wait list are set in the bitmap and do not
overlap (`Adapter.Ids`): no two entries have the same id.
-/
namespace NxNic
namespace Req

/-! ## Masks -/

theorem and_not_of_disjoint {x y : BitVec 64} (h : x &&& y = 0#64) : x &&& ~~~ y = x := by
  ext i hi
  have hbit : (x &&& y)[i] = (0#64)[i] := by rw [h]
  simp only [BitVec.getElem_and, BitVec.getElem_zero] at hbit
  simp only [BitVec.getElem_and, BitVec.getElem_not]
  cases hx : x[i] with
  | false => rfl
  | true =>
    rw [hx, Bool.true_and] at hbit
    rw [hbit]
    rfl

/-- A mask within `m` is disjoint from what `m` is disjoint from. -/
theorem disjoint_of_within {x y m : BitVec 64} (hy : y &&& m = y) (hx : x &&& m = 0#64) :
    x &&& y = 0#64 := by
  calc x &&& y = x &&& (y &&& m) := by rw [hy]
    _ = (x &&& m) &&& y := by rw [BitVec.and_comm y m, BitVec.and_assoc]
    _ = 0#64 := by rw [hx, BitVec.zero_and]

theorem within_or {x m b : BitVec 64} (h : x &&& m = x) : x &&& (m ||| b) = x := by
  ext i hi
  have hbit : (x &&& m)[i] = x[i] := by rw [h]
  simp only [BitVec.getElem_and] at hbit
  simp only [BitVec.getElem_and, BitVec.getElem_or]
  cases hx : x[i] with
  | false => rfl
  | true =>
    rw [hx, Bool.true_and] at hbit
    rw [hbit]
    rfl

theorem within_or_self (m b : BitVec 64) : b &&& (m ||| b) = b := by
  ext i hi
  simp only [BitVec.getElem_and, BitVec.getElem_or]
  cases b[i] <;> simp

/-- Each id has a bit. -/
theorem bitMap_ne_zero (i : Nat) : bitMap i ≠ 0#64 := by
  have hall : ∀ n < 32, (1#32 <<< n).signExtend 64 ≠ 0#64 := by decide
  exact hall _ (Nat.mod_lt _ (by decide))

/-! ## The ids of the wait list -/

namespace Adapter

/-- The id of an entry. -/
def id (a : Adapter) (k : Nat) : Nat := (a.waitEvents k).compId.toNat

/-- The entries on the list and the bits. -/
structure Ids (a : Adapter) : Prop where
  nodup : a.waitList.Nodup
  taken : ∀ k ∈ a.waitList,
    bitMap (a.id k) &&& a.waitBitMap (mapIndex (a.id k)) = bitMap (a.id k)
  apart : ∀ k ∈ a.waitList, ∀ l ∈ a.waitList, k ≠ l → mapIndex (a.id k) = mapIndex (a.id l) →
    bitMap (a.id k) &&& bitMap (a.id l) = 0#64

/-- **No two entries have the same id.** -/
theorem Ids.unique {a : Adapter} (h : a.Ids) {k l : Nat} (hk : k ∈ a.waitList)
    (hl : l ∈ a.waitList) (hid : (a.waitEvents k).compId = (a.waitEvents l).compId) : k = l := by
  by_contra hne
  have hsame : a.id k = a.id l := congrArg BitVec.toNat hid
  have hdisjoint := h.apart k hk l hl hne (by rw [hsame])
  rw [hsame, BitVec.and_self] at hdisjoint
  exact bitMap_ne_zero _ hdisjoint

/-- The lowest id that is free. -/
def LowestFree (a : Adapter) (i : Nat) : Prop :=
  a.compIdFree i = true ∧ ∀ j < i, a.compIdFree j = false

instance (a : Adapter) (i : Nat) : Decidable (a.LowestFree i) :=
  inferInstanceAs (Decidable (a.compIdFree i = true ∧ ∀ j < i, a.compIdFree j = false))

/-- The loop finds the lowest free id. -/
theorem findCompId_eq_some {a : Adapter} {i : Nat} :
    a.findCompId = some i ↔ i < nxMaxCompId ∧ a.LowestFree i := by
  unfold findCompId LowestFree
  rw [List.find?_range_eq_some, List.mem_range]
  constructor
  · rintro ⟨hfree, hlt, hlower⟩
    exact ⟨hlt, hfree, fun j hj => by simpa using hlower j hj⟩
  · rintro ⟨hlt, hfree, hlower⟩
    exact ⟨hfree, hlt, fun j hj => by rw [hlower j hj]; rfl⟩

/-- What `nx_os_event_wait_setup` does when it succeeds. -/
theorem nxOsEventWaitSetup_cases {a b : Adapter} {k : Nat} {compId : BitVec 8}
    (h : a.nxOsEventWaitSetup k = some (compId, b)) :
    a.LowestFree compId.toNat ∧
      b = { waitBitMap := Function.update a.waitBitMap (mapIndex compId.toNat)
              (a.waitBitMap (mapIndex compId.toNat) ||| bitMap compId.toNat)
            waitEvents := Function.update a.waitEvents k ⟨compId, true, false, none⟩
            waitList := k :: a.waitList } := by
  obtain ⟨i, hi, heq⟩ := Option.map_eq_some_iff.mp h
  obtain ⟨hlt, hfree⟩ := findCompId_eq_some.mp hi
  obtain ⟨rfl, rfl⟩ := Prod.mk.inj heq
  have hnat : (BitVec.ofNat 8 i).toNat = i := by
    rw [BitVec.toNat_ofNat]
    exact Nat.mod_eq_of_lt hlt
  rw [hnat]
  exact ⟨hfree, rfl⟩

theorem Ids.setup {a b : Adapter} (h : a.Ids) {k : Nat} {compId : BitVec 8}
    (hk : k ∉ a.waitList) (hsetup : a.nxOsEventWaitSetup k = some (compId, b)) : b.Ids := by
  obtain ⟨⟨hfree, -⟩, rfl⟩ := nxOsEventWaitSetup_cases hsetup
  replace hfree := of_decide_eq_true hfree
  -- the entry of `k` is new, the others are as they were
  have hself : ∀ l, l = k → Function.update a.waitEvents k ⟨compId, true, false, none⟩ l =
      ⟨compId, true, false, none⟩ := by
    rintro l rfl
    exact Function.update_self ..
  have hother : ∀ l ∈ a.waitList,
      Function.update a.waitEvents k ⟨compId, true, false, none⟩ l = a.waitEvents l := by
    intro l hl
    have hlk : l ≠ k := fun hlk => hk (hlk ▸ hl)
    exact Function.update_of_ne hlk ..
  -- the bits of the new entry are none of the old
  have hnew : ∀ l ∈ a.waitList, mapIndex compId.toNat = mapIndex (a.id l) →
      bitMap compId.toNat &&& bitMap (a.id l) = 0#64 := fun l hl hsame =>
    disjoint_of_within (h.taken l hl) (hsame ▸ hfree)
  refine ⟨List.nodup_cons.mpr ⟨hk, h.nodup⟩, fun l hl => ?_, fun l hl m hm hne hsame => ?_⟩
  · simp only [id]
    rcases List.mem_cons.mp hl with hlk | hl
    · rw [hself l hlk, Function.update_self]
      exact within_or_self _ _
    · rw [hother l hl]
      -- the word with the new id has more bits, the others are the same
      by_cases hsame : mapIndex (a.waitEvents l).compId.toNat = mapIndex compId.toNat
      · rw [hsame, Function.update_self]
        exact within_or (hsame ▸ h.taken l hl)
      · rw [Function.update_of_ne hsame]
        exact h.taken l hl
  · simp only [id] at hsame ⊢
    rcases List.mem_cons.mp hl with hlk | hl <;> rcases List.mem_cons.mp hm with hmk | hm
    · exact absurd (hlk.trans hmk.symm) hne
    · rw [hself l hlk, hother m hm] at hsame ⊢
      exact hnew m hm hsame
    · rw [hother l hl, hself m hmk] at hsame ⊢
      rw [BitVec.and_comm]
      exact hnew l hl hsame.symm
    · rw [hother l hl, hother m hm] at hsame ⊢
      exact h.apart l hl m hm hne hsame

theorem Ids.finish {a : Adapter} (h : a.Ids) {k : Nat} (hk : k ∈ a.waitList) :
    (a.finishWait k).Ids := by
  have hmem : ∀ l ∈ (a.finishWait k).waitList, l ≠ k ∧ l ∈ a.waitList := fun l hl =>
    h.nodup.mem_erase_iff.mp hl
  refine ⟨h.nodup.erase k, fun l hl => ?_, fun l hl m hm hne hsame =>
    h.apart l (hmem l hl).2 m (hmem m hm).2 hne hsame⟩
  obtain ⟨hlk, hl⟩ := hmem l hl
  show bitMap (a.id l) &&& Function.update a.waitBitMap (mapIndex (a.id k))
    (a.waitBitMap (mapIndex (a.id k)) &&& ~~~ bitMap (a.id k)) (mapIndex (a.id l)) = _
  by_cases hsame : mapIndex (a.id l) = mapIndex (a.id k)
  -- the bits that are cleared are none of this entry's
  · rw [hsame, Function.update_self, ← BitVec.and_assoc, ← hsame, h.taken l hl]
    exact and_not_of_disjoint (h.apart l hl k hk hlk hsame)
  · rw [Function.update_of_ne hsame]
    exact h.taken l hl

/-- An answer changes no id. -/
theorem setEvent_wakeup_compId (a : Adapter) (k l : Nat) (word : BitVec 64) :
    ((a.setEvent k ((a.waitEvents k).wakeup word)).waitEvents l).compId =
      (a.waitEvents l).compId := by
  show (Function.update a.waitEvents k ((a.waitEvents k).wakeup word) l).compId = _
  by_cases hlk : l = k
  · rw [hlk, Function.update_self]
    rfl
  · rw [Function.update_of_ne hlk]

/-- What `nx_os_event_wakeup_on_response` does. -/
theorem nxOsEventWakeupOnResponse_cases (a : Adapter) (rsp : NicResponse) :
    (a.nxOsEventWakeupOnResponse rsp).2 = a ∨
      ∃ k ∈ a.waitList, (a.waitEvents k).compId = rsp.compid ∧ (a.waitEvents k).active = true ∧
        (a.nxOsEventWakeupOnResponse rsp).2 =
          a.setEvent k ((a.waitEvents k).wakeup rsp.word) := by
  unfold nxOsEventWakeupOnResponse
  by_cases hlro : rsp.opcode = lroDeleteResponse ∨ rsp.opcode = lroAddFailureResponse
  · rw [if_pos hlro]
    exact Or.inl rfl
  rw [if_neg hlro]
  by_cases hlink : rsp.opcode = getLinkeventResponse
  · rw [if_pos hlink]
    exact Or.inl rfl
  rw [if_neg hlink]
  cases hfind : a.waitList.find? fun k => decide ((a.waitEvents k).compId = rsp.compid) with
  | none => exact Or.inl rfl
  | some k =>
    have hid : (a.waitEvents k).compId = rsp.compid := by simpa using List.find?_some hfind
    by_cases hactive : (a.waitEvents k).active = true
    · refine Or.inr ⟨k, List.mem_of_find?_eq_some hfind, hid, hactive, ?_⟩
      show (if (a.waitEvents k).active ≠ true then _ else _ : RCode × Adapter).2 = _
      rw [if_neg (not_not.mpr hactive)]
    · left
      show (if (a.waitEvents k).active ≠ true then _ else _ : RCode × Adapter).2 = _
      rw [if_pos hactive]

/-- An answer is for the first entry that has its id. -/
theorem wakeup_first {a : Adapter} {k : Nat} {rsp : NicResponse}
    (hhead : a.waitList.head? = some k)
    (hopcode : ¬ (rsp.opcode = lroDeleteResponse ∨ rsp.opcode = lroAddFailureResponse) ∧
      rsp.opcode ≠ getLinkeventResponse)
    (hid : (a.waitEvents k).compId = rsp.compid) (hactive : (a.waitEvents k).active = true) :
    (a.nxOsEventWakeupOnResponse rsp).2 = a.setEvent k ((a.waitEvents k).wakeup rsp.word) := by
  have hfind : a.waitList.find? (fun l => decide ((a.waitEvents l).compId = rsp.compid)) =
      some k := by
    obtain ⟨rest, hlist⟩ := List.head?_eq_some_iff.mp hhead
    rw [hlist]
    exact List.find?_cons_of_pos (decide_eq_true hid)
  unfold nxOsEventWakeupOnResponse
  rw [if_neg hopcode.1, if_neg hopcode.2, hfind]
  show (if (a.waitEvents k).active ≠ true then _ else _ : RCode × Adapter).2 = _
  rw [if_neg (not_not.mpr hactive)]

theorem Ids.wakeup {a : Adapter} (h : a.Ids) (rsp : NicResponse) :
    (a.nxOsEventWakeupOnResponse rsp).2.Ids := by
  rcases a.nxOsEventWakeupOnResponse_cases rsp with heq | ⟨k, -, -, -, heq⟩
  · rw [heq]
    exact h
  · rw [heq]
    have hid : ∀ l, (a.setEvent k ((a.waitEvents k).wakeup rsp.word)).id l = a.id l := fun l =>
      congrArg BitVec.toNat (a.setEvent_wakeup_compId k l rsp.word)
    refine ⟨h.nodup, fun l hl => ?_, fun l hl m hm hne hsame => ?_⟩
    · rw [hid]
      exact h.taken l hl
    · rw [hid, hid] at hsame ⊢
      exact h.apart l hl m hm hne hsame

end Adapter
end Req
end NxNic

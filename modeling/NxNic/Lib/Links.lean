import Mathlib.Data.List.Chain
import Mathlib.Data.List.Nodup
import Mathlib.Logic.Function.Basic

/-! # Circular lists, doubly linked

Each place has a pointer to the next and to the previous place.  A list is a circle through its
head (`Circular`): the head, its elements in order, and the head again.  What is put in or taken
out is described by the two neighbours that it has in the circle.

An insertion and a removal change the pointers of the neighbours only (`ChangesOnly`), so every
other circle stays what it was (`Circular.frame`).  `Circular.added` and `Circular.delInit` are what
the two operations do to the circle of their own, and `Circular.next_head` and
`Circular.next_mem` what a loop along the pointers meets.
-/
namespace NxNic

/-- The pointers of all places. -/
structure Links (α : Type) where
  next : α → α
  prev : α → α

namespace Links
variable {α : Type}

/-! ## Circles -/

/-- One place is followed by another. -/
def Adjacent (L : Links α) (a b : α) : Prop := L.next a = b ∧ L.prev b = a

/-- The list with this head has these elements. -/
structure Circular (L : Links α) (h : α) (l : List α) : Prop where
  nodup : (h :: l).Nodup
  chain : (h :: l ++ [h]).IsChain L.Adjacent

variable {L L' : Links α} {h p b x new : α} {l xs ys : List α}

/-- A chain is one of another relation if the two agree from its elements but the last one to
those but the first one. -/
theorem isChain_imp {R S : α → α → Prop} {l : List α}
    (himp : ∀ a c, a ∈ l.dropLast → c ∈ l.tail → R a c → S a c) (hl : l.IsChain R) :
    l.IsChain S := by
  induction hl with
  | nil => exact .nil
  | singleton a => exact .singleton a
  | @cons_cons a c l hac hl ih =>
    have hhead := himp a c List.mem_cons_self List.mem_cons_self hac
    refine .cons_cons hhead (ih fun a' c' ha hc => ?_)
    exact himp a' c' (List.mem_cons_of_mem _ ha) (List.mem_cons_of_mem _ hc)

/-- The circle, opened between two parts of the list. -/
theorem chain_open (hp : p ∈ (h :: xs).getLast?) (hb : b ∈ (ys ++ [h]).head?) :
    (h :: (xs ++ ys) ++ [h]).IsChain L.Adjacent ↔
      (h :: xs).IsChain L.Adjacent ∧ (ys ++ [h]).IsChain L.Adjacent ∧ L.Adjacent p b := by
  have hsplit : h :: (xs ++ ys) ++ [h] = (h :: xs) ++ (ys ++ [h]) := by simp
  rw [hsplit, List.isChain_append]
  constructor
  · rintro ⟨h₁, h₂, hmid⟩
    exact ⟨h₁, h₂, hmid p hp b hb⟩
  · rintro ⟨h₁, h₂, hmid⟩
    refine ⟨h₁, h₂, fun p' hp' b' hb' => ?_⟩
    obtain rfl := Option.some.inj (hp.symm.trans hp')
    obtain rfl := Option.some.inj (hb.symm.trans hb')
    exact hmid

/-- Neighbours in the circle point to each other. -/
theorem Circular.adjacent (hc : L.Circular h (xs ++ ys)) (hp : p ∈ (h :: xs).getLast?)
    (hb : b ∈ (ys ++ [h]).head?) : L.Adjacent p b := ((chain_open hp hb).mp hc.chain).2.2

theorem not_mem_dropLast (hl : l.Nodup) (hp : p ∈ l.getLast?) : p ∉ l.dropLast := by
  obtain ⟨init, rfl⟩ := List.getLast?_eq_some_iff.mp hp
  rw [List.dropLast_concat]
  exact fun hmem => (List.nodup_append.mp hl).2.2 p hmem p List.mem_cons_self rfl

theorem not_mem_tail (hl : l.Nodup) (hb : b ∈ l.head?) : b ∉ l.tail := by
  obtain ⟨rest, rfl⟩ := List.head?_eq_some_iff.mp hb
  exact (List.nodup_cons.mp hl).1

/-- The parts of an opened circle stay chains when only the pointers between them change. -/
theorem chains_of_agree (hnodup : (h :: (xs ++ ys)).Nodup) (hp : p ∈ (h :: xs).getLast?)
    (hb : b ∈ (ys ++ [h]).head?) (hnext : ∀ a ∈ h :: (xs ++ ys), a ≠ p → L'.next a = L.next a)
    (hprev : ∀ a ∈ h :: (xs ++ ys), a ≠ b → L'.prev a = L.prev a)
    (h₁ : (h :: xs).IsChain L.Adjacent) (h₂ : (ys ++ [h]).IsChain L.Adjacent) :
    (h :: xs).IsChain L'.Adjacent ∧ (ys ++ [h]).IsChain L'.Adjacent := by
  obtain ⟨hhead, hrest⟩ := List.nodup_cons.mp hnodup
  obtain ⟨hxs, hys, hapart⟩ := List.nodup_append.mp hrest
  have hfirst : (h :: xs).Nodup :=
    List.nodup_cons.mpr ⟨fun hmem => hhead (List.mem_append_left _ hmem), hxs⟩
  have hsecond : (ys ++ [h]).Nodup := by
    rw [(List.perm_append_singleton h ys).nodup_iff]
    exact List.nodup_cons.mpr ⟨fun hmem => hhead (List.mem_append_right _ hmem), hys⟩
  -- the elements of the list are apart from the other part of the circle, with the head or without
  have hx : ∀ c ∈ xs, c ∉ ys ++ [h] := by
    intro c hc hmem
    rcases List.mem_append.mp hmem with hy | hh
    · exact hapart c hc c hy rfl
    · exact hhead (List.mem_append_left _ (List.mem_singleton.mp hh ▸ hc))
  have hy : ∀ a ∈ ys, a ∉ h :: xs := by
    intro a ha hmem
    rcases List.mem_cons.mp hmem with rfl | hx
    · exact hhead (List.mem_append_right _ ha)
    · exact hapart a hx a ha rfl
  constructor
  · refine isChain_imp (fun a c ha hc hac => ?_) h₁
    have hap : a ≠ p := fun he => not_mem_dropLast hfirst hp (he ▸ ha)
    have hcb : c ≠ b := fun he => hx c hc (he ▸ List.mem_of_head? hb)
    have ha : a ∈ h :: xs := List.dropLast_subset _ ha
    refine ⟨(hnext a ?_ hap).trans hac.1, (hprev c ?_ hcb).trans hac.2⟩
    · exact List.cons_subset_cons h (List.subset_append_left xs ys) ha
    · exact List.mem_cons_of_mem _ (List.mem_append_left _ hc)
  · refine isChain_imp (fun a c ha hc hac => ?_) h₂
    rw [List.dropLast_concat] at ha
    have hap : a ≠ p := fun he => hy a ha (he ▸ List.mem_of_getLast? hp)
    have hcb : c ≠ b := fun he => not_mem_tail hsecond hb (he ▸ hc)
    refine ⟨(hnext a ?_ hap).trans hac.1, (hprev c ?_ hcb).trans hac.2⟩
    · exact List.mem_cons_of_mem _ (List.mem_append_right _ ha)
    · rcases List.mem_append.mp (List.mem_of_mem_tail hc) with hc | hc
      · exact List.mem_cons_of_mem _ (List.mem_append_right _ hc)
      · exact List.mem_singleton.mp hc ▸ List.mem_cons_self

/-- **Putting in**: a new element between two neighbours. -/
theorem Circular.insert (hc : L.Circular h (xs ++ ys)) (hp : p ∈ (h :: xs).getLast?)
    (hb : b ∈ (ys ++ [h]).head?) (hnew : new ∉ h :: (xs ++ ys))
    (hnext : ∀ a ∈ h :: (xs ++ ys), a ≠ p → L'.next a = L.next a)
    (hprev : ∀ a ∈ h :: (xs ++ ys), a ≠ b → L'.prev a = L.prev a) (hbefore : L'.Adjacent p new)
    (hafter : L'.Adjacent new b) : L'.Circular h (xs ++ new :: ys) := by
  obtain ⟨h₁, h₂, -⟩ := (chain_open hp hb).mp hc.chain
  obtain ⟨h₁, h₂⟩ := chains_of_agree hc.nodup hp hb hnext hprev h₁ h₂
  constructor
  · have hperm : (h :: (xs ++ new :: ys)).Perm (new :: h :: (xs ++ ys)) :=
      (List.Perm.cons h List.perm_middle).trans (List.Perm.swap new h _)
    exact hperm.nodup_iff.mpr (List.nodup_cons.mpr ⟨hnew, hc.nodup⟩)
  · have hsecond : (new :: ys ++ [h]).IsChain L'.Adjacent := by
      rw [List.cons_append, List.isChain_cons]
      refine ⟨fun b' hb' => ?_, h₂⟩
      obtain rfl := Option.some.inj (hb.symm.trans hb')
      exact hafter
    have hhead : new ∈ (new :: ys ++ [h]).head? := rfl
    exact (chain_open hp hhead).mpr ⟨h₁, hsecond, hbefore⟩

/-- **Taking out**: the neighbours of an element become neighbours. -/
theorem Circular.remove (hc : L.Circular h (xs ++ x :: ys)) (hp : p ∈ (h :: xs).getLast?)
    (hb : b ∈ (ys ++ [h]).head?)
    (hnext : ∀ a ∈ h :: (xs ++ ys), a ≠ p → L'.next a = L.next a)
    (hprev : ∀ a ∈ h :: (xs ++ ys), a ≠ b → L'.prev a = L.prev a) (hjoin : L'.Adjacent p b) :
    L'.Circular h (xs ++ ys) := by
  have hperm : (h :: (xs ++ x :: ys)).Perm (x :: h :: (xs ++ ys)) :=
    (List.Perm.cons h List.perm_middle).trans (List.Perm.swap x h _)
  have hnodup : (h :: (xs ++ ys)).Nodup := (List.nodup_cons.mp (hperm.nodup_iff.mp hc.nodup)).2
  have hhead : x ∈ (x :: ys ++ [h]).head? := rfl
  obtain ⟨h₁, h₂, -⟩ := (chain_open hp hhead).mp hc.chain
  rw [List.cons_append, List.isChain_cons] at h₂
  obtain ⟨h₁, h₂⟩ := chains_of_agree hnodup hp hb hnext hprev h₁ h₂.2
  exact ⟨hnodup, (chain_open hp hb).mpr ⟨h₁, h₂, hjoin⟩⟩

/-- Only the pointers of some places change. -/
def ChangesOnly (s : List α) (L L' : Links α) : Prop :=
  ∀ a, a ∉ s → L'.next a = L.next a ∧ L'.prev a = L.prev a

theorem ChangesOnly.mono {s t : List α} (hs : ChangesOnly s L L') (hst : s ⊆ t) :
    ChangesOnly t L L' := fun a ha => hs a fun hmem => ha (hst hmem)

/-- **Frame**: a list is not affected by what happens to the pointers of other places. -/
theorem Circular.frame {s : List α} (hc : L.Circular h l) (hs : ChangesOnly s L L')
    (hapart : ∀ a ∈ h :: l, a ∉ s) : L'.Circular h l := by
  refine ⟨hc.nodup, isChain_imp (fun a c ha hc' hac => ?_) hc.chain⟩
  rw [List.dropLast_concat] at ha
  have hc' : c ∈ h :: l := by
    rcases List.mem_append.mp (List.mem_of_mem_tail hc') with hc' | hc'
    · exact hc'
    · exact List.mem_singleton.mp hc' ▸ List.mem_cons_self
  exact ⟨(hs a (hapart a ha)).1.trans hac.1, (hs c (hapart c hc')).2.trans hac.2⟩

theorem exists_last (h : α) (xs : List α) : ∃ p, p ∈ (h :: xs).getLast? :=
  ⟨(h :: xs).getLast (List.cons_ne_nil h xs), List.getLast?_eq_some_getLast _⟩

theorem exists_head (ys : List α) (h : α) : ∃ b, b ∈ (ys ++ [h]).head? := by
  cases ys with
  | nil => exact ⟨h, rfl⟩
  | cons y ys => exact ⟨y, rfl⟩

theorem mem_of_last (hp : p ∈ (h :: xs).getLast?) : p ∈ h :: (xs ++ ys) :=
  List.cons_subset_cons h (List.subset_append_left xs ys) (List.mem_of_getLast? hp)

theorem mem_of_head (hb : b ∈ (ys ++ [h]).head?) : b ∈ h :: (xs ++ ys) := by
  rcases List.mem_append.mp (List.mem_of_head? hb) with hy | hh
  · exact List.mem_cons_of_mem _ (List.mem_append_right _ hy)
  · exact List.mem_singleton.mp hh ▸ List.mem_cons_self

/-! ## Walking -/

theorem Circular.next_head (hc : L.Circular h l) (hb : b ∈ (l ++ [h]).head?) : L.next h = b := by
  have hh : h ∈ [h].getLast? := rfl
  exact (Circular.adjacent (show L.Circular h ([] ++ l) from hc) hh hb).1

theorem Circular.next_mem (hc : L.Circular h (xs ++ x :: ys)) (hb : b ∈ (ys ++ [h]).head?) :
    L.next x = b := by
  have hlast : x ∈ (h :: (xs ++ [x])).getLast? := by
    rw [← List.cons_append, List.getLast?_concat]
    rfl
  have hc' : L.Circular h ((xs ++ [x]) ++ ys) := by
    rw [List.append_assoc]
    exact hc
  exact (hc'.adjacent hlast hb).1

/-! ## Operations -/

section
variable [DecidableEq α] (L)

def setNext (a b : α) : Links α := { L with next := Function.update L.next a b }
def setPrev (a b : α) : Links α := { L with prev := Function.update L.prev a b }

/-- A place becomes an empty list, or an element of none. -/
def init (a : α) : Links α := (L.setNext a a).setPrev a a

/-- An element is put between two neighbours. -/
def addBetween (new p b : α) : Links α :=
  (((L.setPrev b new).setNext new b).setPrev new p).setNext p new

/-- An element is put at the end of a list. -/
def addTail (new h : α) : Links α := L.addBetween new (L.prev h) h

/-- An element is taken out of its list. -/
def delInit (a : α) : Links α :=
  let p := L.prev a
  let b := L.next a
  ((L.setPrev b p).setNext p b).init a

end

variable [DecidableEq α]

theorem circular_init (L : Links α) (h : α) : (L.init h).Circular h [] := by
  refine ⟨List.nodup_singleton h, List.isChain_pair.mpr ⟨?_, ?_⟩⟩
  · exact Function.update_self ..
  · exact Function.update_self ..

theorem init_changesOnly (L : Links α) (a : α) : ChangesOnly [a] L (L.init a) := by
  intro c hc
  have hca : c ≠ a := fun he => hc (List.mem_singleton.mpr he)
  exact ⟨Function.update_of_ne hca .., Function.update_of_ne hca ..⟩

/-- What an operation leaves that has put `new` between `p` and `b`. -/
structure Added (L L' : Links α) (new p b : α) : Prop where
  next : L'.next = Function.update (Function.update L.next new b) p new
  prev : L'.prev = Function.update (Function.update L.prev b new) new p

theorem added_addBetween (L : Links α) (new p b : α) : Added L (L.addBetween new p b) new p b :=
  ⟨rfl, rfl⟩

theorem Added.changesOnly (ha : Added L L' new p b) : ChangesOnly [new, p, b] L L' := by
  intro c hc
  rw [List.mem_cons, List.mem_cons, List.mem_singleton, not_or, not_or] at hc
  rw [ha.next, ha.prev]
  refine ⟨?_, ?_⟩
  · rw [Function.update_of_ne hc.2.1, Function.update_of_ne hc.1]
  · rw [Function.update_of_ne hc.1, Function.update_of_ne hc.2.2]

theorem Circular.added (hc : L.Circular h (xs ++ ys)) (hp : p ∈ (h :: xs).getLast?)
    (hb : b ∈ (ys ++ [h]).head?) (hnew : new ∉ h :: (xs ++ ys)) (ha : Added L L' new p b) :
    L'.Circular h (xs ++ new :: ys) := by
  have hpnew : p ≠ new := fun he => hnew (he ▸ mem_of_last hp)
  have hbnew : b ≠ new := fun he => hnew (he ▸ mem_of_head hb)
  refine hc.insert hp hb hnew ?_ ?_ ⟨?_, ?_⟩ ⟨?_, ?_⟩
  · intro a hmem hap
    have han : a ≠ new := fun he => hnew (he ▸ hmem)
    rw [ha.next, Function.update_of_ne hap, Function.update_of_ne han]
  · intro a hmem hab
    have han : a ≠ new := fun he => hnew (he ▸ hmem)
    rw [ha.prev, Function.update_of_ne han, Function.update_of_ne hab]
  · rw [ha.next, Function.update_self]
  · rw [ha.prev, Function.update_self]
  · rw [ha.next, Function.update_of_ne hpnew.symm, Function.update_self]
  · rw [ha.prev, Function.update_of_ne hbnew, Function.update_self]

/-- **At the end** of a list: its head is the neighbour behind. -/
theorem Circular.addTail (hc : L.Circular h l) (hnew : new ∉ h :: l) :
    (L.addTail new h).Circular h (l ++ [new]) ∧
      ChangesOnly (new :: h :: l) L (L.addTail new h) := by
  obtain ⟨p, hp⟩ := exists_last h l
  rw [← List.append_nil l] at hc hnew
  have hhead : h ∈ ([] ++ [h]).head? := rfl
  have hprev : L.prev h = p := (hc.adjacent hp hhead).2
  have ha := L.added_addBetween new p h
  rw [Links.addTail, hprev]
  refine ⟨hc.added hp hhead hnew ha, fun c hcmem => ha.changesOnly c fun hmem => hcmem ?_⟩
  rcases List.mem_cons.mp hmem with rfl | hmem
  · exact List.mem_cons_self
  · rcases List.mem_cons.mp hmem with rfl | hmem
    · exact List.mem_cons_of_mem _ (List.mem_of_getLast? hp)
    · exact List.mem_singleton.mp hmem ▸ List.mem_cons_of_mem _ List.mem_cons_self

/-- **Taking out** an element of a list. -/
theorem Circular.delInit (hc : L.Circular h (xs ++ x :: ys)) :
    (L.delInit x).Circular h (xs ++ ys) ∧
      ChangesOnly (h :: (xs ++ x :: ys)) L (L.delInit x) := by
  obtain ⟨p, hp⟩ := exists_last h xs
  obtain ⟨b, hb⟩ := exists_head ys h
  have hx : x ∈ (x :: ys ++ [h]).head? := rfl
  have hprev : L.prev x = p := (hc.adjacent hp hx).2
  have hnext : L.next x = b := hc.next_mem hb
  have hdel : (L.delInit x).next = Function.update (Function.update L.next p b) x x ∧
      (L.delInit x).prev = Function.update (Function.update L.prev b p) x x := by
    rw [Links.delInit, hprev, hnext]
    exact ⟨rfl, rfl⟩
  have hperm : (h :: (xs ++ x :: ys)).Perm (x :: h :: (xs ++ ys)) :=
    (List.Perm.cons h List.perm_middle).trans (List.Perm.swap x h _)
  have hxnot : x ∉ h :: (xs ++ ys) := (List.nodup_cons.mp (hperm.nodup_iff.mp hc.nodup)).1
  have hpmem : p ∈ h :: (xs ++ ys) := mem_of_last hp
  have hbmem : b ∈ h :: (xs ++ ys) := mem_of_head hb
  have hne : ∀ a ∈ h :: (xs ++ ys), a ≠ x := fun a ha he => hxnot (he ▸ ha)
  constructor
  · refine hc.remove hp hb ?_ ?_ ⟨?_, ?_⟩
    · intro a ha hap
      rw [hdel.1, Function.update_of_ne (hne a ha), Function.update_of_ne hap]
    · intro a ha hab
      rw [hdel.2, Function.update_of_ne (hne a ha), Function.update_of_ne hab]
    · rw [hdel.1, Function.update_of_ne (hne p hpmem), Function.update_self]
    · rw [hdel.2, Function.update_of_ne (hne b hbmem), Function.update_self]
  · intro a ha
    rw [hperm.mem_iff, List.mem_cons, not_or] at ha
    have hap : a ≠ p := fun he => ha.2 (he ▸ hpmem)
    have hab : a ≠ b := fun he => ha.2 (he ▸ hbmem)
    rw [hdel.1, hdel.2, Function.update_of_ne ha.1, Function.update_of_ne hap,
      Function.update_of_ne ha.1, Function.update_of_ne hab]
    exact ⟨rfl, rfl⟩

end Links
end NxNic

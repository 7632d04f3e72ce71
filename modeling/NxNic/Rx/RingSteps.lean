import NxNic.Lib.Places
import NxNic.Rx.Posting

/-! # One receive ring

What the machine does to one receive ring (`RingView`), step by step
(`RingStep`), and the invariant of these steps (`RingInv`): each buffer is in
one place, the counts are those of the lists, one call at most is posting, and
the descriptors the card has not read are as they were written.

A step of `rxMachine` touches one ring, or none of them, so that `Rx/Rings` can
follow each ring alone: an invariant of the steps here is one of all runs there.
A buffer's places are the card with the descriptors it has still to read, the free
lists of the ring and of the status rings, a call that is posting, and, for a buffer
whose message was dropped, none of these (`Place.lost`).
-/
namespace NxNic
namespace Rx

/-- What there is of one receive ring. -/
structure RingView where
  rds : RdsRing
  sds : Nat → FreeRbufs
  posters : Nat → Option Poster
  card : Card
  fills : Nat
  lost : List Nat

def RxState.view (st : RxState) (ring : Nat) : RingView where
  rds := st.ctx.rdsRings ring
  sds s := st.ctx.freeRbufs s ring
  posters t := (st.posters t).filter fun p => p.ring = ring
  card := st.card ring
  fills := st.fills ring
  lost := st.lost ring

/-- Where a buffer can be: the places of the driver and of the card, or none of
them. -/
inductive Place where
  | posted
  | free
  | sds (s : Nat)
  | inFlight (t : Nat)
  | lost
deriving DecidableEq

/-- The buffers in a place. -/
def RingView.listAt (v : RingView) : Place → List Nat
  | .posted => v.card.unread ++ v.card.held
  | .free => v.rds.freeRxbufs.head
  | .sds s => (v.sds s).head
  | .inFlight t => (v.posters t).elim [] fun p => p.freeList.head
  | .lost => v.lost

namespace RingView

/-- The card returns a buffer, which goes on the list of the status ring `s`. -/
def giveBack (v : RingView) (s index : Nat) (rds : RdsRing) : RingView :=
  { v with
    rds := rds
    sds := Function.update v.sds s ((v.sds s).addTail index)
    card := { v.card with held := v.card.held.erase index } }

/-- The card returns a buffer in a message that is dropped. -/
def drop (v : RingView) (index : Nat) : RingView :=
  { v with
    card := { v.card with held := v.card.held.erase index }
    lost := v.lost ++ [index] }

/-- The list of the status ring `s` is put on `free_rxbufs`. -/
def splice (v : RingView) (s : Nat) : RingView :=
  { v with
    rds := { v.rds with freeRxbufs := v.rds.freeRxbufs.splice (v.sds s).count (v.sds s).head }
    sds := Function.update v.sds s ⟨0, []⟩ }

def start (v : RingView) (t ring : Nat) : RingView :=
  { v with
    rds := v.rds.startPosting
    posters := Function.update v.posters t (some (v.rds.poster ring)) }

def post (v : RingView) (t : Nat) (r : PostResult) : RingView :=
  { v with
    rds := r.rds
    posters := Function.update v.posters t r.poster
    card := { v.card with unread := v.card.unread ++ r.posted.toList }
    fills := v.fills + if r.unaccounted then 1 else 0 }

def fetch (v : RingView) (size : Nat) : RingView :=
  { v with card := v.card.fetch size v.rds.hostAddr }

end RingView

/-- The steps of a ring of `size` buffers. -/
inductive RingStep (size dmaSize : Nat) : RingView → RingView → Prop
  | consume {v : RingView} (s index : Nat) (o : Option (Nat × Nat)) (hheld : index ∈ v.card.held)
      (hskb : (v.rds.rxBufArr index).skb ≠ none) :
      RingStep size dmaSize v (v.giveBack s index (v.rds.consume index o))
  | repost {v : RingView} (s index : Nat) (hheld : index ∈ v.card.held) :
      RingStep size dmaSize v (v.giveBack s index v.rds)
  | drop {v : RingView} (index : Nat) (hheld : index ∈ v.card.held) :
      RingStep size dmaSize v (v.drop index)
  | splice {v : RingView} (s : Nat) : RingStep size dmaSize v (v.splice s)
  | start {v : RingView} (t ring : Nat) (hidle : v.posters t = none)
      (hfree : v.rds.posting = false) : RingStep size dmaSize v (v.start t ring)
  | post {v : RingView} (t : Nat) (p : Poster) (o : Option (Nat × Nat))
      (hp : v.posters t = some p) :
      RingStep size dmaSize v (v.post t (nxPostStep size dmaSize o v.rds p))
  | fetch {v : RingView} (hunread : v.card.unread ≠ []) :
      RingStep size dmaSize v (v.fetch size)

/-! ## The invariant -/

/-- The call still has its list. -/
def Poster.HasList (p : Poster) : Prop := p.pc = .posting ∨ p.pc = .returning

/-- The call has stored the producer. -/
def Poster.Stored (p : Poster) : Prop := p.pc = .ringing ∨ p.pc = .finishing

/-- The invariant of one receive ring. -/
structure RingInv (size dmaSize : Nat) (v : RingView) : Prop where
  places : Places v.listAt (Finset.range size)
  freeCount : v.rds.freeRxbufs.count = v.rds.freeRxbufs.head.length
  sdsCount : ∀ s, (v.sds s).count = (v.sds s).head.length
  inFlightCount : ∀ t p, v.posters t = some p → p.HasList →
    p.freeList.count = p.freeList.head.length + p.count
  inFlightDone : ∀ t p, v.posters t = some p → ¬ p.HasList → p.freeList.head = []
  posting : v.rds.posting = true ↔ ∃ t p, v.posters t = some p
  one : ∀ t t' p p', v.posters t = some p → v.posters t' = some p' → t = t'
  skb : ∀ i ∈ v.card.unread ++ v.card.held, (v.rds.rxBufArr i).skb ≠ none
  refHandle : ∀ i, (v.rds.rxBufArr i).refHandle = i
  desc : ∀ j (h : j < v.card.unread.length), v.rds.hostAddr ((v.card.read + j) % size) =
    ⟨(v.rds.rxBufArr v.card.unread[j]).dma, v.card.unread[j], dmaSize⟩
  inFlightProducer : ∀ t p, v.posters t = some p →
    p.producer = (v.card.read + v.card.unread.length) % size
  producer : (∀ t p, v.posters t = some p → p.Stored) →
    v.rds.producer = (v.card.read + v.card.unread.length) % size

variable {size dmaSize : Nat} {v : RingView}

@[simp] theorem RdsRing.setBuf_self (r : RdsRing) (index : Nat) (b : RxBuffer) :
    (r.setBuf index b).rxBufArr index = b := Function.update_self _ _ _

theorem RdsRing.setBuf_of_ne (r : RdsRing) {index i : Nat} (b : RxBuffer) (h : i ≠ index) :
    (r.setBuf index b).rxBufArr i = r.rxBufArr i := Function.update_of_ne h _ _

namespace RingInv

theorem mem_posted {i : Nat} (hi : i ∈ v.card.held) : i ∈ v.listAt .posted :=
  List.mem_append_right _ hi

/-- A buffer the card holds has its descriptor read. -/
theorem unread_ne (h : RingInv size dmaSize v) {i : Nat} (hi : i ∈ v.card.held) {j : Nat}
    (hj : j < v.card.unread.length) : v.card.unread[j] ≠ i := fun he =>
  (List.nodup_append.mp (h.places.nodup .posted)).2.2 _ (List.getElem_mem hj) i hi he

/-- A buffer that the card holds is moved to the end of another list. -/
theorem perm_erase_append (unread l : List Nat) {held : List Nat} {index : Nat}
    (hheld : index ∈ held) :
    (unread ++ held.erase index ++ (l ++ [index])).Perm (unread ++ held ++ l) := by
  have hperm : (held.erase index ++ [index]).Perm held :=
    List.perm_append_comm.trans (List.perm_cons_erase hheld).symm
  rw [List.perm_iff_count] at hperm ⊢
  intro a
  have := hperm a
  simp only [List.count_append] at this ⊢
  omega

/-- A buffer is given back, with another skb or none. -/
theorem giveBack (h : RingInv size dmaSize v) (s : Nat) {index : Nat}
    (hheld : index ∈ v.card.held) (b : RxBuffer) (hb : b.refHandle = index) (failures : Nat) :
    RingInv size dmaSize
      (v.giveBack s index { v.rds.setBuf index b with allocFailures := failures }) := by
  have hnodup := h.places.nodup .posted
  have hne : ∀ i ∈ v.card.unread ++ v.card.held.erase index, i ≠ index := by
    intro i hi
    obtain ⟨hu, hh, hdisj⟩ := List.nodup_append.mp hnodup
    rcases List.mem_append.mp hi with hi | hi
    · exact hdisj i hi index hheld
    · exact fun he => (hh.mem_erase_iff.mp hi).1 he
  refine
    { h with
      places := ?_, sdsCount := ?_, skb := ?_, refHandle := ?_, desc := ?_ }
  · refine h.places.move (i := .posted) (j := .sds s) (by simp) ?_ ?_
    · simp only [RingView.listAt, RingView.giveBack, Function.update_self, FreeRbufs.addTail]
      exact perm_erase_append v.card.unread (v.sds s).head hheld
    · intro k hposted hsds
      cases k with
      | posted => exact absurd rfl hposted
      | free => rfl
      | sds s' =>
        have hs : s' ≠ s := fun he => hsds (he ▸ rfl)
        simp only [RingView.listAt, RingView.giveBack, Function.update_of_ne hs]
      | inFlight t => rfl
      | lost => rfl
  · intro s'
    by_cases hs : s' = s
    · subst hs
      simp only [RingView.giveBack, Function.update_self, FreeRbufs.addTail, List.length_append,
        List.length_singleton, h.sdsCount s']
    · simp only [RingView.giveBack, Function.update_of_ne hs]
      exact h.sdsCount s'
  · intro i hi
    have hi' : i ∈ v.card.unread ++ v.card.held := by
      rcases List.mem_append.mp hi with hi | hi
      · exact List.mem_append_left _ hi
      · exact List.mem_append_right _ (List.mem_of_mem_erase hi)
    show ((v.rds.setBuf index b).rxBufArr i).skb ≠ none
    rw [RdsRing.setBuf_of_ne _ _ (hne i hi)]
    exact h.skb i hi'
  · intro i
    show ((v.rds.setBuf index b).rxBufArr i).refHandle = i
    by_cases hi : i = index
    · subst hi
      rw [RdsRing.setBuf_self, hb]
    · rw [RdsRing.setBuf_of_ne _ _ hi]
      exact h.refHandle i
  · intro j hj
    have hj : j < v.card.unread.length := hj
    show v.rds.hostAddr ((v.card.read + j) % size) =
      ⟨((v.rds.setBuf index b).rxBufArr v.card.unread[j]).dma, v.card.unread[j], dmaSize⟩
    rw [RdsRing.setBuf_of_ne _ _ (h.unread_ne hheld hj)]
    exact h.desc j hj

/-- A buffer is given back in a message that is dropped. -/
theorem drop (h : RingInv size dmaSize v) {index : Nat} (hheld : index ∈ v.card.held) :
    RingInv size dmaSize (v.drop index) := by
  refine { h with places := ?_, skb := ?_ }
  · refine h.places.move (i := .posted) (j := .lost) (by simp) ?_ ?_
    · exact perm_erase_append v.card.unread v.lost hheld
    · intro k hposted hlost
      cases k with
      | posted => exact absurd rfl hposted
      | free => rfl
      | sds s => rfl
      | inFlight t => rfl
      | lost => exact absurd rfl hlost
  · intro i hi
    refine h.skb i ?_
    rcases List.mem_append.mp hi with hi | hi
    · exact List.mem_append_left _ hi
    · exact List.mem_append_right _ (List.mem_of_mem_erase hi)

/-- The freed buffers of a status ring are put on `free_rxbufs`. -/
theorem splice (h : RingInv size dmaSize v) (s : Nat) : RingInv size dmaSize (v.splice s) := by
  refine { h with places := ?_, freeCount := ?_, sdsCount := ?_ }
  · refine h.places.move (i := .free) (j := .sds s) (by simp) ?_ ?_
    · simp [RingView.listAt, RingView.splice, FreeRbufs.splice]
    · intro k hfree hsds
      cases k with
      | posted => rfl
      | free => exact absurd rfl hfree
      | sds s' =>
        have hs : s' ≠ s := fun he => hsds (he ▸ rfl)
        simp only [RingView.listAt, RingView.splice, Function.update_of_ne hs]
      | inFlight t => rfl
      | lost => rfl
  · simp only [RingView.splice, FreeRbufs.splice, List.length_append, h.freeCount, h.sdsCount s]
  · intro s'
    by_cases hs : s' = s
    · subst hs
      simp only [RingView.splice, Function.update_self, List.length_nil]
    · simp only [RingView.splice, Function.update_of_ne hs]
      exact h.sdsCount s'

/-- What holds of the calls of a view where the call of `t` is replaced. -/
theorem forall_update {f : Nat → Option Poster} {t : Nat} {o : Option Poster}
    {P : Nat → Poster → Prop} (hself : ∀ p, o = some p → P t p)
    (hother : ∀ u p, u ≠ t → f u = some p → P u p) :
    ∀ u p, Function.update f t o u = some p → P u p :=
  (Function.forall_update_iff f fun u o => ∀ p, o = some p → P u p).mpr
    ⟨hself, fun u hu p => hother u p hu⟩

/-- A call takes over `free_rxbufs`. -/
theorem start (h : RingInv size dmaSize v) {t : Nat} (ring : Nat) (hidle : v.posters t = none)
    (hfree : v.rds.posting = false) : RingInv size dmaSize (v.start t ring) := by
  -- while `posting` is not set no call is under way
  have hnone : ∀ u p, v.posters u ≠ some p := by
    intro u p hu
    have := h.posting.mpr ⟨u, p, hu⟩
    rw [hfree] at this
    cases this
  have hproducer := h.producer fun u p hu => absurd hu (hnone u p)
  have hall : ∀ {P : Nat → Poster → Prop}, P t (v.rds.poster ring) →
      ∀ u p, (v.start t ring).posters u = some p → P u p := fun hself =>
    forall_update (fun p hp => Option.some.inj hp ▸ hself) fun u p _ hu => absurd hu (hnone u p)
  refine
    { h with
      places := ?_
      freeCount := rfl
      inFlightCount := hall fun _ => h.freeCount
      inFlightDone := hall fun hlist => absurd (Or.inl rfl) hlist
      posting := ?_
      one := ?_
      inFlightProducer := hall hproducer
      producer := fun _ => hproducer }
  · refine h.places.move (i := .free) (j := .inFlight t) (by simp) ?_ ?_
    · simp [RingView.listAt, RingView.start, RdsRing.startPosting, RdsRing.poster, hidle]
    · intro k hfree hsds
      cases k with
      | posted => rfl
      | free => exact absurd rfl hfree
      | sds s' => rfl
      | inFlight u =>
        have hu : u ≠ t := fun he => hsds (he ▸ rfl)
        simp only [RingView.listAt, RingView.start, Function.update_of_ne hu]
      | lost => rfl
  · exact ⟨fun _ => ⟨t, _, Function.update_self _ _ _⟩, fun _ => rfl⟩
  · intro u u' p p' hu hu'
    have heq := hall (P := fun u _ => u = t) rfl
    rw [heq u p hu, heq u' p' hu']

/-- A call goes on without posting a buffer. -/
theorem stay (h : RingInv size dmaSize v) {t : Nat} {p p' : Poster} (hp : v.posters t = some p)
    (rds : RdsRing) (hlist : p.freeList = p'.freeList) (hcount : p.count = p'.count)
    (hproducer : p.producer = p'.producer) (hpc : p'.HasList ↔ p.HasList)
    (hbuf : rds.rxBufArr = v.rds.rxBufArr) (hfree : rds.freeRxbufs = v.rds.freeRxbufs)
    (hposting : rds.posting = v.rds.posting) (haddr : rds.hostAddr = v.rds.hostAddr)
    (hstored : p'.Stored → rds.producer = p.producer) :
    RingInv size dmaSize
      { v with rds := rds, posters := Function.update v.posters t (some p') } := by
  refine
    { h with
      places := ?_
      freeCount := hfree ▸ h.freeCount
      inFlightCount := forall_update
        (fun q hq hl => Option.some.inj hq ▸ hcount ▸ hlist ▸
          h.inFlightCount t p hp (hpc.mp (Option.some.inj hq ▸ hl)))
        fun u q _ hu => h.inFlightCount u q hu
      inFlightDone := forall_update
        (fun q hq hl => Option.some.inj hq ▸ hlist ▸
          h.inFlightDone t p hp fun hl' => hl (Option.some.inj hq ▸ hpc.mpr hl'))
        fun u q _ hu => h.inFlightDone u q hu
      posting := ?_
      one := ?_
      skb := hbuf ▸ h.skb
      refHandle := hbuf ▸ h.refHandle
      desc := hbuf ▸ haddr ▸ h.desc
      inFlightProducer := forall_update
        (fun q hq => Option.some.inj hq ▸ hproducer ▸ h.inFlightProducer t p hp)
        fun u q _ hu => h.inFlightProducer u q hu
      producer := fun hall => ?_ }
  · have hsame : RingView.listAt
        { v with rds := rds, posters := Function.update v.posters t (some p') } = v.listAt := by
      funext k
      cases k with
      | posted => rfl
      | free => simp only [RingView.listAt, hfree]
      | sds s => rfl
      | inFlight u =>
        by_cases hu : u = t
        · subst hu
          simp only [RingView.listAt, Function.update_self, hp, Option.elim_some, hlist]
        · simp only [RingView.listAt, Function.update_of_ne hu]
      | lost => rfl
    exact hsame ▸ h.places
  · rw [hposting, h.posting]
    exact iff_of_true ⟨t, p, hp⟩ ⟨t, p', Function.update_self _ _ _⟩
  · have hall : ∀ u q, Function.update v.posters t (some p') u = some q → u = t :=
      forall_update (fun _ _ => rfl) fun u q _ hu => h.one u t q p hu hp
    intro u u' q q' hu hu'
    rw [hall u q hu, hall u' q' hu']
  · exact (hstored (hall t p' (Function.update_self _ _ _))).trans (h.inFlightProducer t p hp)

/-- What is left of the list of a call goes back on `free_rxbufs`. -/
theorem putBack (h : RingInv size dmaSize v) {t : Nat} {p : Poster} (hp : v.posters t = some p)
    (count : Nat) (hcount : count = p.freeList.head.length) :
    RingInv size dmaSize
      { v with
        rds := { v.rds with freeRxbufs := v.rds.freeRxbufs.splice count p.freeList.head }
        posters := Function.update v.posters t
          (some { p with freeList := ⟨count, []⟩, pc := .storing }) } := by
  -- the call of `t` is the only one, so what holds of it holds of all
  have hnone : ∀ u q, u ≠ t → v.posters u ≠ some q := fun u q hu hq => hu (h.one u t q p hq hp)
  have hall : ∀ {P : Nat → Poster → Prop},
      P t { p with freeList := ⟨count, []⟩, pc := .storing } →
      ∀ u q, Function.update v.posters t (some { p with freeList := ⟨count, []⟩, pc := .storing })
        u = some q → P u q := fun hself =>
    forall_update (fun q hq => Option.some.inj hq ▸ hself) fun u q hu hq =>
      absurd hq (hnone u q hu)
  refine
    { h with
      places := ?_
      freeCount := ?_
      inFlightCount := hall fun hlist => by rcases hlist with hlist | hlist <;> cases hlist
      inFlightDone := hall fun _ => rfl
      posting := ?_
      one := ?_
      inFlightProducer := hall (h.inFlightProducer t p hp)
      producer := fun hstored => ?_ }
  · refine h.places.move (i := .free) (j := .inFlight t) (by simp) ?_ ?_
    · simp [RingView.listAt, FreeRbufs.splice, hp]
    · intro k hfree hsds
      cases k with
      | posted => rfl
      | free => exact absurd rfl hfree
      | sds s' => rfl
      | inFlight u =>
        have hu : u ≠ t := fun he => hsds (he ▸ rfl)
        simp only [RingView.listAt, Function.update_of_ne hu]
      | lost => rfl
  · simp only [FreeRbufs.splice, List.length_append, h.freeCount, hcount]
  · exact h.posting.trans (iff_of_true ⟨t, p, hp⟩ ⟨t, _, Function.update_self _ _ _⟩)
  · intro u u' q q' hu hu'
    have heq := hall (P := fun u _ => u = t) rfl
    rw [heq u q hu, heq u' q' hu']
  · have := hstored t _ (Function.update_self _ _ _)
    rcases this with this | this <;> cases this

/-- A call returns. -/
theorem finish (h : RingInv size dmaSize v) {t : Nat} {p : Poster} (hp : v.posters t = some p)
    (hpc : p.pc = .finishing) :
    RingInv size dmaSize
      { v with
        rds := { v.rds with posting := false }
        posters := Function.update v.posters t none } := by
  have hnone : ∀ u q, Function.update v.posters t none u ≠ some q := by
    intro u q hu
    refine forall_update (P := fun _ _ => False) (fun _ h => by cases h) ?_ u q hu
    exact fun u q hu hq => hu (h.one u t q p hq hp)
  have hdone : p.freeList.head = [] :=
    h.inFlightDone t p hp fun hlist => by rcases hlist with hl | hl <;> rw [hpc] at hl <;> cases hl
  refine
    { h with
      places := ?_
      inFlightCount := fun u q hu => absurd hu (hnone u q)
      inFlightDone := fun u q hu => absurd hu (hnone u q)
      posting := ⟨fun hf => absurd hf Bool.false_ne_true, fun ⟨u, q, hu⟩ => absurd hu (hnone u q)⟩
      one := fun u _ q _ hu => absurd hu (hnone u q)
      inFlightProducer := fun u q hu => absurd hu (hnone u q)
      producer := fun _ => ?_ }
  · have hsame : RingView.listAt
        { v with rds := { v.rds with posting := false },
                 posters := Function.update v.posters t none } = v.listAt := by
      funext k
      cases k with
      | posted => rfl
      | free => rfl
      | sds s => rfl
      | inFlight u =>
        by_cases hu : u = t
        · subst hu
          simp only [RingView.listAt, Function.update_self, hp, Option.elim_some, hdone,
            Option.elim_none]
        · simp only [RingView.listAt, Function.update_of_ne hu]
      | lost => rfl
    exact hsame ▸ h.places
  · refine h.producer fun u q hu => ?_
    obtain rfl := h.one u t q p hu hp
    obtain rfl := Option.some.inj (hp.symm.trans hu)
    exact Or.inr hpc

/-- While a call has a buffer to post, the card has not read fewer descriptors
than the ring has room for, less one. -/
theorem unread_lt (h : RingInv size dmaSize v) {t : Nat} {p : Poster} (hp : v.posters t = some p)
    {index : Nat} {rest : List Nat} (hhead : p.freeList.head = index :: rest) :
    v.card.unread.length < size := by
  have hle := h.places.length_add_le (i := .posted) (j := .inFlight t) (by simp)
  simp only [RingView.listAt, hp, Option.elim_some, hhead, List.length_append, List.length_cons,
    Finset.card_range] at hle
  omega

/-- A buffer is posted. -/
theorem posted (h : RingInv size dmaSize v) {t : Nat} {p : Poster} (hp : v.posters t = some p)
    (hpc : p.pc = .posting) {index : Nat} {rest : List Nat}
    (hhead : p.freeList.head = index :: rest) {b : RxBuffer} (hskb : b.skb ≠ none)
    (hb : b.refHandle = index) (failures fills : Nat) :
    RingInv size dmaSize
      { rds := ({ v.rds.setBuf index b with allocFailures := failures }).writeDesc dmaSize
          p.producer index
        sds := v.sds
        posters := Function.update v.posters t (some (p.advance size rest))
        card := { v.card with unread := v.card.unread ++ [index] }
        fills := fills
        lost := v.lost } := by
  have hlt := h.unread_lt hp hhead
  have hprod := h.inFlightProducer t p hp
  have hnone : ∀ u q, u ≠ t → v.posters u ≠ some q := fun u q hu hq => hu (h.one u t q p hq hp)
  have hall : ∀ {P : Nat → Poster → Prop}, P t (p.advance size rest) →
      ∀ u q, Function.update v.posters t (some (p.advance size rest)) u = some q → P u q :=
    fun hself => forall_update (fun q hq => Option.some.inj hq ▸ hself) fun u q hu hq =>
      absurd hq (hnone u q hu)
  have hmem : index ∈ v.listAt (.inFlight t) := by
    simp only [RingView.listAt, hp, Option.elim_some, hhead, List.mem_cons_self]
  have hne : ∀ i ∈ v.card.unread ++ v.card.held, i ≠ index := by
    intro i hi he
    have := h.places.unique (i := .posted) (j := .inFlight t) hi (he ▸ hmem)
    cases this
  refine
    { h with
      places := ?_
      inFlightCount := hall fun _ => ?_
      inFlightDone := hall fun hlist => absurd (Or.inl hpc) hlist
      posting := ?_
      one := ?_
      skb := ?_
      refHandle := ?_
      desc := ?_
      inFlightProducer := hall ?_
      producer := fun hstored => ?_ }
  · refine h.places.move (i := .posted) (j := .inFlight t) (by simp) ?_ ?_
    · simp only [RingView.listAt, Function.update_self, Option.elim_some, Poster.advance, hp, hhead]
      rw [List.perm_iff_count]
      intro a
      simp only [List.count_append, List.count_cons, List.count_nil]
      omega
    · intro k hposted hinFlight
      cases k with
      | posted => exact absurd rfl hposted
      | free => rfl
      | sds s' => rfl
      | inFlight u =>
        have hu : u ≠ t := fun he => hinFlight (he ▸ rfl)
        simp only [RingView.listAt, Function.update_of_ne hu]
      | lost => rfl
  · have := h.inFlightCount t p hp (Or.inl hpc)
    rw [hhead, List.length_cons] at this
    simp only [Poster.advance]
    omega
  · exact h.posting.trans (iff_of_true ⟨t, p, hp⟩ ⟨t, _, Function.update_self _ _ _⟩)
  · intro u u' q q' hu hu'
    have heq := hall (P := fun u _ => u = t) rfl
    rw [heq u q hu, heq u' q' hu']
  · intro i hi
    show ((v.rds.setBuf index b).rxBufArr i).skb ≠ none
    by_cases he : i = index
    · rw [he, RdsRing.setBuf_self]
      exact hskb
    · rw [RdsRing.setBuf_of_ne _ _ he]
      refine h.skb i ?_
      simpa [he] using hi
  · intro i
    show ((v.rds.setBuf index b).rxBufArr i).refHandle = i
    by_cases he : i = index
    · rw [he, RdsRing.setBuf_self, hb]
    · rw [RdsRing.setBuf_of_ne _ _ he]
      exact h.refHandle i
  · -- only the slot after the descriptors not read yet is written
    intro j hj
    simp only [List.length_append, List.length_singleton] at hj
    show Function.update v.rds.hostAddr p.producer
      ⟨((v.rds.setBuf index b).rxBufArr index).dma,
        ((v.rds.setBuf index b).rxBufArr index).refHandle, dmaSize⟩
      ((v.card.read + j) % size) = ⟨((v.rds.setBuf index b).rxBufArr
        (v.card.unread ++ [index])[j]).dma, (v.card.unread ++ [index])[j], dmaSize⟩
    rw [hprod]
    by_cases hlast : j = v.card.unread.length
    · subst hlast
      rw [Function.update_self, List.getElem_concat_length, RdsRing.setBuf_self, hb]
      rfl
    · have hj' : j < v.card.unread.length := by omega
      -- fewer than `size` descriptors are unread, so their slots differ
      have hslot : (v.card.read + j) % size ≠ (v.card.read + v.card.unread.length) % size := by
        intro he
        have := Ring.eq_of_mod_eq (by omega) (by omega) he
        omega
      rw [Function.update_of_ne hslot, List.getElem_append_left hj',
        RdsRing.setBuf_of_ne _ _ (hne _ (List.mem_append_left _ (List.getElem_mem hj')))]
      exact h.desc j hj'
  · simp only [Poster.advance, List.length_append, List.length_singleton]
    rw [hprod, Ring.next_mod _ (by omega), Nat.add_assoc]
  · have := hstored t _ (Function.update_self _ _ _)
    rcases this with this | this <;> rw [Poster.advance, hpc] at this <;> cases this

/-- The card reads a descriptor: it gets the handle that was posted. -/
theorem fetch (h : RingInv size dmaSize v) (hunread : v.card.unread ≠ []) :
    RingInv size dmaSize (v.fetch size) := by
  obtain ⟨index, rest, hcons⟩ := List.exists_cons_of_ne_nil hunread
  -- the descriptor in the slot is still the one that was written for `index`
  have hslot := h.desc 0 (by rw [hcons]; exact Nat.succ_pos _)
  simp only [Nat.add_zero, hcons, List.getElem_cons_zero] at hslot
  have hcard : (v.fetch size).card = ⟨v.card.read + 1, rest, v.card.held ++ [index]⟩ := by
    simp only [RingView.fetch, Card.fetch, hslot, hcons, List.tail_cons]
  have hlength : v.card.read + 1 + rest.length = v.card.read + v.card.unread.length := by
    rw [hcons, List.length_cons]
    omega
  have hperm : (rest ++ (v.card.held ++ [index])).Perm (v.card.unread ++ v.card.held) := by
    rw [hcons, List.perm_iff_count]
    intro a
    simp only [List.count_append, List.count_cons, List.count_nil]
    omega
  refine
    { h with
      places := ?_, skb := ?_, desc := ?_, inFlightProducer := ?_, producer := ?_ }
  · refine h.places.reorder (i := .posted) ?_ ?_
    · simp only [RingView.listAt, hcard]
      exact hperm
    · intro k hk
      cases k with
      | posted => exact absurd rfl hk
      | free => rfl
      | sds s => rfl
      | inFlight u => rfl
      | lost => rfl
  · intro i hi
    rw [hcard] at hi
    exact h.skb i (hperm.mem_iff.mp hi)
  · intro j hj
    simp only [hcard] at hj ⊢
    have := h.desc (j + 1) (by rw [hcons, List.length_cons]; omega)
    simp only [hcons, List.getElem_cons_succ] at this
    rw [Nat.add_assoc, Nat.add_comm 1 j]
    exact this
  · intro t p hp
    rw [hcard]
    exact hlength ▸ h.inFlightProducer t p hp
  · intro hstored
    rw [hcard]
    exact hlength ▸ h.producer hstored

end RingInv

/-! ## The steps keep it -/

/-- `process_rxbuffer` rewrites one buffer and, when it gets no skb, counts. -/
theorem RdsRing.consume_cases (r : RdsRing) (index : Nat) (o : Option (Nat × Nat)) :
    (∃ b : RxBuffer, b.skb = none ∧ b.refHandle = (r.rxBufArr index).refHandle ∧
      r.consume index o =
        { r.setBuf index b with allocFailures := r.allocFailures + 1 }) ∨
    ∃ b : RxBuffer, b.skb ≠ none ∧ b.refHandle = (r.rxBufArr index).refHandle ∧
      r.consume index o = r.setBuf index b := by
  cases o with
  | none => exact Or.inl ⟨{ r.rxBufArr index with skb := none }, rfl, rfl, rfl⟩
  | some x => exact Or.inr ⟨⟨some x.1, x.2, _⟩, Option.some_ne_none _, rfl, rfl⟩

/-- What a round of the loop of `nx_post_rx_descriptors` does. -/
theorem nxPostRound_cases (size dmaSize : Nat) (o : Option (Nat × Nat)) (r : RdsRing)
    (p : Poster) :
    (∃ allocated, nxPostRound size dmaSize o r p =
      ⟨r, some { p with pc := .returning }, allocated, none, false⟩) ∨
    (∃ index rest, p.freeList.head = index :: rest ∧ (r.rxBufArr index).skb ≠ none ∧
      nxPostRound size dmaSize o r p =
        ⟨r.writeDesc dmaSize p.producer index, some (p.advance size rest), false, some index,
          false⟩) ∨
    ∃ index rest b, p.freeList.head = index :: rest ∧ (r.rxBufArr index).skb = none ∧
      b.skb ≠ none ∧ b.refHandle = (r.rxBufArr index).refHandle ∧
      nxPostRound size dmaSize o r p =
        ⟨({ r.setBuf index b with allocFailures := r.allocFailures - 1 }).writeDesc dmaSize
            p.producer index,
          some (p.advance size rest), true, some index, r.allocFailures = 0⟩ := by
  unfold nxPostRound
  cases hhead : p.freeList.head with
  | nil => exact Or.inl ⟨false, rfl⟩
  | cons index rest =>
    simp only
    by_cases hskb : (r.rxBufArr index).skb = none
    · rw [if_pos hskb]
      cases o with
      | none => exact Or.inl ⟨true, rfl⟩
      | some x =>
        refine Or.inr (Or.inr ⟨index, rest, ⟨some x.1, x.2, _⟩, rfl, hskb,
          Option.some_ne_none _, rfl, ?_⟩)
        have hdec : ∀ r : RdsRing,
            r.decFailures = { r with allocFailures := r.allocFailures - 1 } := by
          intro r
          unfold RdsRing.decFailures
          split
          · rfl
          · have : r.allocFailures - 1 = r.allocFailures := by omega
            rw [this]
        simp only [nxAllocRxSkb, Option.map_some, hdec]
        rfl
    · rw [if_neg hskb]
      exact Or.inr (Or.inl ⟨index, rest, rfl, hskb, rfl⟩)

/-- The other steps of `nx_post_rx_descriptors` store to the ring, but neither
to its buffers nor to its descriptors. -/
theorem RingInv.post (h : RingInv size dmaSize v) {t : Nat} {p : Poster}
    (hp : v.posters t = some p) (o : Option (Nat × Nat)) :
    RingInv size dmaSize (v.post t (nxPostStep size dmaSize o v.rds p)) := by
  unfold nxPostStep
  cases hpc : p.pc with
  | posting =>
    simp only
    obtain ⟨allocated, heq⟩ | ⟨index, rest, hhead, hskb, heq⟩ |
      ⟨index, rest, b, hhead, -, hskb, hb, heq⟩ := nxPostRound_cases size dmaSize o v.rds p
    · rw [heq]
      have hlist : ({ p with pc := .returning } : Poster).HasList ↔ p.HasList :=
        iff_of_true (Or.inr rfl) (Or.inl hpc)
      have hstay : RingInv size dmaSize { v with
          posters := Function.update v.posters t (some { p with pc := .returning }) } :=
        h.stay hp v.rds rfl rfl rfl hlist rfl rfl rfl rfl
          fun hs => by rcases hs with hs | hs <;> cases hs
      simpa [RingView.post] using hstay
    · rw [heq]
      have hsame : ({ v.rds.setBuf index (v.rds.rxBufArr index) with
          allocFailures := v.rds.allocFailures } : RdsRing) = v.rds := by
        simp only [RdsRing.setBuf, Function.update_eq_self]
      have := h.posted hp hpc hhead hskb (h.refHandle index) v.rds.allocFailures v.fills
      rw [hsame] at this
      exact this
    · rw [heq]
      exact h.posted hp hpc hhead hskb (hb.trans (h.refHandle index)) (v.rds.allocFailures - 1) _
  | returning =>
    have hcount := h.inFlightCount t p hp (Or.inr hpc)
    -- what was not posted is what is left of the list
    have hleft : p.freeList.count - p.count = p.freeList.head.length := by omega
    have hback := h.putBack hp _ hleft
    simp only
    by_cases hempty : p.freeList.head = []
    · -- an empty list is not spliced, which comes to the same
      have hsame : v.rds.freeRxbufs.splice (p.freeList.count - p.count) p.freeList.head =
          v.rds.freeRxbufs := by
        rw [hleft, hempty]
        simp [FreeRbufs.splice]
      rw [if_pos hempty]
      rw [hsame] at hback
      simpa [RingView.post] using hback
    · rw [if_neg hempty]
      simpa [RingView.post] using hback
  | storing =>
    have hlist : ({ p with pc := .ringing } : Poster).HasList ↔ p.HasList :=
      iff_of_false (fun hl => by rcases hl with hl | hl <;> cases hl)
        (fun hl => by rcases hl with hl | hl <;> rw [hpc] at hl <;> cases hl)
    have hstay : RingInv size dmaSize { v with
        rds := { v.rds with producer := p.producer }
        posters := Function.update v.posters t (some { p with pc := .ringing }) } :=
      h.stay hp { v.rds with producer := p.producer } rfl rfl rfl hlist rfl rfl rfl rfl
        fun _ => rfl
    simpa [RingView.post] using hstay
  | ringing =>
    have hlist : ({ p with pc := .finishing } : Poster).HasList ↔ p.HasList :=
      iff_of_false (fun hl => by rcases hl with hl | hl <;> cases hl)
        (fun hl => by rcases hl with hl | hl <;> rw [hpc] at hl <;> cases hl)
    have hstored : v.rds.producer = p.producer := by
      rw [h.inFlightProducer t p hp]
      refine h.producer fun u q hu => ?_
      obtain rfl := h.one u t q p hu hp
      obtain rfl := Option.some.inj (hp.symm.trans hu)
      exact Or.inl hpc
    have hring : ∀ rds : RdsRing, rds = v.rds ∨ rds = { v.rds with
        hostRxProducer := ringIndex size (p.producer + (2 ^ 32 - 1)) } →
        RingInv size dmaSize { v with
          rds := rds
          posters := Function.update v.posters t (some { p with pc := .finishing }) } := by
      rintro rds (rfl | rfl)
      · exact h.stay hp v.rds rfl rfl rfl hlist rfl rfl rfl rfl fun _ => hstored
      · exact h.stay hp _ rfl rfl rfl hlist rfl rfl rfl rfl fun _ => hstored
    have := hring _ (ite_eq_or_eq (p.count = 0) v.rds
      { v.rds with hostRxProducer := ringIndex size (p.producer + (2 ^ 32 - 1)) })
    simpa [RingView.post] using this
  | finishing =>
    have := h.finish hp hpc
    simpa [RingView.post] using this

/-- **One step** of a ring keeps its invariant. -/
theorem RingInv.step {w : RingView} (h : RingInv size dmaSize v)
    (hstep : RingStep size dmaSize v w) : RingInv size dmaSize w := by
  cases hstep with
  | consume s index o hheld hskb =>
    obtain ⟨b, -, hb, heq⟩ | ⟨b, -, hb, heq⟩ := v.rds.consume_cases index o
    · rw [heq]
      exact h.giveBack s hheld b (hb.trans (h.refHandle index)) _
    · rw [heq]
      exact h.giveBack s hheld b (hb.trans (h.refHandle index)) v.rds.allocFailures
  | repost s index hheld =>
    have := h.giveBack s hheld _ (h.refHandle index) v.rds.allocFailures
    simpa [RdsRing.setBuf, Function.update_eq_self] using this
  | drop index hheld => exact h.drop hheld
  | splice s => exact h.splice s
  | start t ring hidle hfree => exact h.start ring hidle hfree
  | post t p o hp => exact h.post hp o
  | fetch hunread => exact h.fetch hunread

theorem RingInv.steps {w : RingView} (h : RingInv size dmaSize v)
    (hsteps : Relation.ReflTransGen (RingStep size dmaSize) v w) : RingInv size dmaSize w := by
  induction hsteps with
  | refl => exact h
  | tail _ hstep ih => exact ih.step hstep

/-! ## The start -/

theorem initializeRdsRing_freeRxbufs (size : Nat) :
    (initializeRdsRing size).freeRxbufs = ⟨size, List.range size⟩ := by
  have hfold : ∀ (l : List Nat) (f : FreeRbufs),
      l.foldl FreeRbufs.addTail f = ⟨f.count + l.length, f.head ++ l⟩ := by
    intro l
    induction l with
    | nil => intro f; simp
    | cons i l ih =>
      intro f
      rw [List.foldl_cons, ih]
      simp only [FreeRbufs.addTail, List.length_cons, List.append_assoc, List.singleton_append,
        FreeRbufs.mk.injEq, and_true]
      omega
  simp [initializeRdsRing, hfold]

theorem RingInv.init (cfg : RxCfg) (ring : Nat) :
    RingInv (cfg.ringSize ring) (cfg.dmaSize ring) ((initialRx cfg).view ring) := by
  have hfree : ((initialRx cfg).view ring).rds.freeRxbufs =
      ⟨cfg.ringSize ring, List.range (cfg.ringSize ring)⟩ := initializeRdsRing_freeRxbufs _
  have hlist : ∀ k, k ≠ .free → ((initialRx cfg).view ring).listAt k = [] := by
    intro k hk
    cases k with
    | posted => rfl
    | free => exact absurd rfl hk
    | sds s => rfl
    | inFlight t => rfl
    | lost => rfl
  have hall : ((initialRx cfg).view ring).listAt .free = List.range (cfg.ringSize ring) := by
    rw [RingView.listAt, hfree]
  have honly : ∀ {a k}, a ∈ ((initialRx cfg).view ring).listAt k → k = .free := by
    intro a k ha
    by_contra hk
    rw [hlist k hk] at ha
    cases ha
  refine
    { places := ⟨fun k => ?_, fun a => ?_, fun ha hb => (honly ha).trans (honly hb).symm⟩
      freeCount := by rw [hfree, List.length_range]
      sdsCount := fun _ => rfl
      inFlightCount := fun _ _ hp => by cases hp
      inFlightDone := fun _ _ hp => by cases hp
      posting := ⟨fun hp => absurd hp Bool.false_ne_true, fun ⟨_, _, hp⟩ => by cases hp⟩
      one := fun _ _ _ _ hp => by cases hp
      skb := fun _ hi => by cases hi
      refHandle := fun _ => rfl
      desc := fun _ hj => by cases hj
      inFlightProducer := fun _ _ hp => by cases hp
      producer := fun _ => (Nat.zero_mod _).symm }
  · by_cases hk : k = .free
    · rw [hk, hall]
      exact List.nodup_range
    · rw [hlist k hk]
      exact List.nodup_nil
  · rw [Finset.mem_range, ← List.mem_range, ← hall]
    exact ⟨fun ha => ⟨.free, ha⟩, fun ⟨k, ha⟩ => honly ha ▸ ha⟩

end Rx
end NxNic

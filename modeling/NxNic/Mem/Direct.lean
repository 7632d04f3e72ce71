import NxNic.Lib.Machine
import NxNic.Mem.Windows

/-! # Access to the card memories through a window

`unm_nic_pci_mem_read_direct` and `unm_nic_pci_mem_write_direct` move the window
under the adapter's lock, give the lock up to map the place in the BAR, and take it
again for the access.

The state has the windows, cached and in the card, where each thread is, and the calls
that have returned, with the addresses of the card that the bytes of the BAR showed when
they were touched.  A step is a thread's next section under the lock, or its `ioremap`.
`moveWindow_cases` says what the first section lets through, `touched_iff` what the
access then touches, and `direct_aimed_iff` is the result for all interleavings: each
call reaches its bytes or refuses just if each access finds its window still there
(`Aimed`), which it never does with a BAR of 32 MB.
-/
namespace NxNic
namespace Mem

/-! ## Threads -/

/-- Which of the two functions is called. -/
inductive DirectKind where
  | read
  | write
deriving DecidableEq

/-- Where a thread is. -/
inductive DirectPc where
  | idle
  | called (kind : DirectKind) (off : BitVec 64) (size : Nat)
  /-- The window is moved and the lock is free. -/
  | unmapped (kind : DirectKind) (off : BitVec 64) (size : Nat) (start : BitVec 64)
  | mapped (kind : DirectKind) (off : BitVec 64) (size : Nat) (start : BitVec 64)

/-- A call that has returned: its code, and the addresses of the card that the bytes of
the BAR showed when it touched them. -/
structure DirectCall where
  kind : DirectKind
  off : BitVec 64
  size : Nat
  ret : Int
  touched : List (Option Nat)
deriving DecidableEq

structure DirectState where
  windows : Windows
  threads : Nat → DirectPc
  calls : List DirectCall

/-- A thread makes a call, or takes its next step; `ok` says whether `ioremap`
succeeds. -/
inductive DirectAction where
  | call (t : Nat) (kind : DirectKind) (off : BitVec 64) (size : Nat)
  | step (t : Nat) (ok : Bool)

def pageSize : Nat := 4096

/-- `mem_page` and the offset in it. -/
def memPage (start : BitVec 64) : Nat := start.toNat / pageSize * pageSize

def pageOffs (start : BitVec 64) : Nat := start.toNat % pageSize

/-- The first section under the lock: `none` for the place in the BAR if the access is
refused. -/
def moveWindow (mode : BarMode) (p2 : Bool) (w : Windows) (off : BitVec 64) (size : Nat) :
    Option (Option (BitVec 64) × Windows) :=
  match setWindow mode p2 w off with
  | none => none
  | some (start, w) =>
      if start = -1 then some (none, w)
      else
        match unmNicPciIsSameWindow p2 w (off + BitVec.ofNat 64 size - 1) with
        | none => none
        | some false => some (none, w)
        | some true => some (some start, w)

namespace DirectState
variable (s : DirectState)

def goto (t : Nat) (pc : DirectPc) : DirectState :=
  { s with threads := Function.update s.threads t pc }

/-- A call returns. -/
def finish (t : Nat) (c : DirectCall) : DirectState :=
  { s.goto t .idle with calls := s.calls ++ [c] }

/-- The access to the bytes from a place in the BAR on. -/
def access (bar : PciBar) (t : Nat) (kind : DirectKind) (off : BitVec 64) (size place : Nat) :
    DirectState :=
  if IsSize size then
    s.finish t ⟨kind, off, size, 0,
      (List.range size).map fun k => shows bar s.windows (place + k)⟩
  else s.finish t ⟨kind, off, size, -1, []⟩

/-- The next step of a thread. -/
def step (bar : PciBar) (p2 : Bool) (t : Nat) (ok : Bool) : Option DirectState :=
  match s.threads t with
  | .idle => none
  | .called kind off size =>
      match moveWindow bar.mode p2 s.windows off size with
      | none => none
      | some (none, w) => some ({ s with windows := w }.finish t ⟨kind, off, size, -1, []⟩)
      | some (some start, w) =>
          let s := { s with windows := w }
          some (if pciMapped bar start then
              s.access bar t kind off size (start.toNat - bar.skipped)
            else s.goto t (.unmapped kind off size start))
  | .unmapped kind off size start =>
      some (if ok then s.goto t (.mapped kind off size start)
        else s.finish t ⟨kind, off, size, -1, []⟩)
  | .mapped kind off size start =>
      some (s.access bar t kind off size (memPage start + pageOffs start))

end DirectState

/-- The threads take turns; the accesses are to addresses outside the DDR. -/
def directMachine (bar : PciBar) (p2 : Bool) : Machine DirectState DirectAction where
  next s
    | .call t kind off size =>
        match s.threads t with
        | .idle =>
            if unmAddrDdrNetMax < off ∧ IsSize size then
              some (s.goto t (.called kind off size))
            else none
        | _ => none
    | .step t ok => s.step bar p2 t ok

def initialDirect (w : Windows) : DirectState where
  windows := w
  threads := fun _ => .idle
  calls := []

/-- The cached windows are those of the card; the 128M BAR has 64 of them. -/
structure Coherent (mode : BarMode) (w : Windows) : Prop where
  sn : mode = .bar128M → w.qdrSnWindow.toNat < 64 ∧ w.snReg = w.qdrSnWindow <<< 22
  mn : mode = .bar2M → w.mnReg = w.ddrMnWindow

/-- **A call reaches the right bytes or refuses.** -/
def DirectCall.Fine (c : DirectCall) : Prop :=
  c.ret = -1 ∧ c.touched = [] ∨
    c.ret = 0 ∧ c.touched = (List.range c.size).map fun k => some (c.off.toNat + k)

/-- So does every call that has returned. -/
def AllFine (s : DirectState) : Prop := ∀ c ∈ s.calls, c.Fine

/-- The condition on an access: the window is still that of the address.  With the 32 MB BAR
there is no such window.  With the 2M BAR this holds only in the OCM, and only before the last
2 KB of its aperture. -/
def StillShown (bar : PciBar) (p2 : Bool) (w : Windows) (off : BitVec 64) (size : Nat) : Prop :=
  match bar with
  | .mb128 => unmNicPciIsSameWindow p2 w off = some true
  | .mb32 => False
  | .mb2 =>
      AddrInRange off unmAddrOcm0 unmAddrOcm0Max ∧
        (ocmWinRead w.ddrMnWindow).toNat = off.toNat / 2 ^ 18 ∧
        off.toNat % 2 ^ 18 + size ≤ 0x3f800

instance (bar : PciBar) (p2 : Bool) (w : Windows) (off : BitVec 64) (size : Nat) :
    Decidable (StillShown bar p2 w off size) := by
  cases bar
  · exact inferInstanceAs (Decidable (_ = _))
  · exact inferInstanceAs (Decidable False)
  · exact inferInstanceAs (Decidable (_ ∧ _ ∧ _))

/-- The condition on a step. -/
def Aimed (bar : PciBar) (p2 : Bool) (s : DirectState) : DirectAction → Prop
  | .call _ _ _ _ => True
  | .step t _ =>
      match s.threads t with
      | .mapped _ off size _ => StillShown bar p2 s.windows off size
      | _ => True

instance (bar : PciBar) (p2 : Bool) (s : DirectState) : DecidablePred (Aimed bar p2 s) :=
  fun a => by
    unfold Aimed
    split
    · infer_instance
    · split
      · infer_instance
      · infer_instance

/-! ## The first section -/

/-- What the first section has checked of an access that it lets through, and the place
in the BAR. -/
inductive Accepted (p2 : Bool) (off : BitVec 64) (size : Nat) (start : BitVec 64) :
    BarMode → Prop
  | ocm0 (h : AddrInRange off unmAddrOcm0 unmAddrOcm0Max)
      (hend : off.toNat + size ≤ 0x200100000)
      (hstart : start.toNat = 0x5000000 + (off.toNat - 0x200000000)) :
      Accepted p2 off size start .bar128M
  | ocm1 (h : AddrInRange off unmAddrOcm1 unmAddrOcm1Max)
      (hend : off.toNat + size ≤ 0x200500000)
      (hstart : start.toNat = 0x5100000 + (off.toNat - 0x200400000)) :
      Accepted p2 off size start .bar128M
  | qdr (h : AddrInRange off unmAddrQdrNet (qdrMax p2))
      (hend : (off.toNat - 0x300000000) % 2 ^ 22 + size ≤ 2 ^ 22)
      (hstart : start.toNat = 0x4000000 + (off.toNat - 0x300000000) % 2 ^ 22) :
      Accepted p2 off size start .bar128M
  | ocm2M (h : AddrInRange off unmAddrOcm0 unmAddrOcm0Max)
      (hstart : start.toNat = 0xc0000 + off.toNat % 2 ^ 18) :
      Accepted p2 off size start .bar2M
  | qm2M (h : 0x3f800 ≤ off.toNat % 2 ^ 18) (hstart : start.toNat = 0xfffff) :
      Accepted p2 off size start .bar2M
  | qdr2M (h : 0x300000000 ≤ off.toNat) (hstart : start.toNat = 0x4000000 + off.toNat % 2 ^ 18) :
      Accepted p2 off size start .bar2M

section
variable {bar : PciBar} {mode : BarMode} {p2 : Bool} {w w' : Windows} {off start : BitVec 64}
  {size : Nat}

theorem not_inDdr (hoff : unmAddrDdrNetMax < off) :
    ¬ AddrInRange off unmAddrDdrNet unmAddrDdrNetMax := by
  have hlt : 0x0fffffff < off.toNat := hoff
  rw [inDdr_iff]
  omega

/-- The address of the last byte. -/
theorem toNat_last (h1 : 1 ≤ size) (hlt : off.toNat + size < 2 ^ 64) :
    (off + BitVec.ofNat 64 size - 1).toNat = off.toNat + size - 1 := by
  have hone : (1 : BitVec 64).toNat = 1 := rfl
  rw [BitVec.toNat_sub, BitVec.toNat_add, BitVec.toNat_ofNat, hone]
  omega

/-- How the window is moved with the 128M BAR. -/
theorem setWindow128M_cases (p2 : Bool) (hw : Coherent .bar128M w) (hoff : unmAddrDdrNetMax < off) :
    ∃ start w', unmNicPciSetWindow128M p2 w off = some (start, w') ∧ Coherent .bar128M w' ∧
      (start = -1 ∨
        AddrInRange off unmAddrOcm0 unmAddrOcm0Max ∧
          start.toNat = 0x5000000 + (off.toNat - 0x200000000) ∨
        AddrInRange off unmAddrOcm1 unmAddrOcm1Max ∧
          start.toNat = 0x5100000 + (off.toNat - 0x200400000) ∨
        AddrInRange off unmAddrQdrNet (qdrMax p2) ∧ w'.qdrSnWindow = qdrWindow off ∧
          start.toNat = 0x4000000 + (off.toNat - 0x300000000) % 2 ^ 22) := by
  unfold unmNicPciSetWindow128M
  rw [if_neg (not_inDdr hoff)]
  split
  · rename_i h
    obtain ⟨hlow, hhigh⟩ := inOcm0_iff.mp h
    have hplace : unmPciOcm0.toNat = 0x5000000 := rfl
    exact ⟨_, w, rfl, hw, Or.inr (Or.inl ⟨h, toNat_moved hlow (by omega)⟩)⟩
  split
  · rename_i h
    obtain ⟨hlow, hhigh⟩ := inOcm1_iff.mp h
    have hplace : unmPciOcm1.toNat = 0x5100000 := rfl
    exact ⟨_, w, rfl, hw, Or.inr (Or.inr (Or.inl ⟨h, toNat_moved hlow (by omega)⟩))⟩
  split
  · rename_i h
    obtain ⟨hlow, hhigh⟩ := inQdr_bounds h
    have hnet : unmAddrQdrNet.toNat = 0x300000000 := rfl
    have hplace : unmPciQdrNet.toNat = 0x4000000 := rfl
    have hsize : (0x400000 : BitVec 64).toNat = 0x400000 := rfl
    have hwin := toNat_qdrWindow off hlow hhigh
    have hstart : (off - unmAddrQdrNet - (qdrWindow off).setWidth 64 * 0x400000 +
        unmPciQdrNet).toNat = 0x4000000 + (off.toNat - 0x300000000) % 2 ^ 22 := by
      rw [BitVec.toNat_add, BitVec.toNat_sub, BitVec.toNat_sub, BitVec.toNat_mul,
        BitVec.toNat_setWidth, hwin, hnet, hplace, hsize]
      omega
    refine ⟨_, _, rfl, ?_, Or.inr (Or.inr (Or.inr ⟨h, ?_, hstart⟩))⟩
    · split
      · exact ⟨fun _ => ⟨(by omega : (qdrWindow off).toNat < 64), rfl⟩, nofun⟩
      · exact hw
    · split
      · rfl
      · rename_i hsame
        exact not_not.mp hsame
  · exact ⟨_, w, rfl, hw, Or.inl rfl⟩

/-- How it is moved with the 2M BAR. -/
theorem setWindow2M_cases (hw : Coherent .bar2M w) (hoff : unmAddrDdrNetMax < off) :
    ∃ start w', unmNicPciSetWindow2M w off = (start, w') ∧ Coherent .bar2M w' ∧
      (start = -1 ∨
        AddrInRange off unmAddrOcm0 unmAddrOcm0Max ∧ off &&& 0xff800 ≠ 0xff800 ∧
          w'.ddrMnWindow = ocmWin off ∧ start.toNat = 0xc0000 + off.toNat % 2 ^ 18 ∨
        AddrInRange off unmAddrOcm0 unmAddrOcm0Max ∧ off &&& 0xff800 = 0xff800 ∧
          start.toNat = 0xfffff ∨
        AddrInRange off unmAddrQdrNet nxP3AddrQdrNetMax ∧
          start.toNat = 0x4000000 + off.toNat % 2 ^ 18) := by
  have hplace : ∀ {a b : BitVec 64}, b.toNat ≤ 0x4000000 →
      (getMemOffs2M a + b).toNat = b.toNat + a.toNat % 2 ^ 18 := by
    intro a b hb
    rw [BitVec.toNat_add, toNat_getMemOffs2M]
    omega
  unfold unmNicPciSetWindow2M
  rw [if_neg (not_inDdr hoff)]
  split
  · rename_i h
    refine ⟨_, _, rfl, ⟨nofun, fun _ => rfl⟩, Or.inr ?_⟩
    by_cases hqm : off &&& 0xff800 = 0xff800
    · rw [if_pos hqm]
      exact Or.inr (Or.inl ⟨h, hqm, rfl⟩)
    · rw [if_neg hqm]
      exact Or.inl ⟨h, hqm, rfl, hplace (by decide)⟩
  split
  · rename_i h
    exact ⟨_, _, rfl, ⟨nofun, hw.mn⟩, Or.inr (Or.inr (Or.inr ⟨h, hplace (by decide)⟩))⟩
  · exact ⟨_, w, rfl, hw, Or.inl rfl⟩

/-- What the check of the last byte says about the end of the access. -/
theorem sameWindow_end (h1 : 1 ≤ size) (h8 : size ≤ 8) (hlt : off.toNat + size < 2 ^ 64)
    (hsame : unmNicPciIsSameWindow p2 w (off + BitVec.ofNat 64 size - 1) = some true)
    (hoff : unmAddrDdrNetMax < off) :
    (AddrInRange off unmAddrOcm0 unmAddrOcm0Max → off.toNat + size ≤ 0x200100000) ∧
      (AddrInRange off unmAddrOcm1 unmAddrOcm1Max → off.toNat + size ≤ 0x200500000) ∧
      (AddrInRange off unmAddrQdrNet (qdrMax p2) → w.qdrSnWindow = qdrWindow off →
        (off.toNat - 0x300000000) % 2 ^ 22 + size ≤ 2 ^ 22) := by
  have hlast := toNat_last h1 hlt
  have hddr : 0x0fffffff < off.toNat := hoff
  rw [inOcm0_iff, inOcm1_iff]
  -- the last byte is in the OCM or in the cached window of the QDR
  have hlast' : 0x0fffffff < (off + BitVec.ofNat 64 size - 1).toNat := by omega
  rcases isSameWindow_cases p2 w hlast' with hno | ⟨-, hin⟩
  · rw [hno] at hsame
    cases hsame
  · rw [inOcm0_iff, inOcm1_iff, hlast] at hin
    have hin' := hin.imp_right fun h => h.imp_right fun h => inQdr_bounds h.1
    rw [hlast] at hin'
    refine ⟨fun h => ?_, fun h => ?_, fun h hwin => ?_⟩
    · omega
    · omega
    · obtain ⟨hlow, hhigh⟩ := inQdr_bounds h
      rcases hin with hin | hin | ⟨hin, hwin'⟩
      · omega
      · omega
      · obtain ⟨hlow', hhigh'⟩ := inQdr_bounds hin
        have hsame' := congrArg BitVec.toNat (hwin.symm.trans hwin')
        rw [toNat_qdrWindow _ hlow hhigh, toNat_qdrWindow _ hlow' hhigh', hlast] at hsame'
        omega

/-- **The first section** lets an access through or refuses it, and keeps the cached
windows right. -/
theorem moveWindow_cases (p2 : Bool) (hw : Coherent mode w) (hoff : unmAddrDdrNetMax < off)
    (hsize : IsSize size) :
    ∃ w', Coherent mode w' ∧
      (moveWindow mode p2 w off size = some (none, w') ∨
        ∃ start, moveWindow mode p2 w off size = some (some start, w') ∧
          Accepted p2 off size start mode) := by
  obtain ⟨h1, h8⟩ := hsize.bounds
  have hddr : 0x0fffffff < off.toNat := hoff
  -- what the check of the last byte leaves to be shown
  have hcheck : ∀ {start w'}, setWindow mode p2 w off = some (start, w') → Coherent mode w' →
      (start ≠ -1 → off.toNat + size < 2 ^ 64 ∧
        (unmNicPciIsSameWindow p2 w' (off + BitVec.ofNat 64 size - 1) = some true →
          Accepted p2 off size start mode)) →
      ∃ w', Coherent mode w' ∧
        (moveWindow mode p2 w off size = some (none, w') ∨
          ∃ start, moveWindow mode p2 w off size = some (some start, w') ∧
            Accepted p2 off size start mode) := by
    intro start w' hset hw' hacc
    refine ⟨w', hw', ?_⟩
    unfold moveWindow
    simp only [hset]
    by_cases hstart : start = -1
    · rw [if_pos hstart]
      exact Or.inl rfl
    · rw [if_neg hstart]
      obtain ⟨hlt, haccepted⟩ := hacc hstart
      have hlast := toNat_last h1 hlt
      have hlast' : 0x0fffffff < (off + BitVec.ofNat 64 size - 1).toNat := by omega
      rcases isSameWindow_cases p2 w' hlast' with hno | ⟨hyes, -⟩
      · rw [hno]
        exact Or.inl rfl
      · rw [hyes]
        exact Or.inr ⟨start, rfl, haccepted hyes⟩
  cases mode with
  | bar128M =>
    obtain ⟨start, w', hset, hw', hcases⟩ := setWindow128M_cases p2 hw hoff
    refine hcheck hset hw' fun hstart => ?_
    rcases hcases with h | ⟨h, hplace⟩ | ⟨h, hplace⟩ | ⟨h, hwin, hplace⟩
    · exact absurd h hstart
    · have hhigh := (inOcm0_iff.mp h).2
      have hlt : off.toNat + size < 2 ^ 64 := by omega
      exact ⟨hlt, fun hyes => .ocm0 h ((sameWindow_end h1 h8 hlt hyes hoff).1 h) hplace⟩
    · have hhigh := (inOcm1_iff.mp h).2
      have hlt : off.toNat + size < 2 ^ 64 := by omega
      exact ⟨hlt, fun hyes => .ocm1 h ((sameWindow_end h1 h8 hlt hyes hoff).2.1 h) hplace⟩
    · have hhigh := (inQdr_bounds h).2
      have hlt : off.toNat + size < 2 ^ 64 := by omega
      exact ⟨hlt, fun hyes => .qdr h ((sameWindow_end h1 h8 hlt hyes hoff).2.2 h hwin) hplace⟩
  | bar2M =>
    obtain ⟨start, w', hset, hw', hcases⟩ := setWindow2M_cases hw hoff
    refine hcheck (congrArg some hset) hw' fun hstart => ?_
    rcases hcases with h | ⟨h, -, -, hplace⟩ | ⟨h, hqm, hplace⟩ | ⟨h, hplace⟩
    · exact absurd h hstart
    · have hhigh := (inOcm0_iff.mp h).2
      exact ⟨by omega, fun _ => .ocm2M h hplace⟩
    · have hhigh := (inOcm0_iff.mp h).2
      have htop := (qm_iff off).mp hqm
      exact ⟨by omega, fun _ => .qm2M (by omega) hplace⟩
    · have hqdr : AddrInRange off unmAddrQdrNet (qdrMax false) := h
      obtain ⟨hlow, hhigh⟩ := inQdr_bounds hqdr
      exact ⟨by omega, fun _ => .qdr2M hlow hplace⟩

/-- Where the places are that are let through: with the functions of the 128M BAR, in its
apertures. -/
theorem Accepted.place (h : Accepted p2 off size start mode) :
    (mode = .bar128M → 0x4000000 ≤ start.toNat) ∧ start.toNat < 0x6000000 := by
  cases h with
  | ocm0 h hend hstart => exact ⟨fun _ => by omega, by omega⟩
  | ocm1 h hend hstart => exact ⟨fun _ => by omega, by omega⟩
  | qdr h hend hstart => exact ⟨fun _ => by omega, by omega⟩
  | ocm2M h hstart => exact ⟨nofun, by omega⟩
  | qm2M h hstart => exact ⟨nofun, by omega⟩
  | qdr2M h hstart => exact ⟨nofun, by omega⟩

/-- None of them is one that the driver keeps mapped. -/
theorem Accepted.unmapped (h : Accepted p2 off size start bar.mode) :
    pciMapped bar start = false := by
  have hfirst : (0x100000 : BitVec 64).toNat = 0x100000 := rfl
  have hsecond : (0x6000000 : BitVec 64).toNat = 0x6000000 := rfl
  have hthird : (0x70e4000 : BitVec 64).toNat = 0x70e4000 := rfl
  obtain ⟨hlow, hhigh⟩ := h.place
  simp only [pciMapped, Bool.or_eq_false_iff, decide_eq_false_iff_not, BitVec.lt_def,
    BitVec.le_def, hfirst, hsecond, hthird]
  refine ⟨⟨?_, by omega⟩, by omega⟩
  rintro ⟨rfl, hlt⟩
  have hplace := hlow rfl
  omega

/-! ## The access -/

/-- What the bytes of the 128M BAR show is what was asked for just if the window is still that
of the address. -/
theorem touched_mb128 (h : Accepted p2 off size start .bar128M) (hw : Coherent .bar128M w)
    (h1 : 1 ≤ size) :
    (∀ k < size, shows .mb128 w (start.toNat + k) = some (off.toNat + k)) ↔
      StillShown .mb128 p2 w off size := by
  cases h with
  | ocm0 h hend hstart =>
    obtain ⟨hlow, hhigh⟩ := inOcm0_iff.mp h
    refine iff_of_true (fun k hk => ?_) (isSameWindow_ocm (Or.inl h))
    rw [shows_mb128, if_neg (by omega), if_pos (by omega)]
    exact congrArg some (by omega)
  | ocm1 h hend hstart =>
    obtain ⟨hlow, hhigh⟩ := inOcm1_iff.mp h
    refine iff_of_true (fun k hk => ?_) (isSameWindow_ocm (Or.inr h))
    rw [shows_mb128, if_neg (by omega), if_neg (by omega), if_pos (by omega)]
    exact congrArg some (by omega)
  | qdr h hend hstart =>
    obtain ⟨hlow, hhigh⟩ := inQdr_bounds h
    obtain ⟨hsmall, hreg⟩ := hw.sn rfl
    have hwin := toNat_qdrWindow off hlow hhigh
    have hbase : w.snReg.toNat = w.qdrSnWindow.toNat * 2 ^ 22 := by
      rw [hreg, BitVec.toNat_shiftLeft, Nat.shiftLeft_eq]
      omega
    rw [show StillShown .mb128 p2 w off size ↔ w.qdrSnWindow = qdrWindow off from
      isSameWindow_qdr h, ← BitVec.toNat_inj, hwin]
    constructor
    · intro hshow
      have hfirst := hshow 0 (by omega)
      rw [shows_mb128, if_pos (by omega)] at hfirst
      have hfirst' := Option.some.inj hfirst
      omega
    · intro hsame k hk
      rw [shows_mb128, if_pos (by omega)]
      exact congrArg some (by omega)

/-- With the 2M BAR. -/
theorem touched_mb2 (h : Accepted p2 off size start .bar2M) (hw : Coherent .bar2M w)
    (h1 : 1 ≤ size) :
    (∀ k < size, shows .mb2 w (start.toNat + k) = some (off.toNat + k)) ↔
      StillShown .mb2 p2 w off size := by
  cases h with
  | ocm2M h hstart =>
    have hreg := hw.mn rfl
    constructor
    · intro hshow
      obtain ⟨-, hfirst⟩ := (shows_mb2_iff (by omega)).mp (hshow 0 (by omega))
      obtain ⟨hlast, -⟩ := (shows_mb2_iff (by omega)).mp (hshow (size - 1) (by omega))
      rw [hreg] at hfirst
      exact ⟨h, by omega, by omega⟩
    · rintro ⟨-, hwin, hend⟩ k hk
      rw [shows_mb2_iff (by omega), hreg, hwin]
      exact ⟨by omega, by omega⟩
  | qm2M h hstart =>
    refine iff_of_false (fun hshow => ?_) (fun hshown => ?_)
    · obtain ⟨hlast, -⟩ := (shows_mb2_iff (by omega)).mp (hshow 0 (by omega))
      omega
    · have hend := hshown.2.2
      omega
  | qdr2M h hstart =>
    refine iff_of_false (fun hshow => ?_) (fun hshown => ?_)
    · obtain ⟨hlast, -⟩ := (shows_mb2_iff (by omega)).mp (hshow 0 (by omega))
      omega
    · have hhigh := (inOcm0_iff.mp hshown.1).2
      omega

/-- **What the bytes show** is what was asked for just if the condition is met. -/
theorem touched_iff (h : Accepted p2 off size start bar.mode) (hw : Coherent bar.mode w)
    (h1 : 1 ≤ size) :
    ((List.range size).map (fun k => shows bar w (start.toNat + k)) =
        (List.range size).map fun k => some (off.toNat + k)) ↔
      StillShown bar p2 w off size := by
  rw [List.map_inj_left]
  simp only [List.mem_range]
  cases bar with
  | mb128 => exact touched_mb128 h hw h1
  | mb32 =>
    refine iff_of_false (fun hshow => ?_) id
    have hfirst := hshow 0 (by omega)
    rw [shows_mb32] at hfirst
    cases hfirst
  | mb2 => exact touched_mb2 h hw h1

/-- What the first section did for an access that it lets through. -/
theorem moveWindow_eq_some (hmove : moveWindow mode p2 w off size = some (some start, w')) :
    setWindow mode p2 w off = some (start, w') ∧ start ≠ -1 := by
  unfold moveWindow at hmove
  split at hmove
  · cases hmove
  · rename_i start₁ w₁ hset
    split at hmove
    · cases hmove
    · rename_i hstart
      split at hmove
      · cases hmove
      · cases hmove
      · obtain ⟨hsome, rfl⟩ := Prod.mk.inj (Option.some.inj hmove)
        exact Option.some.inj hsome ▸ ⟨hset, hstart⟩

/-- Right after the first section the condition is met, unless the BAR has 32 MB or the access
goes to the queue manager's 2 KB or to the QDR of the 2M BAR. -/
theorem stillShown_of_moveWindow (hw : Coherent bar.mode w) (hoff : unmAddrDdrNetMax < off)
    (h1 : 1 ≤ size) (hmove : moveWindow bar.mode p2 w off size = some (some start, w'))
    (hbar : bar ≠ .mb32)
    (hocm : bar = .mb2 → off.toNat < 0x300000000 ∧ off.toNat % 2 ^ 18 + size ≤ 0x3f800) :
    StillShown bar p2 w' off size := by
  obtain ⟨hset, hstart⟩ := moveWindow_eq_some hmove
  cases bar with
  | mb128 =>
    obtain ⟨start₁, w₁, hset₁, -, hcases⟩ := setWindow128M_cases p2 hw hoff
    obtain ⟨rfl, rfl⟩ := Prod.mk.inj (Option.some.inj (hset.symm.trans hset₁))
    rcases hcases with h | ⟨h, -⟩ | ⟨h, -⟩ | ⟨h, hwin, -⟩
    · exact absurd h hstart
    · exact isSameWindow_ocm (Or.inl h)
    · exact isSameWindow_ocm (Or.inr h)
    · exact (isSameWindow_qdr h).mpr hwin
  | mb32 => exact absurd rfl hbar
  | mb2 =>
    obtain ⟨hlt, hend⟩ := hocm rfl
    obtain ⟨start₁, w₁, hset₁, -, hcases⟩ := setWindow2M_cases hw hoff
    obtain ⟨rfl, rfl⟩ := Prod.mk.inj ((Option.some.inj hset).symm.trans hset₁)
    rcases hcases with h | ⟨h, -, hwin, -⟩ | ⟨-, hqm, -⟩ | ⟨h, -⟩
    · exact absurd h hstart
    · exact ⟨h, hwin ▸ ocmWinRead_ocmWin h, hend⟩
    · have htop := (qm_iff off).mp hqm
      omega
    · have hqdr : AddrInRange off unmAddrQdrNet (qdrMax false) := h
      have hlow := (inQdr_bounds hqdr).1
      omega

end

/-! ## The invariant -/

/-- What the first section has checked stays with the thread. -/
def DirectPc.Ready (mode : BarMode) (p2 : Bool) : DirectPc → Prop
  | .idle => True
  | .called _ off size => unmAddrDdrNetMax < off ∧ IsSize size
  | .unmapped _ off size start => IsSize size ∧ Accepted p2 off size start mode
  | .mapped _ off size start => IsSize size ∧ Accepted p2 off size start mode

/-- The invariant of the runs all of whose steps meet the condition. -/
structure Windowed (bar : PciBar) (p2 : Bool) (s : DirectState) : Prop where
  coherent : Coherent bar.mode s.windows
  ready : ∀ t, (s.threads t).Ready bar.mode p2
  fine : AllFine s

namespace Windowed
variable {bar : PciBar} {p2 : Bool} {s s' : DirectState} {t : Nat}

theorem goto (h : Windowed bar p2 s) {pc : DirectPc} (hpc : pc.Ready bar.mode p2) {w : Windows}
    (hw : Coherent bar.mode w) : Windowed bar p2 ({ s with windows := w }.goto t pc) :=
  ⟨hw, (Function.forall_update_iff s.threads fun _ pc => pc.Ready bar.mode p2).mpr
    ⟨hpc, fun u _ => h.ready u⟩, h.fine⟩

theorem finish (h : Windowed bar p2 s) {c : DirectCall} (hc : c.Fine) {w : Windows}
    (hw : Coherent bar.mode w) : Windowed bar p2 ({ s with windows := w }.finish t c) := by
  have hidle : DirectPc.idle.Ready bar.mode p2 := trivial
  refine ⟨hw, (h.goto hidle hw).ready, fun d hd => ?_⟩
  rcases List.mem_append.mp hd with hd | hd
  · exact h.fine d hd
  · exact List.mem_singleton.mp hd ▸ hc

/-- The access is fine just if the window is still that of the address. -/
theorem access_fine_iff (h : Windowed bar p2 s) {kind : DirectKind} {off start : BitVec 64}
    {size : Nat} (hsize : IsSize size) (hacc : Accepted p2 off size start bar.mode) :
    DirectCall.Fine ⟨kind, off, size, 0, (List.range size).map fun k =>
        shows bar s.windows (memPage start + pageOffs start + k)⟩ ↔
      StillShown bar p2 s.windows off size := by
  have hbar : memPage start + pageOffs start = start.toNat := Nat.div_add_mod' ..
  rw [hbar, ← touched_iff hacc h.coherent hsize.bounds.1]
  constructor
  · rintro (⟨hret, -⟩ | ⟨-, htouched⟩)
    · cases hret
    · exact htouched
  · exact fun htouched => Or.inr ⟨rfl, htouched⟩

/-- A section of a call that has started: it is let through, or it is over. -/
theorem stepCalled (h : Windowed bar p2 s) {kind : DirectKind} {off : BitVec 64} {size : Nat}
    {ok : Bool} (hpc : s.threads t = .called kind off size)
    (hstep : s.step bar p2 t ok = some s') : Windowed bar p2 s' := by
  obtain ⟨hoff, hsize⟩ : (DirectPc.called kind off size).Ready bar.mode p2 := hpc ▸ h.ready t
  obtain ⟨w', hw', hmove | ⟨start, hmove, hacc⟩⟩ :=
    moveWindow_cases p2 h.coherent hoff hsize
  · simp only [DirectState.step, hpc, hmove] at hstep
    exact Option.some.inj hstep ▸ h.finish (Or.inl ⟨rfl, rfl⟩) hw'
  · simp only [DirectState.step, hpc, hmove, hacc.unmapped] at hstep
    have hready : (DirectPc.unmapped kind off size start).Ready bar.mode p2 := ⟨hsize, hacc⟩
    exact Option.some.inj hstep ▸ h.goto hready hw'

/-- **Every step** that meets the condition. -/
theorem step (h : Windowed bar p2 s) {a : DirectAction} (hcond : Aimed bar p2 s a)
    (hnext : (directMachine bar p2).next s a = some s') : Windowed bar p2 s' := by
  cases a with
  | call t kind off size =>
    simp only [directMachine] at hnext
    split at hnext
    · obtain ⟨hcall, hnext⟩ := Option.ite_none_right_eq_some.mp hnext
      have hready : (DirectPc.called kind off size).Ready bar.mode p2 := hcall
      exact Option.some.inj hnext ▸ h.goto hready h.coherent
    · cases hnext
  | step t ok =>
    replace hnext : s.step bar p2 t ok = some s' := hnext
    have hready := h.ready t
    cases hpc : s.threads t with
    | idle =>
      simp only [DirectState.step, hpc] at hnext
      cases hnext
    | called kind off size => exact h.stepCalled hpc hnext
    | unmapped kind off size start =>
      rw [hpc] at hready
      simp only [DirectState.step, hpc] at hnext
      obtain rfl := Option.some.inj hnext
      split
      · have hmapped : (DirectPc.mapped kind off size start).Ready bar.mode p2 := hready
        exact h.goto hmapped h.coherent
      · exact h.finish (Or.inl ⟨rfl, rfl⟩) h.coherent
    | mapped kind off size start =>
      rw [hpc] at hready
      obtain ⟨hsize, hacc⟩ := hready
      simp only [Aimed, hpc] at hcond
      simp only [DirectState.step, hpc, DirectState.access, if_pos hsize] at hnext
      exact Option.some.inj hnext ▸ h.finish ((h.access_fine_iff hsize hacc).mpr hcond) h.coherent

/-- A call that reaches the right bytes still had its window. -/
theorem needs (h : Windowed bar p2 s) {a : DirectAction}
    (hnext : (directMachine bar p2).next s a = some s') (h' : AllFine s') :
    Aimed bar p2 s a := by
  cases a with
  | call t kind off size => trivial
  | step t ok =>
    replace hnext : s.step bar p2 t ok = some s' := hnext
    have hready := h.ready t
    show match s.threads t with
      | .mapped _ off size _ => StillShown bar p2 s.windows off size
      | _ => True
    split
    · rename_i kind off size start hpc
      rw [hpc] at hready
      obtain ⟨hsize, hacc⟩ := hready
      simp only [DirectState.step, hpc, DirectState.access, if_pos hsize] at hnext
      obtain rfl := Option.some.inj hnext
      have hlast := h' _ (List.mem_append_right _ (List.mem_singleton_self _))
      exact (h.access_fine_iff hsize hacc).mp hlast
    · trivial

end Windowed

/-- **A call reaches the right bytes or refuses** throughout a run just if each call that
takes the lock again finds its window still there. -/
theorem direct_aimed_iff {bar : PciBar} {p2 : Bool} {w : Windows} (hw : Coherent bar.mode w)
    {l : List DirectAction} {s : DirectState}
    (h : (directMachine bar p2).run (initialDirect w) l = some s) :
    (∀ u, (directMachine bar p2).Visits (initialDirect w) l u → AllFine u) ↔
      ∀ u a, (directMachine bar p2).Takes (initialDirect w) l u a → Aimed bar p2 u a :=
  Machine.visits_iff_takes (K := Windowed bar p2) (fun _ hK => hK.fine)
    (fun _ _ _ hK hP hn => hK.step hP hn) (fun _ _ _ hK hn hI => hK.needs hn hI)
    ⟨hw, fun _ => trivial, nofun⟩ h

/-- Two calls on a P2 whose sections alternate, to the QDR and to the OCM, and one that goes
beyond the end of the QDR. -/
def alternatingRun : List DirectAction :=
  [.call 0 .read 0x300100000 8, .call 1 .write 0x200412344 4, .step 0 true, .step 1 true,
    .step 1 true, .step 0 true, .step 0 true, .step 1 true, .call 0 .read 0x3001ffffc 8,
    .step 0 true]

theorem direct_aimed_iff_alternating :
    Coherent PciBar.mb128.mode ⟨0, 0, 0, 0⟩ ∧
      ∃ s, (directMachine .mb128 true).run (initialDirect ⟨0, 0, 0, 0⟩) alternatingRun = some s ∧
        s.calls.map (fun c => c.ret) = [0, 0, -1] ∧
        ∀ u, (directMachine .mb128 true).Visits (initialDirect ⟨0, 0, 0, 0⟩) alternatingRun u →
          AllFine u := by
  have hw : Coherent PciBar.mb128.mode ⟨0, 0, 0, 0⟩ := ⟨fun _ => by decide, nofun⟩
  have hrun : (((directMachine .mb128 true).guard (Aimed .mb128 true)).run
      (initialDirect ⟨0, 0, 0, 0⟩) alternatingRun).map
      (fun s => s.calls.map fun c => c.ret) = some [0, 0, -1] := by
    decide +kernel
  obtain ⟨s, hs, hret⟩ := Option.map_eq_some_iff.mp hrun
  have hs' := Machine.run_of_guard hs
  exact ⟨hw, s, hs', hret, (direct_aimed_iff hw hs').mpr fun _ _ ht => Machine.takes_of_guard hs ht⟩

/-- A read of the queue manager's 2 KB. -/
def queueManagerRun : List DirectAction :=
  [.call 0 .read 0x2000ff800 4, .step 0 true, .step 0 true, .step 0 true]

theorem queue_manager_read :
    Coherent PciBar.mb2.mode ⟨0, 0, 0, 0⟩ ∧
      ∃ s, (directMachine .mb2 false).run (initialDirect ⟨0, 0, 0, 0⟩) queueManagerRun = some s ∧
        s.calls = [⟨.read, 0x2000ff800, 4, 0, [none, none, none, none]⟩] ∧ ¬ AllFine s := by
  have hrun : ((directMachine .mb2 false).run (initialDirect ⟨0, 0, 0, 0⟩) queueManagerRun).map
      (fun s => s.calls) = some [⟨.read, 0x2000ff800, 4, 0, [none, none, none, none]⟩] := by
    decide +kernel
  obtain ⟨s, hs, hcalls⟩ := Option.map_eq_some_iff.mp hrun
  refine ⟨⟨nofun, fun _ => rfl⟩, s, hs, hcalls, fun hfine => ?_⟩
  rcases hfine _ (hcalls ▸ List.mem_singleton_self _) with ⟨hret, -⟩ | ⟨-, htouched⟩
  · cases hret
  · cases htouched

end Mem
end NxNic

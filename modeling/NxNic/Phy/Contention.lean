import NxNic.Phy.Mdio

/-! # Who drives the data line

The host drives the data line through a writing frame and up to the turnaround of a
reading one, whose second bit a device that answers drives as well.  At no edge of
the clock do the two drive it to different levels.

The board (`Board`) has the GPIO registers and the station, and logs each rising edge of
the clock with what either side drives; `Edge.Agrees` is the property of an edge, and
`Board.AgreesTo` that of all the edges between two boards.  It is proved for the clocking
of a bit, then for a frame of each kind, where the station counts the same bits as the
host as long as it was at rest before, and `execAll_agrees` is about runs of calls.
-/
namespace NxNic
namespace Phy
open Serial

/-- The two sides do not drive the line to different levels. -/
def Edge.Agrees (e : Edge) : Prop := ∀ x y, e.host = some x → e.far = some y → x = y

theorem Edge.agrees_of_far {e : Edge} (h : e.far = none) : e.Agrees := by
  intro x y _ hy
  rw [h] at hy
  cases hy

theorem Edge.agrees_of_host {e : Edge} (h : e.host = none) : e.Agrees := by
  intro x y hx
  rw [h] at hx
  cases hx

/-- The device answers in reading frames only. -/
def AnswersReads {ρ : Type} (D : Device ρ) : Prop :=
  ∀ regs h word, D.answer regs h = some word → 2 ≤ h.opcode

section Frames
variable {ρ : Type} (W : Wiring ρ)

/-- Through a preamble the station is silent. -/
theorem preamble_agrees (regs : ρ) (ones n : Nat) :
    ∀ e ∈ hostEdges W ⟨regs, .waiting ones⟩ (List.replicate n true), e.Agrees := by
  induction n generalizing ones with
  | zero => nofun
  | succ n ih =>
    intro e he
    rw [List.replicate_succ, hostEdges] at he
    rcases List.mem_cons.mp he with rfl | he
    · exact Edge.agrees_of_far rfl
    · exact ih (ones + 1) e he

/-- An edge within a frame, with the bits of the frame before it. -/
theorem mem_hostEdges {regs : ρ} (bits : List Bool) {l : List Bool}
    (hlen : bits.length + l.length ≤ 32) {e : Edge}
    (he : e ∈ hostEdges W ⟨regs, .receiving bits⟩ l) :
    ∃ l₁ x l₂, l = l₁ ++ x :: l₂ ∧
      e = ⟨some x, Station.drives W.device ⟨regs, .receiving (bits ++ l₁)⟩⟩ := by
  induction l generalizing bits with
  | nil => cases he
  | cons x l ih =>
    rw [List.length_cons] at hlen
    rcases List.mem_cons.mp he with rfl | he
    · exact ⟨[], x, l, rfl, by rw [List.append_nil]⟩
    · cases l with
      | nil => cases he
      | cons y l =>
        rw [List.length_cons] at hlen
        have hshort : bits.length < 31 := by omega
        have hstep : Station.clock W.device ⟨regs, .receiving bits⟩ x =
            ⟨regs, .receiving (bits ++ [x])⟩ := by
          simp only [Station.clock, if_pos hshort]
        rw [hstep] at he
        obtain ⟨l₁, z, l₂, hl, rfl⟩ := ih (bits ++ [x]) (by simp; omega) he
        exact ⟨x :: l₁, z, l₂, by rw [hl]; rfl, by rw [List.append_assoc]; rfl⟩

/-- **Within a frame** the station is silent, or it drives the low half of the
turnaround as the host does. -/
theorem frame_agrees {regs : ρ} {ones : Nat} (hones : 32 ≤ ones) {h : Header}
    (hstart : h.start = 0) {l : List Bool} (hlen : l.length ≤ 18)
    (hturn : W.device.answer regs h.cut = none ∨ l = [true, false]) :
    ∀ e ∈ hostEdges W ⟨regs, .waiting ones⟩ (h.bits ++ l), e.Agrees := by
  have hbits : h.bits = false :: h.bits.tail := by simp [Header.bits, msbFirst, hstart]
  have htail : h.bits.tail.length = 13 := by rw [List.length_tail, h.length_bits]
  intro e he
  rw [hbits, List.cons_append, hostEdges] at he
  rcases List.mem_cons.mp he with rfl | he
  · exact Edge.agrees_of_far rfl
  have hfirst : Station.clock W.device ⟨regs, .waiting ones⟩ false =
      ⟨regs, .receiving [false]⟩ := by
    simp only [Station.clock, if_pos hones, Bool.false_eq_true, if_false]
  rw [hfirst] at he
  obtain ⟨l₁, x, l₂, hl, rfl⟩ := mem_hostEdges W [false]
    (by rw [List.length_append, htail, List.length_singleton]; omega) he
  by_cases hshort : l₁.length < 14
  · apply Edge.agrees_of_far
    have : ([false] ++ l₁).length < 15 := by
      rw [List.length_append, List.length_singleton]
      omega
    simp only [Station.drives, if_pos this]
  -- the header is complete, and what the station drives is up to its answer
  obtain ⟨m, rfl, hm⟩ : ∃ m, l₁ = h.bits.tail ++ m ∧ l = m ++ x :: l₂ := by
    have hpre : h.bits.tail <+: l₁ :=
      List.prefix_of_prefix_length_le ⟨l, rfl⟩ ⟨x :: l₂, hl.symm⟩ (by omega)
    obtain ⟨m, rfl⟩ := hpre
    rw [List.append_assoc] at hl
    exact ⟨m, rfl, List.append_cancel_left hl⟩
  have hwhole : [false] ++ (h.bits.tail ++ m) = h.bits ++ m := by rw [hbits]; rfl
  have hlong : ¬ (h.bits ++ m).length < 15 := by
    rw [← hwhole]
    simpa using hshort
  rcases hturn with hnone | rfl
  · apply Edge.agrees_of_far
    simp only [hwhole, Station.drives, if_neg hlong, h.ofBits_bits_append, hnone, Option.map_none]
  · -- the second bit of the turnaround
    have hone : m.length = 1 := by
      have htwo : m.length + (l₂.length + 1) = 2 := by
        have := congrArg List.length hm
        simpa using this.symm
      have hpos : 1 ≤ m.length := by
        rw [List.length_append, h.length_bits] at hlong
        omega
      omega
    obtain ⟨y, rfl⟩ := List.length_eq_one_iff.mp hone
    obtain ⟨-, hx⟩ := List.cons.inj hm
    obtain ⟨rfl, -⟩ := List.cons.inj hx
    intro a b ha hb
    obtain rfl := Option.some.inj ha
    simp only [hwhole, Station.drives, List.length_append, h.length_bits] at hb
    obtain ⟨word, -, rfl⟩ := Option.map_eq_some_iff.mp hb
    rfl

/-- The bits of a cycle, from a station at rest. -/
theorem cycle_agrees {s : Station ρ} (hs : s.AtRest) {h : Header} (hstart : h.start = 0)
    {l : List Bool} (hlen : l.length ≤ 18)
    (hturn : W.device.answer s.regs h.cut = none ∨ l = [true, false]) :
    ∀ e ∈ hostEdges W s (List.replicate 32 true ++ (h.bits ++ l)), e.Agrees := by
  obtain ⟨regs, phase⟩ := s
  obtain ⟨ones, rfl⟩ := hs
  intro e he
  rw [hostEdges_append, clocks_ones] at he
  rcases List.mem_append.mp he with he | he
  · exact preamble_agrees W regs ones 32 e he
  · exact frame_agrees W (Nat.le_add_left 32 ones) hstart hlen hturn e he

/-- Where the host has let go of the line, it drives it to nothing. -/
theorem echo_agrees (s : Station ρ) (n : Nat) : ∀ e ∈ echoEdges W s n, e.Agrees := by
  induction n generalizing s with
  | zero => nofun
  | succ n ih =>
    intro e he
    rcases List.mem_cons.mp he with rfl | he
    · exact Edge.agrees_of_host rfl
    · exact ih _ e he

end Frames

/-! ## Calls -/

/-- From one board to another the clock had only edges at which the two sides agree. -/
def Board.AgreesTo {ρ : Type} (b b' : Board ρ) : Prop :=
  ∃ new, b'.edges = b.edges ++ new ∧ ∀ e ∈ new, e.Agrees

section Calls
variable {ρ : Type} (W : Wiring ρ)

theorem Board.agreesTo_refl (b : Board ρ) : b.AgreesTo b :=
  ⟨[], (List.append_nil _).symm, nofun⟩

theorem Board.AgreesTo.trans {b b' b'' : Board ρ} (h : b.AgreesTo b') (h' : b'.AgreesTo b'') :
    b.AgreesTo b'' := by
  obtain ⟨new, hedges, hagree⟩ := h
  obtain ⟨new', hedges', hagree'⟩ := h'
  refine ⟨new ++ new', by rw [hedges', hedges, List.append_assoc], ?_⟩
  intro e he
  exact (List.mem_append.mp he).elim (hagree e) (hagree' e)

variable {W} (hD : AnswersReads W.device)
include hD

theorem wrCycle_agrees {b : Board ρ} (hrest : b.station.AtRest) (opcode : BitVec 64)
    (hop : opcode.toNat < 2) (port dev addrData : BitVec 64) :
    b.AgreesTo (mdioWrCycle W opcode port dev addrData b).2 := by
  obtain ⟨gpio, hrun⟩ :=
    mdioWrCycle_run W hrest opcode (Nat.lt_trans hop (by decide)) port dev addrData
  have hsilent : W.device.answer b.station.regs (cycleHeader opcode port dev).cut = none := by
    rw [cut_cycleHeader (Nat.lt_trans hop (by decide))]
    cases hanswer : W.device.answer b.station.regs (farHeader opcode.toNat port dev) with
    | none => rfl
    | some word => exact absurd (hD _ _ _ hanswer) (Nat.not_le_of_lt hop)
  rw [hrun]
  exact ⟨_, rfl, cycle_agrees W hrest rfl (by simp) (.inl hsilent)⟩

omit hD in
theorem rdCycle_agrees {b : Board ρ} (hrest : b.station.AtRest) {opcode : BitVec 64}
    (hop : opcode.toNat < 4) (port dev : BitVec 64) :
    b.AgreesTo (mdioRdCycle W opcode port dev b).2 := by
  obtain ⟨gpio, hrun⟩ := mdioRdCycle_run W hrest opcode hop port dev
  rw [hrun]
  refine ⟨_, rfl, ?_⟩
  intro e he
  rcases List.mem_append.mp he with he | he
  · exact cycle_agrees W hrest rfl (by simp) (.inr (by decide)) e he
  · exact echo_agrees W _ 16 e he

theorem wrPort_agrees {b : Board ρ} (hrest : b.station.AtRest)
    (port devaddr addr data : BitVec 64) :
    b.AgreesTo (unmXgeMdioWrPort W port devaddr addr data b).2 := by
  have haddr := wrCycle_agrees hD hrest opcodeAddr (by decide) port devaddr addr
  obtain ⟨gpio, hrun⟩ := mdioWrCycle_run W hrest opcodeAddr (by decide) port devaddr addr
  rw [unmXgeMdioWrPort, bind_run]
  refine haddr.trans (wrCycle_agrees hD ?_ opcodeWrite (by decide) port devaddr data)
  rw [hrun]
  exact ⟨0, rfl⟩

theorem rdPort_agrees {b : Board ρ} (hrest : b.station.AtRest) (port devaddr addr : BitVec 64) :
    b.AgreesTo (unmXgeMdioRdPort W port devaddr addr b).2 := by
  have haddr := wrCycle_agrees hD hrest opcodeAddr (by decide) port devaddr addr
  obtain ⟨gpio, hrun⟩ := mdioWrCycle_run W hrest opcodeAddr (by decide) port devaddr addr
  rw [unmXgeMdioRdPort, bind_run]
  refine haddr.trans (rdCycle_agrees ?_ (by decide) port devaddr)
  rw [hrun]
  exact ⟨0, rfl⟩

theorem call_agrees {b : Board ρ} (hrest : b.station.AtRest) (portnum : BitVec 16)
    (c : MdioCall) : b.AgreesTo (c.exec W portnum b).2 := by
  cases c with
  | wr devaddr addr data =>
    rw [MdioCall.exec, bind_run, pure_run, unmXgeMdioWr_eq]
    dsimp only
    exact wrPort_agrees hD hrest _ devaddr addr data
  | rd devaddr addr =>
    rw [MdioCall.exec, bind_run, pure_run, unmXgeMdioRd_eq]
    dsimp only
    exact rdPort_agrees hD hrest _ devaddr addr
  | wrPort port devaddr addr data =>
    rw [MdioCall.exec, bind_run, pure_run]
    dsimp only
    exact wrPort_agrees hD hrest port devaddr addr data
  | rdPort port devaddr addr =>
    rw [MdioCall.exec, bind_run, pure_run]
    dsimp only
    exact rdPort_agrees hD hrest port devaddr addr

/-- **No contention.**  In a run of calls, on either chip and from any state of the
lines in which the station is at rest, the host and a device that answers in reading
frames only never drive the line to different levels at an edge of the clock. -/
theorem execAll_agrees {b : Board ρ} (hrest : b.station.AtRest) (portnum : BitVec 16)
    (calls : List MdioCall) : b.AgreesTo (execAll W portnum calls b).2 := by
  induction calls generalizing b with
  | nil => exact b.agreesTo_refl
  | cons c l ih =>
    have hnext : ((c.exec W portnum b).2).station.AtRest :=
      ⟨0, by rw [(c.exec_run W portnum hrest).2]⟩
    rw [execAll, bind_run, bind_run, pure_run]
    exact (call_agrees hD hrest portnum c).trans (ih hnext)

end Calls

/-- A device that answers with the same word always. -/
def constantDevice (word : Nat) : Device Unit where
  answer _ h := if 2 ≤ h.opcode then some word else none
  accept _ _ := ()

theorem constantDevice_answersReads (word : Nat) : AnswersReads (constantDevice word) := by
  intro regs h w hanswer
  simp only [constantDevice] at hanswer
  split at hanswer
  · assumption
  · cases hanswer

theorem execAll_agrees_constant :
    (⟨fun _ => 0, ⟨(), .waiting 0⟩, []⟩ : Board Unit).AgreesTo
      (execAll ⟨0x25, constantDevice 0x43, true⟩ 0 [.rd 1 2, .wr 1 0 1]
        ⟨fun _ => 0, ⟨(), .waiting 0⟩, []⟩).2 :=
  execAll_agrees (constantDevice_answersReads 0x43) ⟨0, rfl⟩ 0 [.rd 1 2, .wr 1 0 1]

end Phy
end NxNic

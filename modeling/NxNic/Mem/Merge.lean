import NxNic.Mem.Access

/-! # What a write through the agents leaves

The write functions fetch the words of the access with the read function, which gets
the low part of the address only and so reads the DDR whatever memory the access is
to; and where the access takes two words, they keep of the second one what they
should replace and clear the rest.

`written` is what the memory then holds, byte by byte and without the words: `memWrite_spec` is the
tie to the write functions, in which the words that are fetched, merged and written back are
followed one after the other.
-/
namespace NxNic
namespace Mem

variable {off : BitVec 64} {size : Nat} {data : Bytes} {bus : Bus} {crb : MemCrb}
  {c c' : Card} {i k : Nat}

/-! ## The words -/

/-- A value of `n` bytes is widened. -/
theorem byte_narrow (data : Bytes) {n : Nat} (hi : i < 8) :
    Words.byte ((Words.ofBytes (8 * n) data n).setWidth 64) i = if i < n then data i else 0#8 := by
  rw [Words.byte_setWidth _ (by omega)]
  by_cases hin : i < n
  · rw [Words.byte_ofBytes _ _ (by omega)]
  · rw [Words.byte_of_le _ (by omega), if_neg hin]

/-- The value has the bytes at `data`. -/
theorem byte_getVal (hsize : IsSize size) :
    Words.byte (getVal data size) i = if i < size then data i else 0#8 := by
  by_cases hi : i < 8
  · rcases hsize with rfl | rfl | rfl | rfl
    · exact byte_narrow (n := 1) data hi
    · exact byte_narrow (n := 2) data hi
    · exact byte_narrow (n := 4) data hi
    · exact Words.byte_ofBytes _ _ (by omega)
  · have h8 := hsize.bounds.2
    rw [Words.byte_of_le _ (by omega), if_neg (by omega)]

/-- The data replace their bytes of the first word. -/
theorem byte_mergeWord0 (env : MemEnv) (hsize : IsSize size) {word : BitVec 64}
    (hfull : sz0 off size = 8 → word = 0#64) (hi : i < 8) :
    Words.byte (mergeWord0 env off size (getVal data size) word) i =
      if off0 off ≤ i ∧ i < off0 off + sz0 off size then data (i - off0 off)
      else Words.byte word i := by
  obtain ⟨h1, h8⟩ := hsize.bounds
  have hoff := toNat_off0 off
  have hparts := parts_cases off h1 h8
  unfold mergeWord0
  rw [Words.byte_or, env.byte_shl (by omega) hi, byte_getVal hsize]
  by_cases hall : sz0 off size = 8
  · rw [hfull hall, BitVec.zero_and, Words.byte_zero, BitVec.zero_or, if_neg (by omega),
      if_pos (by omega), if_pos (by omega)]
  · rw [Words.byte_and, Words.byte_not _ (by omega), env.byte_shl (by omega) hi,
      env.mask_eq (by omega)]
    by_cases hbefore : i < off0 off
    · rw [if_pos hbefore, if_pos hbefore, if_neg (by omega), BitVec.or_zero, BitVec.not_zero,
        BitVec.and_allOnes]
    · rw [if_neg hbefore, if_neg hbefore, Words.byte_low _ (by omega)]
      by_cases hhere : i < off0 off + sz0 off size
      · rw [if_pos (by omega), if_pos (by omega), if_pos (by omega), BitVec.not_allOnes,
          BitVec.and_zero, BitVec.zero_or]
      · rw [if_neg (by omega), if_neg (by omega), if_neg (by omega), BitVec.or_zero,
          BitVec.not_zero, BitVec.and_allOnes]

/-- The data are added to what the second word has, and the rest of it is cleared. -/
theorem byte_mergeWord1 (env : MemEnv) (hsize : IsSize size) (hover : 8 < off0 off + size)
    {word : BitVec 64} (hi : i < 8) :
    Words.byte (mergeWord1 env off size (getVal data size) word) i =
      if i < sz1 off size then Words.byte word i ||| data (sz0 off size + i) else 0#8 := by
  obtain ⟨h1, h8⟩ := hsize.bounds
  have hoff := toNat_off0 off
  have hparts := parts_cases off h1 h8
  unfold mergeWord1
  rw [Words.byte_or, env.byte_and_mask (by omega) hi, env.byte_shr (by omega), byte_getVal hsize]
  by_cases hhere : i < sz1 off size
  · rw [if_pos hhere, if_pos hhere, if_pos (by omega)]
  · rw [if_neg hhere, if_neg hhere, if_neg (by omega), BitVec.or_zero]

theorem fetchWords_cons {read : BitVec 64 → Bytes → Nat → Card → Int × Bytes × Card} {is : List Nat}
    (word : Nat → BitVec 64) {data' : Bytes}
    (h : read (wordAddr off i) (fun k => Words.byte (word i) k) 8 c = (0, data', c')) :
    fetchWords read off (i :: is) word c =
      fetchWords read off is (Function.update word i (Words.ofBytes 64 data' 8)) c' := by
  rw [fetchWords, h]
  rfl

/-- The words fetched are those of the DDR. -/
theorem fetchWords_spec (env : MemEnv) {acc : Access}
    (hddr : ∀ off' : BitVec 64, off'.toNat + 8 ≤ 2 ^ 28 → acc.memCrb off' 8 = some .ddrNet)
    (hnever : c.NeverTimesOut) (h1 : 1 ≤ size) (h8 : size ≤ 8)
    (hroom : memOff off + size ≤ 2 ^ 28) :
    ∃ word c', fetchWords (memRead env acc) off (List.range (loop off size)) (fun _ => 0#64) c =
        (some word, c') ∧ c'.mem = c.mem ∧ c'.NeverTimesOut ∧
      (∀ i, i < 8 → Words.byte (word 0) i = c.mem .ddrNet (wordOff off + i)) ∧
      (8 < off0 off + size →
        ∀ i, i < 8 → Words.byte (word 1) i = c.mem .ddrNet (wordOff off + 8 + i)) := by
  have hoff := toNat_off0 off
  have hmem := memOff_eq off
  have hfetch : ∀ {c : Card} (j : Nat), c.NeverTimesOut → j ≤ 1 →
      wordOff off + 8 * j + 8 ≤ 2 ^ 28 → ∀ buf, ∃ data' c',
        memRead env acc (wordAddr off j) buf 8 c = (0, data', c') ∧ c'.mem = c.mem ∧
          c'.NeverTimesOut ∧ ∀ i, i < 8 →
            Words.byte (Words.ofBytes 64 data' 8) i = c.mem .ddrNet (wordOff off + 8 * j + i) := by
    intro c j hnever hj hlast buf
    have haddr := toNat_wordAddr off hj
    have hlow : memOff (wordAddr off j) = wordOff off + 8 * j := by
      rw [memOff, haddr]
      omega
    obtain ⟨data', c', hread, hsame, hnever', hbytes⟩ := memRead_spec env
      (hddr (wordAddr off j) (by omega)) hnever (Or.inr (Or.inr (Or.inr rfl))) (by omega) buf
    refine ⟨data', c', hread, hsame, hnever', fun i hi => ?_⟩
    rw [Words.byte_ofBytes _ _ (by omega), if_pos hi, hbytes i hi, hlow]
  have hparts := parts_cases off h1 h8
  obtain ⟨data₀, c₀, hread₀, hsame₀, hnever₀, hbytes₀⟩ :=
    hfetch 0 hnever (by omega) (by unfold wordOff; omega) (fun k => Words.byte 0#64 k)
  rcases hparts with ⟨hloop, hfits, -, -⟩ | ⟨hloop, hover, -, -⟩
  · refine ⟨Function.update (fun _ => 0#64) 0 (Words.ofBytes 64 data₀ 8), c₀, ?_, hsame₀, hnever₀,
      ?_, fun hover => absurd hover (by omega)⟩
    · rw [hloop]
      exact fetchWords_cons _ hread₀
    · rw [Function.update_self]
      exact hbytes₀
  · obtain ⟨data₁, c₁, hread₁, hsame₁, hnever₁, hbytes₁⟩ :=
      hfetch 1 hnever₀ (by omega) (by unfold wordOff at *; omega) (fun k => Words.byte 0#64 k)
    refine ⟨Function.update (Function.update (fun _ => 0#64) 0 (Words.ofBytes 64 data₀ 8)) 1
      (Words.ofBytes 64 data₁ 8), c₁, ?_, hsame₁.trans hsame₀, hnever₁, ?_, fun _ => ?_⟩
    · rw [hloop]
      exact (fetchWords_cons (fun _ => 0#64) hread₀).trans (fetchWords_cons (i := 1) _ hread₁)
    · rw [Function.update_of_ne (by decide), Function.update_self]
      exact hbytes₀
    · rw [Function.update_self]
      rw [hsame₀] at hbytes₁
      exact hbytes₁

theorem writeRounds_cons {is : List Nat} {word : Nat → BitVec 64}
    (h : agentWrite bus crb c ((wordAddr off i).setWidth 32) (word i) = (true, c')) :
    writeRounds bus crb off word (i :: is) c = writeRounds bus crb off word is c' := by
  rw [writeRounds, h]

/-- The words written. -/
theorem writeRounds_spec (crb : MemCrb) (hreach : Reaches bus c) (hnever : c.NeverTimesOut)
    (h1 : 1 ≤ size) (h8 : size ≤ 8) (hroom : memOff off + size ≤ 2 ^ 28) (word : Nat → BitVec 64) :
    ∃ m c', writeRounds bus crb off word (List.range (loop off size)) c = (0, c') ∧
      Changed c crb m c' ∧ ∀ k, m k =
        if wordOff off ≤ k ∧ k < wordOff off + 8 then Words.byte (word 0) (k - wordOff off)
        else if 8 < off0 off + size ∧ wordOff off + 8 ≤ k ∧ k < wordOff off + 16 then
          Words.byte (word 1) (k - (wordOff off + 8))
        else c.mem crb k := by
  obtain ⟨c₀, hwrite₀, hchanged₀⟩ := agentWrite_spec crb hreach (hnever 0)
    ((wordAddr off 0).setWidth 32) (word 0)
  rw [agentAddr_wordAddr hroom h1 (by omega)] at hchanged₀
  rcases parts_cases off h1 h8 with ⟨hloop, hfits, -, -⟩ | ⟨hloop, hover, -, -⟩
  · refine ⟨_, c₀, ?_, hchanged₀, fun k => ?_⟩
    · rw [hloop]
      exact writeRounds_cons hwrite₀
    · rw [if_neg (by omega : ¬ (8 < off0 off + size ∧ _))]
      rfl
  · obtain ⟨c₁, hwrite₁, hchanged₁⟩ := agentWrite_spec crb (hchanged₀.reaches hreach)
      (hchanged₀.never hnever 0) ((wordAddr off 1).setWidth 32) (word 1)
    rw [agentAddr_wordAddr hroom h1 (by omega), hchanged₀.mem_self] at hchanged₁
    refine ⟨_, c₁, ?_, hchanged₀.trans hchanged₁, fun k => ?_⟩
    · rw [hloop]
      exact (writeRounds_cons hwrite₀).trans (writeRounds_cons hwrite₁)
    · rw [Words.store_apply, Words.store_apply]
      by_cases hfirst : wordOff off ≤ k ∧ k < wordOff off + 8
      · rw [if_neg (by omega), if_pos (by omega), if_pos hfirst]
        rfl
      · rw [if_neg hfirst]
        by_cases hsecond : wordOff off + 8 ≤ k ∧ k < wordOff off + 16
        · rw [if_pos (by omega), if_pos ⟨hover, hsecond⟩]
        · rw [if_neg (by omega), if_neg (by omega), if_neg fun h => hsecond h.2]

/-! ## The write functions -/

/-- What a write leaves at `k`, in a memory that held `m` while the DDR held `ddr`. -/
def written (ddr m : Bytes) (off : BitVec 64) (data : Bytes) (size : Nat) (k : Nat) : BitVec 8 :=
  if memOff off ≤ k ∧ k < memOff off + size then
    if k < wordOff off + 8 then data (k - memOff off) else ddr k ||| data (k - memOff off)
  else if wordOff off ≤ k ∧ k < wordOff off + 8 then ddr k
  else if 8 < off0 off + size ∧ wordOff off + 8 ≤ k ∧ k < wordOff off + 16 then 0#8
  else m k

/-- The words that the data are put into: those of the DDR, or none if the data are a
whole word. -/
theorem oldWords_spec (env : MemEnv) {acc : Access}
    (hddr : ∀ off' : BitVec 64, off'.toNat + 8 ≤ 2 ^ 28 → acc.memCrb off' 8 = some .ddrNet)
    (hnever : c.NeverTimesOut) (h1 : 1 ≤ size) (h8 : size ≤ 8)
    (hroom : memOff off + size ≤ 2 ^ 28) :
    ∃ word c', (if size ≠ 8 ∨ off0 off ≠ 0 then
        fetchWords (memRead env acc) off (List.range (loop off size)) (fun _ => 0#64) c
        else (some fun _ => 0#64, c)) = (some word, c') ∧
      c'.mem = c.mem ∧ c'.NeverTimesOut ∧ (sz0 off size = 8 → word 0 = 0#64) ∧
      (sz0 off size ≠ 8 →
        ∀ i, i < 8 → Words.byte (word 0) i = c.mem .ddrNet (wordOff off + i)) ∧
      (8 < off0 off + size →
        ∀ i, i < 8 → Words.byte (word 1) i = c.mem .ddrNet (wordOff off + 8 + i)) := by
  have hparts := parts_cases off h1 h8
  by_cases hpart : size ≠ 8 ∨ off0 off ≠ 0
  · rw [if_pos hpart]
    obtain ⟨word, c', hfetch, hsame, hnever', hword₀, hword₁⟩ :=
      fetchWords_spec env hddr hnever h1 h8 hroom
    exact ⟨word, c', hfetch, hsame, hnever', fun hfull => absurd hfull (by omega),
      fun _ => hword₀, hword₁⟩
  · rw [if_neg hpart]
    exact ⟨fun _ => 0#64, c, rfl, rfl, hnever, fun _ => rfl, fun hfull => absurd hfull (by omega),
      fun hover => absurd hover (by omega)⟩

/-- What the words leave, once the data are in them. -/
theorem written_eq (env : MemEnv) (hsize : IsSize size) {ddr m : Bytes} {word : Nat → BitVec 64}
    (hfull : sz0 off size = 8 → word 0 = 0#64)
    (hword₀ : sz0 off size ≠ 8 → ∀ i, i < 8 → Words.byte (word 0) i = ddr (wordOff off + i))
    (hword₁ : 8 < off0 off + size →
      ∀ i, i < 8 → Words.byte (word 1) i = ddr (wordOff off + 8 + i)) (k : Nat) :
    (if wordOff off ≤ k ∧ k < wordOff off + 8 then
        Words.byte (mergeWord0 env off size (getVal data size) (word 0)) (k - wordOff off)
      else if 8 < off0 off + size ∧ wordOff off + 8 ≤ k ∧ k < wordOff off + 16 then
        Words.byte (mergeWord1 env off size (getVal data size) (word 1)) (k - (wordOff off + 8))
      else m k) = written ddr m off data size k := by
  obtain ⟨h1, h8⟩ := hsize.bounds
  have hoff := toNat_off0 off
  have hmem := memOff_eq off
  have hparts := parts_cases off h1 h8
  unfold written
  by_cases hfirst : wordOff off ≤ k ∧ k < wordOff off + 8
  · rw [if_pos hfirst, byte_mergeWord0 env hsize hfull (by omega)]
    by_cases hhere : memOff off ≤ k ∧ k < memOff off + size
    · rw [if_pos (by omega), if_pos hhere, if_pos hfirst.2]
      congr 1
      omega
    · rw [if_neg (by omega), if_neg hhere, if_pos hfirst, hword₀ (by omega) _ (by omega)]
      congr 1
      omega
  · rw [if_neg hfirst]
    by_cases hsecond : 8 < off0 off + size ∧ wordOff off + 8 ≤ k ∧ k < wordOff off + 16
    · rw [if_pos hsecond, byte_mergeWord1 env hsize hsecond.1 (by omega)]
      by_cases hhere : memOff off ≤ k ∧ k < memOff off + size
      · rw [if_pos (by omega), if_pos hhere, if_neg (by omega),
          hword₁ hsecond.1 _ (by omega)]
        congr 2 <;> omega
      · rw [if_neg (by omega), if_neg hhere, if_neg hfirst, if_pos hsecond]
    · rw [if_neg hsecond, if_neg (by omega), if_neg hfirst, if_neg hsecond]

/-- **The write functions.** -/
theorem memWrite_spec (env : MemEnv) {acc : Access} (data : Bytes)
    (hcrb : acc.memCrb off size = some crb)
    (hddr : ∀ off' : BitVec 64, off'.toNat + 8 ≤ 2 ^ 28 → acc.memCrb off' 8 = some .ddrNet)
    (hnever : c.NeverTimesOut) (hsize : IsSize size) (hroom : memOff off + size ≤ 2 ^ 28) :
    ∃ c', memWrite env acc off data size c = (0, c') ∧ c'.NeverTimesOut ∧
      c'.mem = Function.update c.mem crb
        (written (c.mem .ddrNet) (c.mem crb) off data size) := by
  obtain ⟨h1, h8⟩ := hsize.bounds
  obtain ⟨word, c₁, hold, hsame, hnever₁, hfull, hword₀, hword₁⟩ :=
    oldWords_spec env hddr hnever h1 h8 hroom
  -- the words with the data in them
  obtain ⟨word', hword', h0, h1'⟩ : ∃ word', word' = (if loop off size = 2 then
      Function.update (Function.update word 0 (mergeWord0 env off size (getVal data size) (word 0)))
        1 (mergeWord1 env off size (getVal data size) (word 1))
      else Function.update word 0 (mergeWord0 env off size (getVal data size) (word 0))) ∧
      word' 0 = mergeWord0 env off size (getVal data size) (word 0) ∧
      (8 < off0 off + size → word' 1 = mergeWord1 env off size (getVal data size) (word 1)) := by
    refine ⟨_, rfl, ?_, fun hover => ?_⟩
    · split
      · rw [Function.update_of_ne (by decide), Function.update_self]
      · rw [Function.update_self]
    · have hparts := parts_cases off h1 h8
      rw [if_pos (by omega), Function.update_self]
  have hreach : Reaches acc.bus (changeCrbwindow acc.bus c₁ 0) := reaches_changeCrbwindow
  obtain ⟨m, c₂, hrounds, hchanged, hm⟩ :=
    writeRounds_spec crb hreach (never_changeCrbwindow.mpr hnever₁) h1 h8 hroom word'
  refine ⟨changeCrbwindow acc.bus c₂ 1, ?_,
    never_changeCrbwindow.mpr (hchanged.never (never_changeCrbwindow.mpr hnever₁)), ?_⟩
  · unfold memWrite
    rw [hcrb]
    have hother : (1 : Nat) ≠ 0 := by decide
    simp only [hold, Function.update_of_ne hother, ← hword', hrounds]
  · rw [changeCrbwindow_mem, hchanged.mem, changeCrbwindow_mem, hsame]
    congr 1
    funext k
    rw [hm k, ← written_eq env hsize hfull hword₀ hword₁ k, h0, changeCrbwindow_mem, hsame]
    by_cases hover : 8 < off0 off + size
    · rw [h1' hover]
    · simp only [hover, false_and, if_false]

end Mem
end NxNic

import NxNic.Lib.Ledger

/-! # Pools of memory

A pool hands out blocks and takes them back, in a ledger whose entries are the blocks with their
sizes.  A block's number is its place in the ledger, so no two blocks are the same, and giving
one back with another size than its own is releasing what is not held.

What is held after the ledger is known without reading it (`Holds`), by what each operation does
to it.

`Holds n m` says that the blocks in `m` are out, with their sizes, and that none of them was handed
out in the first `n` entries.  `Holds.take` and `Holds.give` are the rules for the two operations.
A block given back in another size, or for a second time, is the end of it: from then on the
ledger has no balance (`Holds.give_wrong`, `Holds.give_again`).
-/
namespace NxNic

/-- A block of memory, with the size that was asked for. -/
structure Block where
  id : Nat
  size : Nat
deriving DecidableEq

/-- A pool is its ledger. -/
abbrev Pool := List (Entry Block)

namespace Pool
variable {p : Pool} {n : Nat} {m : Multiset Block} {b : Block}

/-- The next block that the pool hands out. -/
def next (p : Pool) (size : Nat) : Block := ⟨p.length, size⟩

/-- A block of the given size is handed out. -/
def take (p : Pool) (size : Nat) : Pool := p ++ [.acquire (p.next size)]

/-- The block at the address of `b` is given back, with a size of the caller's. -/
def give (p : Pool) (b : Block) (size : Nat) : Pool := p ++ [.release ⟨b.id, size⟩]

/-- What is held, `none` when something was given back that was not held with that size. -/
def held (p : Pool) : Option (Multiset Block) := Ledger.settle 0 p

/-- The blocks that are out are those in `m`, each once, and they were handed out after the first
`n` entries. -/
structure Holds (p : Pool) (n : Nat) (m : Multiset Block) : Prop where
  held : p.held = some m
  ids : (m.map Block.id).Nodup
  entries : n ≤ p.length
  since : ∀ b ∈ m, n ≤ b.id ∧ b.id < p.length

theorem length_give (p : Pool) (b : Block) (size : Nat) :
    (p.give b size).length = p.length + 1 := List.length_append

theorem holds_nil : Holds [] 0 0 :=
  ⟨rfl, Multiset.nodup_zero, Nat.le_refl 0, fun _ hb => absurd hb (Multiset.notMem_zero _)⟩

/-- Counting from an earlier entry. -/
theorem Holds.mono {k : Nat} (h : Holds p n m) (hk : k ≤ n) : Holds p k m :=
  ⟨h.held, h.ids, Nat.le_trans hk h.entries,
    fun b hb => ⟨Nat.le_trans hk (h.since b hb).1, (h.since b hb).2⟩⟩

/-- When nothing is out, counting starts anew. -/
theorem Holds.restart (h : p.held = some 0) : Holds p p.length 0 :=
  ⟨h, Multiset.nodup_zero, Nat.le_refl _, fun _ hb => absurd hb (Multiset.notMem_zero _)⟩

theorem Holds.take (h : Holds p n m) (size : Nat) : Holds (p.take size) n (p.next size ::ₘ m) := by
  have hlength : (p.take size).length = p.length + 1 := List.length_append
  refine ⟨?_, ?_, ?_, ?_⟩
  · exact Ledger.settle_append_of h.held rfl
  · rw [Multiset.map_cons, Multiset.nodup_cons]
    refine ⟨fun hmem => ?_, h.ids⟩
    obtain ⟨b, hb, hid⟩ := Multiset.mem_map.mp hmem
    exact absurd (h.since b hb).2 (Nat.not_lt_of_le (Nat.le_of_eq hid.symm))
  · exact hlength ▸ Nat.le_succ_of_le h.entries
  · intro b hb
    rw [hlength]
    rcases Multiset.mem_cons.mp hb with rfl | hb
    · exact ⟨h.entries, Nat.lt_succ_self _⟩
    · exact ⟨(h.since b hb).1, Nat.lt_succ_of_lt (h.since b hb).2⟩

/-- Giving a block back with its size. -/
theorem Holds.give (h : Holds p n (b ::ₘ m)) : Holds (p.give b b.size) n m := by
  have hlength := p.length_give b b.size
  refine ⟨?_, ?_, ?_, ?_⟩
  · refine Ledger.settle_append_of h.held ?_
    rw [Ledger.settle, if_pos (Multiset.mem_cons_self b m), Multiset.erase_cons_head]
    rfl
  · have hids := h.ids
    rw [Multiset.map_cons, Multiset.nodup_cons] at hids
    exact hids.2
  · exact hlength ▸ Nat.le_succ_of_le h.entries
  · intro c hc
    have hc := h.since c (Multiset.mem_cons_of_mem hc)
    exact ⟨hc.1, hlength ▸ Nat.lt_succ_of_lt hc.2⟩

/-- Giving a list of blocks back, each with its size. -/
theorem Holds.give_all {l : List Block} (h : Holds p n (↑l + m)) :
    Holds (l.foldl (fun p b => p.give b b.size) p) n m := by
  induction l generalizing p with
  | nil => exact (zero_add m ▸ h : Holds p n m)
  | cons b l ih =>
    rw [← Multiset.cons_coe, Multiset.cons_add] at h
    exact ih h.give

/-- Giving a block back with another size. -/
theorem Holds.give_wrong {size : Nat} (h : Holds p n (b ::ₘ m)) (hsize : size ≠ b.size) :
    (p.give b size).held = none := by
  rw [Pool.held, Pool.give, Ledger.settle_append, show Ledger.settle 0 p = some _ from h.held,
    Option.bind_some, Ledger.settle, if_neg]
  intro hmem
  rcases Multiset.mem_cons.mp hmem with heq | hmem
  · exact hsize (congrArg Block.size heq)
  · have hids := h.ids
    rw [Multiset.map_cons, Multiset.nodup_cons] at hids
    exact hids.1 (Multiset.mem_map.mpr ⟨_, hmem, rfl⟩)

/-- Giving back a block from before the first `n` entries. -/
theorem Holds.give_again {size : Nat} (h : Holds p n m) (hold : b.id < n) :
    (p.give b size).held = none := by
  rw [Pool.held, Pool.give, Ledger.settle_append, show Ledger.settle 0 p = some _ from h.held,
    Option.bind_some, Ledger.settle, if_neg]
  exact fun hmem => absurd hold (Nat.not_lt_of_le (h.since _ hmem).1)

/-- A pool that has gone wrong stays so. -/
theorem held_give_none (h : p.held = none) (b : Block) (size : Nat) :
    (p.give b size).held = none := by
  rw [held, give, Ledger.settle_append, show Ledger.settle 0 p = none from h]
  rfl

end Pool
end NxNic

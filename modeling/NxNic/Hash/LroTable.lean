import NxNic.Hash.Map

/-! # The table of the LRO flows, by its pointers

With the operations of `unm_nic_lro.c` the hash does not respect the comparison, so that the table
is no map.  Its buckets are the lists of the flows all the same, and each operation does with the
pointers what it does with the lists.

`Amounts` ties the pointers to the lists of `Lro/HashTable`, bucket by bucket.  Each operation has a
lemma that it returns the same on both and keeps the tie, with fuel enough for one round of a
bucket; so what `Lro/Flows` and `Lro/Ownership` say of the lists is so of the pointers.
-/
namespace NxNic
namespace Hash
open Lro (NxHostKey nxCmpIpKey lroIpv4Hash)

/-- `lro_hash_ops`. -/
def lroOps : HashTblOps NxHostKey := ⟨lroIpv4Hash, nxCmpIpKey⟩

variable {bucketCnt : Nat} [NeZero bucketCnt] {tbl : HashTbl NxHostKey bucketCnt Nat}
  {t : Lro.HashTbl bucketCnt} {keys : Nat → NxHostKey} {key : NxHostKey} {l : List Nat}
  {node : Nat}

/-- The pointers are those of the lists. -/
structure Amounts (tbl : HashTbl NxHostKey bucketCnt Nat) (t : Lro.HashTbl bucketCnt) : Prop where
  bucketed : Bucketed lroOps tbl t.buckets
  keys : tbl.keys = t.keys

theorem insertScan_lro {entry : Option Nat} :
    insertScan lroOps keys key l entry = Lro.insertScan keys key l entry := by
  induction l generalizing entry with
  | nil => rfl
  | cons e rest ih =>
    rw [insertScan, Lro.insertScan]
    split
    · rename_i hzero
      exact (if_pos hzero).symm
    · rename_i hzero
      rw [ih]
      exact (if_neg hzero).symm

theorem listInsertBefore_last {e : Nat} {xs : List Nat} (he : e ∉ xs) :
    Lro.listInsertBefore node e (xs ++ [e]) = xs ++ [node, e] := by
  induction xs with
  | nil => exact if_pos rfl
  | cons x xs ih =>
    rw [List.mem_cons, not_or] at he
    rw [List.cons_append, Lro.listInsertBefore, if_neg fun hx => he.1 hx.symm, ih he.2]
    rfl

/-- The scan decides where the node is put as the list model does. -/
theorem insertInto_lro {e : Nat} (hnodup : l.Nodup)
    (hscan : Lro.insertScan keys (keys node) l none = some (some e)) :
    insertInto lroOps keys node l = Lro.listInsertBefore node e l := by
  rw [← insertScan_lro] at hscan
  have hlast : ∃ xs, l = xs ++ [e] :=
    (insertScan_last hscan).resolve_left fun hnil => Option.some_ne_none _ hnil.2.symm
  simp only [insertInto, hscan]
  obtain ⟨xs, rfl⟩ := hlast
  have he : e ∉ xs := fun hmem =>
    (List.nodup_append.mp hnodup).2.2 e hmem e (List.mem_singleton_self e) rfl
  rw [List.dropLast_concat, listInsertBefore_last he]

theorem insertInto_lro_end (hscan : Lro.insertScan keys (keys node) l none = some none) :
    insertInto lroOps keys node l = l ++ [node] := by
  rw [← insertScan_lro] at hscan
  simp only [insertInto, hscan]

/-- A new table is one of empty lists. -/
theorem amounts_create (links : Links (ListHead bucketCnt Nat)) (keys : Nat → NxHostKey) :
    Amounts (HashTbl.nxHashTblCreate links keys) ⟨fun _ => [], keys⟩ :=
  ⟨bucketed_create links keys, rfl⟩

/-- **`nx_hash_tbl_insert`** of the flows, by pointers and by lists. -/
theorem nxHashTblInsert_lro (h : Amounts tbl t) (hn : ¬t.Linked node) :
    ∃ tbl', Yields (fun fuel => tbl.nxHashTblInsert lroOps fuel node)
        ((t.nxHashTblInsert node).1, tbl') ∧ Amounts tbl' (t.nxHashTblInsert node).2 := by
  obtain ⟨links, keys⟩ := tbl
  obtain ⟨hb, hkeys⟩ := h
  obtain rfl : keys = t.keys := hkeys
  have hnot : ∀ j, node ∉ t.buckets j := fun j hj => hn ⟨j, hj⟩
  cases hscan : Lro.insertScan t.keys (t.keys node)
      (t.buckets (Lro.HashTbl.getBucket (t.keys node))) none with
  | none =>
    have ht : t.nxHashTblInsert node = (.exists, t) := by
      simp only [Lro.HashTbl.nxHashTblInsert, hscan]
    have hfound := Lro.HashTbl.insertScan_eq_none.mp hscan
    rw [ht]
    exact ⟨_, ⟨_, fun _ => nxHashTblInsert_exists hb hfound⟩, hb, rfl⟩
  | some entry =>
    have hnone : ∀ e ∈ t.buckets (Lro.HashTbl.getBucket (t.keys node)),
        nxCmpIpKey (t.keys node) (t.keys e) ≠ 0 := by
      intro e he hzero
      exact Option.some_ne_none _
        (hscan.symm.trans (Lro.HashTbl.insertScan_eq_none.mpr ⟨e, he, hzero⟩))
    obtain ⟨L, -, hb', hins⟩ := nxHashTblInsert_inserted hb hnot hnone
    cases entry with
    | none =>
      have ht : t.nxHashTblInsert node =
          (.inserted, t.setBucket (Lro.HashTbl.getBucket (t.keys node))
            (t.buckets (Lro.HashTbl.getBucket (t.keys node)) ++ [node])) := by
        simp only [Lro.HashTbl.nxHashTblInsert, hscan]
      rw [ht]
      refine ⟨_, ⟨_, hins⟩, ?_, rfl⟩
      exact insertInto_lro_end hscan ▸ hb'
    | some e =>
      have ht : t.nxHashTblInsert node =
          (.inserted, t.setBucket (Lro.HashTbl.getBucket (t.keys node))
            (Lro.listInsertBefore node e (t.buckets (Lro.HashTbl.getBucket (t.keys node))))) := by
        simp only [Lro.HashTbl.nxHashTblInsert, hscan]
      rw [ht]
      refine ⟨_, ⟨_, hins⟩, ?_, rfl⟩
      exact insertInto_lro (hb.nodup _) hscan ▸ hb'

/-- **`nx_hash_tbl_get`** of the flows. -/
theorem nxHashTblGet_lro (h : Amounts tbl t) :
    Yields (fun fuel => tbl.nxHashTblGet lroOps fuel key) (t.nxHashTblGet key) := by
  obtain ⟨links, keys⟩ := tbl
  obtain ⟨hb, hkeys⟩ := h
  obtain rfl : keys = t.keys := hkeys
  exact ⟨_, fun _ => nxHashTblGet_eq hb⟩

/-- **`nx_hash_tbl_delete`** of the flows. -/
theorem nxHashTblDelete_lro (h : Amounts tbl t) :
    ∃ tbl', Yields (fun fuel => tbl.nxHashTblDelete lroOps fuel key)
        ((t.nxHashTblDelete key).1, tbl') ∧ Amounts tbl' (t.nxHashTblDelete key).2 := by
  obtain ⟨links, keys⟩ := tbl
  obtain ⟨hb, hkeys⟩ := h
  obtain rfl : keys = t.keys := hkeys
  rw [Lro.HashTbl.nxHashTblDelete]
  cases hfind : t.find key with
  | none => exact ⟨_, ⟨_, fun _ => nxHashTblDelete_none hb hfind⟩, hb, rfl⟩
  | some e =>
    obtain ⟨L, hb', hdel⟩ := nxHashTblDelete_some hb hfind
    exact ⟨_, ⟨_, hdel⟩, hb', rfl⟩

end Hash
end NxNic

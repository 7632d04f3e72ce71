import Mathlib.Algebra.GroupWithZero.Nat
import Mathlib.Data.List.Perm.Basic
import Mathlib.Logic.Function.Basic

/-! # The hash table of the LRO flows

`nx_hash_table.c` with the operations of `unm_nic_lro.c`: a bucket is a list of
nodes, and a node points to its key.  Nodes go by numbers.
-/
namespace NxNic
namespace Lro

/-! ## Keys -/

/-- `ip_addr_t`, by its four words; an IPv4 address is the first of them. -/
abbrev IpAddr := Fin 4 → BitVec 32

def IpAddr.v4 (a : IpAddr) : BitVec 32 := a 0

/-- `nx_host_key_t`. -/
structure NxHostKey where
  ipVersion : BitVec 8
  daddr : IpAddr
  saddr : IpAddr
  sport : BitVec 16
  dport : BitVec 16

def nxIpVersionV4 : BitVec 8 := 4

/-- The last two comparisons of `nx_cmp_ip_key`. -/
def cmpPorts (key1 key2 : NxHostKey) : BitVec 32 :=
  if key1.sport ≠ key2.sport then key1.sport.setWidth 32 - key2.sport.setWidth 32
  else if key1.dport ≠ key2.dport then key1.dport.setWidth 32 - key2.dport.setWidth 32
  else 0

/-- The first word in which two keys differ, the addresses word by word. -/
def cmpWords (key1 key2 : NxHostKey) : Option (BitVec 32) :=
  (List.finRange 4).findSome? fun i =>
    if key1.daddr i - key2.daddr i ≠ 0 then some (key1.daddr i - key2.daddr i)
    else if key1.saddr i - key2.saddr i ≠ 0 then some (key1.saddr i - key2.saddr i)
    else none

/-- `nx_cmp_ip_key`.  The branch for IPv4 does not look at the source address. -/
def nxCmpIpKey (key1 key2 : NxHostKey) : BitVec 32 :=
  if key1.ipVersion.setWidth 32 - key2.ipVersion.setWidth 32 ≠ (0 : BitVec 32) then
    key1.ipVersion.setWidth 32 - key2.ipVersion.setWidth 32
  else if key1.ipVersion = nxIpVersionV4 then
    if key1.daddr.v4 ≠ key2.daddr.v4 then key1.daddr.v4 - key2.daddr.v4
    else cmpPorts key1 key2
  else (cmpWords key1 key2).getD (cmpPorts key1 key2)

/-- `NX_NUM_LRO_ENTRIES`. -/
def nxNumLroEntries : BitVec 32 := 32

/-- `lro_ipv4_hash`. -/
def lroIpv4Hash (key : NxHostKey) : BitVec 32 :=
  let hash := ((key.daddr.v4 &&& 0xF0F0F0F0) >>> 4) ||| ((key.daddr.v4 &&& 0x0F0F0F0F) <<< 4)
  let hash := hash ^^^ (key.dport.setWidth 32 <<< 16)
  let hash := hash ^^^ key.saddr.v4
  let hash := hash ^^^ key.sport.setWidth 32
  let hash := hash ^^^ (hash >>> 16)
  (hash ^^^ (hash >>> 8)) &&& (nxNumLroEntries - 1)

/-- The fields that tell IPv4 flows apart. -/
structure Flow where
  daddr : BitVec 32
  saddr : BitVec 32
  sport : BitVec 16
  dport : BitVec 16
deriving DecidableEq

def NxHostKey.flow (key : NxHostKey) : Flow :=
  ⟨key.daddr.v4, key.saddr.v4, key.sport, key.dport⟩

/-- The fields that are compared. -/
def SameButSource (key1 key2 : NxHostKey) : Prop :=
  key1.daddr.v4 = key2.daddr.v4 ∧ key1.sport = key2.sport ∧ key1.dport = key2.dport

instance (key1 key2 : NxHostKey) : Decidable (SameButSource key1 key2) :=
  inferInstanceAs (Decidable (_ ∧ _ ∧ _))

theorem sub_eq_zero {w : Nat} {x y : BitVec w} : x - y = 0 ↔ x = y := by
  rw [BitVec.sub_eq_iff_eq_add]
  simp

theorem setWidth_sub_ne_zero {x y : BitVec 16} (h : x ≠ y) :
    x.setWidth 32 - y.setWidth 32 ≠ (0 : BitVec 32) := by
  intro hzero
  have heq := congrArg BitVec.toNat (sub_eq_zero.mp hzero)
  rw [BitVec.toNat_setWidth_of_le (by decide), BitVec.toNat_setWidth_of_le (by decide)] at heq
  exact h (BitVec.eq_of_toNat_eq heq)

theorem cmpPorts_eq_zero {key1 key2 : NxHostKey} :
    cmpPorts key1 key2 = 0 ↔ key1.sport = key2.sport ∧ key1.dport = key2.dport := by
  unfold cmpPorts
  by_cases hsport : key1.sport = key2.sport
  · rw [if_neg (not_not.mpr hsport), and_iff_right hsport]
    by_cases hdport : key1.dport = key2.dport
    · rw [if_neg (not_not.mpr hdport)]
      exact iff_of_true rfl hdport
    · rw [if_pos hdport]
      exact iff_of_false (setWidth_sub_ne_zero hdport) hdport
  · rw [if_pos hsport]
    exact iff_of_false (setWidth_sub_ne_zero hsport) fun h => hsport h.1

/-- **IPv4 keys compare equal** if all but the source address is the same. -/
theorem nxCmpIpKey_eq_zero {key1 key2 : NxHostKey} (h1 : key1.ipVersion = nxIpVersionV4)
    (h2 : key2.ipVersion = nxIpVersionV4) : nxCmpIpKey key1 key2 = 0 ↔ SameButSource key1 key2 := by
  have hsame : key1.ipVersion.setWidth 32 - key2.ipVersion.setWidth 32 = (0 : BitVec 32) := by
    rw [h1, h2]
    rfl
  unfold nxCmpIpKey SameButSource
  rw [if_neg (not_not.mpr hsame), if_pos h1]
  by_cases hdaddr : key1.daddr.v4 = key2.daddr.v4
  · rw [if_neg (not_not.mpr hdaddr), and_iff_right hdaddr]
    exact cmpPorts_eq_zero
  · rw [if_pos hdaddr]
    exact iff_of_false (fun hzero => hdaddr (sub_eq_zero.mp hzero)) fun h => hdaddr h.1

/-- The hash is of the flow. -/
theorem lroIpv4Hash_of_flow {key1 key2 : NxHostKey} (h : key1.flow = key2.flow) :
    lroIpv4Hash key1 = lroIpv4Hash key2 := by
  obtain ⟨hdaddr, hsaddr, hsport, hdport⟩ := Flow.mk.inj h
  unfold lroIpv4Hash
  rw [hdaddr, hsaddr, hsport, hdport]

theorem flow_eq_iff {key1 key2 : NxHostKey} :
    key1.flow = key2.flow ↔ SameButSource key1 key2 ∧ key1.saddr.v4 = key2.saddr.v4 := by
  simp only [NxHostKey.flow, Flow.mk.injEq, SameButSource]
  tauto

/-! ## The table -/

/-- `nx_hash_tbl_t` with the keys of the nodes. -/
structure HashTbl (bucketCnt : Nat) where
  buckets : Fin bucketCnt → List Nat
  keys : Nat → NxHostKey

/-- `NX_HASH_TBL_NODE_INSERTED` and `NX_HASH_TBL_NODE_EXISTS`. -/
inductive Inserted where
  | inserted
  | exists
deriving DecidableEq

/-- What the loop of `nx_hash_tbl_insert` leaves in `entry`; `none` if it finds the
key. -/
def insertScan (keys : Nat → NxHostKey) (key : NxHostKey) :
    List Nat → Option Nat → Option (Option Nat)
  | [], entry => some entry
  | n :: rest, _ =>
      let rv := nxCmpIpKey key (keys n)
      if rv = 0 then none
      else insertScan keys key rest (if rv.slt 0 then none else some n)

/-- `list_insert_before`. -/
def listInsertBefore (new before : Nat) : List Nat → List Nat
  | [] => []
  | n :: rest => if n = before then new :: n :: rest else n :: listInsertBefore new before rest

namespace HashTbl
variable {bucketCnt : Nat} [NeZero bucketCnt] (tbl : HashTbl bucketCnt)

/-- `get_bucket`. -/
def getBucket (key : NxHostKey) : Fin bucketCnt :=
  ⟨(lroIpv4Hash key).toNat &&& (bucketCnt - 1),
    Nat.lt_of_le_of_lt Nat.and_le_right (Nat.sub_one_lt (NeZero.ne bucketCnt))⟩

/-- A bucket has other nodes. -/
def setBucket (i : Fin bucketCnt) (l : List Nat) : HashTbl bucketCnt :=
  { tbl with buckets := Function.update tbl.buckets i l }

/-- The first node of the bucket of the key that compares equal to it. -/
def find (key : NxHostKey) : Option Nat :=
  (tbl.buckets (getBucket key)).find? fun n => decide (nxCmpIpKey key (tbl.keys n) = 0)

/-- `nx_hash_tbl_insert`. -/
def nxHashTblInsert (node : Nat) : Inserted × HashTbl bucketCnt :=
  let key := tbl.keys node
  let head := tbl.buckets (getBucket key)
  match insertScan tbl.keys key head none with
  | none => (.exists, tbl)
  | some (some entry) =>
      (.inserted, tbl.setBucket (getBucket key) (listInsertBefore node entry head))
  | some none => (.inserted, tbl.setBucket (getBucket key) (head ++ [node]))

/-- `nx_hash_tbl_get`. -/
def nxHashTblGet (key : NxHostKey) : Option Nat := tbl.find key

/-- `nx_hash_tbl_delete`. -/
def nxHashTblDelete (key : NxHostKey) : Option Nat × HashTbl bucketCnt :=
  match tbl.find key with
  | none => (none, tbl)
  | some entry =>
      (some entry, tbl.setBucket (getBucket key) ((tbl.buckets (getBucket key)).erase entry))

/-- The nodes in the table. -/
def Linked (n : Nat) : Prop := ∃ i, n ∈ tbl.buckets i

instance (n : Nat) : Decidable (tbl.Linked n) :=
  inferInstanceAs (Decidable (∃ i, n ∈ tbl.buckets i))

/-! ## A bucket with other nodes -/

section
omit [NeZero bucketCnt]
variable {i j : Fin bucketCnt} {l : List Nat} {node n : Nat}

theorem nodup_setBucket (h : ∀ j, (tbl.buckets j).Nodup) (hl : l.Nodup) (j : Fin bucketCnt) :
    ((tbl.setBucket i l).buckets j).Nodup :=
  (Function.forall_update_iff tbl.buckets fun _ l => l.Nodup).mpr ⟨hl, fun j _ => h j⟩ j

/-- A node is put into a bucket. -/
theorem mem_setBucket_cons (hperm : l.Perm (node :: tbl.buckets i)) :
    n ∈ (tbl.setBucket i l).buckets j ↔ n = node ∧ j = i ∨ n ∈ tbl.buckets j := by
  show n ∈ Function.update tbl.buckets i l j ↔ _
  by_cases hj : j = i
  · rw [hj, Function.update_self, hperm.mem_iff, List.mem_cons]
    exact or_congr_left (and_iff_left rfl).symm
  · rw [Function.update_of_ne hj]
    exact (or_iff_right fun hno => hj hno.2).symm

theorem linked_setBucket_cons (hperm : l.Perm (node :: tbl.buckets i)) :
    (tbl.setBucket i l).Linked n ↔ n = node ∨ tbl.Linked n := by
  constructor
  · rintro ⟨j, hj⟩
    rcases (tbl.mem_setBucket_cons hperm).mp hj with ⟨rfl, -⟩ | hj
    · exact Or.inl rfl
    · exact Or.inr ⟨j, hj⟩
  · rintro (rfl | ⟨j, hj⟩)
    · exact ⟨i, (tbl.mem_setBucket_cons hperm).mpr (Or.inl ⟨rfl, rfl⟩)⟩
    · exact ⟨j, (tbl.mem_setBucket_cons hperm).mpr (Or.inr hj)⟩

/-- A node is taken out of the only bucket that it is in. -/
theorem mem_setBucket_erase (hnodup : (tbl.buckets i).Nodup)
    (honly : ∀ j, node ∈ tbl.buckets j → j = i) :
    n ∈ (tbl.setBucket i ((tbl.buckets i).erase node)).buckets j ↔
      n ≠ node ∧ n ∈ tbl.buckets j := by
  show n ∈ Function.update tbl.buckets i _ j ↔ _
  by_cases hj : j = i
  · rw [hj, Function.update_self, hnodup.mem_erase_iff]
  · rw [Function.update_of_ne hj]
    refine (and_iff_right_of_imp fun hn => ?_).symm
    rintro rfl
    exact hj (honly j hn)

theorem linked_setBucket_erase (hnodup : (tbl.buckets i).Nodup)
    (honly : ∀ j, node ∈ tbl.buckets j → j = i) :
    (tbl.setBucket i ((tbl.buckets i).erase node)).Linked n ↔ n ≠ node ∧ tbl.Linked n := by
  constructor
  · rintro ⟨j, hj⟩
    obtain ⟨hne, hn⟩ := (tbl.mem_setBucket_erase hnodup honly).mp hj
    exact ⟨hne, j, hn⟩
  · rintro ⟨hne, j, hj⟩
    exact ⟨j, (tbl.mem_setBucket_erase hnodup honly).mpr ⟨hne, hj⟩⟩

end

/-! ## What the operations do -/

theorem insertScan_eq_none {keys : Nat → NxHostKey} {key : NxHostKey} {l : List Nat}
    {entry : Option Nat} : insertScan keys key l entry = none ↔
      ∃ n ∈ l, nxCmpIpKey key (keys n) = 0 := by
  induction l generalizing entry with
  | nil => simp [insertScan]
  | cons n rest ih =>
    rw [insertScan]
    by_cases hzero : nxCmpIpKey key (keys n) = 0
    · rw [if_pos hzero]
      exact iff_of_true rfl ⟨n, List.mem_cons_self, hzero⟩
    · rw [if_neg hzero, ih]
      constructor
      · rintro ⟨m, hm, hkey⟩
        exact ⟨m, List.mem_cons_of_mem _ hm, hkey⟩
      · rintro ⟨m, hm, hkey⟩
        rcases List.mem_cons.mp hm with rfl | hm
        · exact absurd hkey hzero
        · exact ⟨m, hm, hkey⟩

/-- The entry is a node of the list. -/
theorem insertScan_mem {keys : Nat → NxHostKey} {key : NxHostKey} {l : List Nat}
    {entry : Option Nat} {n : Nat} (h : insertScan keys key l entry = some (some n)) :
    n ∈ l ∨ entry = some n := by
  induction l generalizing entry with
  | nil => exact Or.inr (Option.some.inj h)
  | cons m rest ih =>
    rw [insertScan] at h
    split at h
    · cases h
    · rcases ih h with hn | hn
      · exact Or.inl (List.mem_cons_of_mem _ hn)
      · split at hn
        · cases hn
        · exact Or.inl (List.mem_cons.mpr (Or.inl (Option.some.inj hn).symm))

theorem listInsertBefore_perm {new before : Nat} {l : List Nat} (h : before ∈ l) :
    (listInsertBefore new before l).Perm (new :: l) := by
  induction l with
  | nil => exact absurd h List.not_mem_nil
  | cons n rest ih =>
    rw [listInsertBefore]
    by_cases hn : n = before
    · rw [if_pos hn]
    · rw [if_neg hn]
      have hrest : before ∈ rest := List.mem_of_ne_of_mem (Ne.symm hn) h
      exact ((ih hrest).cons n).trans (List.Perm.swap ..)

/-- `nx_hash_tbl_get` finds a node just if the scan of `nx_hash_tbl_insert` does. -/
theorem find_eq_none {key : NxHostKey} : tbl.find key = none ↔
    ∀ n ∈ tbl.buckets (getBucket key), nxCmpIpKey key (tbl.keys n) ≠ 0 := by
  rw [find, List.find?_eq_none]
  exact forall₂_congr fun n _ => by rw [decide_eq_true_eq]

theorem find_eq_some {key : NxHostKey} {n : Nat} (h : tbl.find key = some n) :
    n ∈ tbl.buckets (getBucket key) ∧ nxCmpIpKey key (tbl.keys n) = 0 := by
  have hkey := List.find?_some (p := fun n => decide (nxCmpIpKey key (tbl.keys n) = 0)) h
  exact ⟨List.mem_of_find?_eq_some h, of_decide_eq_true hkey⟩

/-- **`nx_hash_tbl_insert`** puts the node into its bucket, unless it finds the key. -/
theorem nxHashTblInsert_cases (node : Nat) :
    (∃ n, tbl.find (tbl.keys node) = some n ∧ tbl.nxHashTblInsert node = (.exists, tbl)) ∨
      tbl.find (tbl.keys node) = none ∧ ∃ l,
        l.Perm (node :: tbl.buckets (getBucket (tbl.keys node))) ∧
          tbl.nxHashTblInsert node = (.inserted, tbl.setBucket (getBucket (tbl.keys node)) l) := by
  cases hscan : insertScan tbl.keys (tbl.keys node) (tbl.buckets (getBucket (tbl.keys node)))
      none with
  | none =>
    left
    cases hfind : tbl.find (tbl.keys node) with
    | none =>
      obtain ⟨n, hn, hkey⟩ := insertScan_eq_none.mp hscan
      exact absurd hkey (tbl.find_eq_none.mp hfind n hn)
    | some n => exact ⟨n, rfl, by simp only [nxHashTblInsert, hscan]⟩
  | some entry =>
    right
    have hfind : tbl.find (tbl.keys node) = none := by
      rw [find_eq_none]
      intro n hn hkey
      rw [insertScan_eq_none.mpr ⟨n, hn, hkey⟩] at hscan
      cases hscan
    cases entry with
    | none =>
      exact ⟨hfind, _, List.perm_append_singleton .., by simp only [nxHashTblInsert, hscan]⟩
    | some n =>
      rcases insertScan_mem hscan with hn | hn
      · exact ⟨hfind, _, listInsertBefore_perm hn, by simp only [nxHashTblInsert, hscan]⟩
      · cases hn

/-- `nx_hash_tbl_delete` unlinks the node that it finds. -/
theorem nxHashTblDelete_cases (key : NxHostKey) :
    tbl.find key = none ∧ tbl.nxHashTblDelete key = (none, tbl) ∨
      ∃ n, tbl.find key = some n ∧ n ∈ tbl.buckets (getBucket key) ∧
        tbl.nxHashTblDelete key = (some n, tbl.setBucket (getBucket key)
          ((tbl.buckets (getBucket key)).erase n)) := by
  unfold nxHashTblDelete
  cases hfind : tbl.find key with
  | none => exact Or.inl ⟨rfl, rfl⟩
  | some n => exact Or.inr ⟨n, rfl, (tbl.find_eq_some hfind).1, rfl⟩

end HashTbl
end Lro
end NxNic

import NxNic.Hash.Table

/-! # The hash table is a map

The table is that of `Hash/Table`: buckets that are circular lists through their heads, in a
memory of `next` and `prev` pointers, with a hash and a comparison given by its user.  An
operation is a create, an insert, a search or a deletion as the source has it, with an amount of
fuel for its loops, and the owner of a node may give it another key while it is in no bucket.

Where keys compare equal just as an equivalence has it, and equal keys have the same hash
(`LawfulOps`), the table is a map from the classes of keys to nodes (`NodeMap`).  That
`compare_keys` returns something of one sign or of the other only decides where in its bucket a
node is put; no order is needed.

`Represents` is the tie between the two: each bucket is a circular list of nodes of the map with
its hash, and each node of the map is in one.  Each operation keeps it and answers as the map does,
with fuel enough, by the lemmas on `Circular` of `Lib/Links`; `hashTbl_is_map` is the run.
-/
namespace NxNic
namespace Hash
open Lro (Inserted)

/-- Operations whose comparison is an equivalence that the hash respects. -/
structure LawfulOps (K : Type) extends HashTblOps K where
  equivalence : Equivalence fun a b => compareKeys a b = 0
  hash_eq : ∀ {a b}, compareKeys a b = 0 → hash a = hash b

/-- An operation on the table, or a new key for a node. -/
inductive HashOp (K ν : Type) where
  | insert (n : ν)
  | get (key : K)
  | delete (key : K)
  | setKey (n : ν) (key : K)

/-- What an operation returns. -/
inductive Answer (ν : Type) where
  | inserted (rv : Inserted)
  | node (n : Option ν)
  | unit
  deriving DecidableEq

section
variable {K : Type} (ops : LawfulOps K) {bucketCnt : Nat} {ν : Type}

/-- Keys that compare equal. -/
def LawfulOps.setoid : Setoid K := ⟨fun a b => ops.compareKeys a b = 0, ops.equivalence⟩

/-- The class of a key. -/
abbrev LawfulOps.Class : Type := Quotient ops.setoid

def LawfulOps.classOf (key : K) : ops.Class := Quotient.mk ops.setoid key

instance decidableEqClass : DecidableEq ops.Class :=
  @Quotient.decidableEq K ops.setoid fun a b =>
    inferInstanceAs (Decidable (ops.compareKeys a b = 0))

theorem LawfulOps.classOf_eq {a b : K} : ops.classOf a = ops.classOf b ↔ ops.compareKeys a b = 0 :=
  Quotient.eq (r := ops.setoid)

theorem LawfulOps.getBucket_eq [NeZero bucketCnt] {a b : K} (h : ops.compareKeys a b = 0) :
    (getBucket ops.toHashTblOps a : Fin bucketCnt) = getBucket ops.toHashTblOps b := by
  simp only [getBucket, ops.hash_eq h]

/-! ## The map -/

/-- The keys of the nodes, and the node for each class of keys. -/
structure NodeMap (ν : Type) where
  keys : ν → K
  nodeOf : ops.Class → Option ν

namespace NodeMap
variable {ops} (m : NodeMap ops ν)

/-- The node for a key. -/
def find (key : K) : Option ν := m.nodeOf (ops.classOf key)

/-- The node is in the map, for its key. -/
def Linked (n : ν) : Prop := m.find (m.keys n) = some n

/-- The class of a key has another node, or none. -/
def put (key : K) (n : Option ν) : NodeMap ops ν :=
  { m with nodeOf := Function.update m.nodeOf (ops.classOf key) n }

variable [DecidableEq ν]

/-- What an operation on the map returns, and the map after it. -/
def perform : HashOp K ν → Answer ν × NodeMap ops ν
  | .insert n =>
    match m.find (m.keys n) with
    | some _ => (.inserted .exists, m)
    | none => (.inserted .inserted, m.put (m.keys n) (some n))
  | .get key => (.node (m.find key), m)
  | .delete key => (.node (m.find key), m.put key none)
  | .setKey n key => (.unit, { m with keys := Function.update m.keys n key })

/-- A node is inserted, and gets a key, only while it is not in the map. -/
def Allows : HashOp K ν → Prop
  | .insert n => ¬m.Linked n
  | .setKey n _ => ¬m.Linked n
  | .get _ => True
  | .delete _ => True

/-- Operations one after the other. -/
def performs : NodeMap ops ν → List (HashOp K ν) → List (Answer ν) × NodeMap ops ν
  | m, [] => ([], m)
  | m, op :: l =>
    let rest := performs (m.perform op).2 l
    ((m.perform op).1 :: rest.1, rest.2)

def AllowsAll : NodeMap ops ν → List (HashOp K ν) → Prop
  | _, [] => True
  | m, op :: l => m.Allows op ∧ AllowsAll (m.perform op).2 l

instance decidableAllows : ∀ op, Decidable (m.Allows op)
  | .insert n => inferInstanceAs (Decidable (¬m.find (m.keys n) = some n))
  | .setKey n _ => inferInstanceAs (Decidable (¬m.find (m.keys n) = some n))
  | .get _ => .isTrue trivial
  | .delete _ => .isTrue trivial

instance decidableAllowsAll : ∀ (m : NodeMap ops ν) (l : List (HashOp K ν)),
    Decidable (m.AllowsAll l)
  | _, [] => .isTrue trivial
  | m, op :: l =>
    @instDecidableAnd _ _ (m.decidableAllows op) (decidableAllowsAll (m.perform op).2 l)

end NodeMap

/-! ## The operations on the table -/

namespace HashTbl
variable [DecidableEq ν] [NeZero bucketCnt]

/-- An operation on the table. -/
def perform (fuel : Nat) (tbl : HashTbl K bucketCnt ν) :
    HashOp K ν → Option (Answer ν × HashTbl K bucketCnt ν)
  | .insert n => (tbl.nxHashTblInsert ops.toHashTblOps fuel n).map fun r => (.inserted r.1, r.2)
  | .get key => (tbl.nxHashTblGet ops.toHashTblOps fuel key).map fun r => (.node r, tbl)
  | .delete key => (tbl.nxHashTblDelete ops.toHashTblOps fuel key).map fun r => (.node r.1, r.2)
  | .setKey n key => some (.unit, { tbl with keys := Function.update tbl.keys n key })

def performs (fuel : Nat) :
    HashTbl K bucketCnt ν → List (HashOp K ν) → Option (List (Answer ν) × HashTbl K bucketCnt ν)
  | tbl, [] => some ([], tbl)
  | tbl, op :: l =>
    (tbl.perform ops fuel op).bind fun r =>
      (performs fuel r.2 l).map fun rest => (r.1 :: rest.1, rest.2)

end HashTbl

/-- With enough fuel there is this result. -/
def Yields {β : Type} (f : Nat → Option β) (b : β) : Prop :=
  ∃ needed, ∀ fuel, needed < fuel → f fuel = some b

theorem yields_map {β γ : Type} {f : Nat → Option β} {b : β} (g : β → γ) {needed : Nat}
    (hf : ∀ fuel, needed < fuel → f fuel = some b) : Yields (fun fuel => (f fuel).map g) (g b) :=
  ⟨needed, fun fuel hlt => congrArg (Option.map g) (hf fuel hlt)⟩

theorem yields_bind {β γ : Type} {f : Nat → Option β} {b : β} {g : Nat → β → Option γ} {c : γ}
    (hf : Yields f b) (hg : Yields (g · b) c) :
    Yields (fun fuel => (f fuel).bind (g fuel)) c := by
  obtain ⟨n₁, h₁⟩ := hf
  obtain ⟨n₂, h₂⟩ := hg
  refine ⟨max n₁ n₂, fun fuel hfuel => ?_⟩
  simp only [h₁ fuel (Nat.lt_of_le_of_lt (Nat.le_max_left ..) hfuel), Option.bind_some]
  exact h₂ fuel (Nat.lt_of_le_of_lt (Nat.le_max_right ..) hfuel)

/-- The buckets hold the nodes of the map, each of them once. -/
structure Holds [NeZero bucketCnt] (tbl : HashTbl K bucketCnt ν) (m : NodeMap ops ν)
    (lists : Fin bucketCnt → List ν) : Prop extends Bucketed ops.toHashTblOps tbl lists where
  keys : tbl.keys = m.keys
  nodes : ∀ c n, m.nodeOf c = some n ↔ (∃ i, n ∈ lists i) ∧ ops.classOf (m.keys n) = c

/-- **The table is the map.** -/
def Represents [NeZero bucketCnt] (tbl : HashTbl K bucketCnt ν) (m : NodeMap ops ν) : Prop :=
  ∃ lists, Holds ops tbl m lists

namespace NodeMap
variable {ops} {m : NodeMap ops ν} {key : K}

theorem find_put_self (key : K) (n : Option ν) : (m.put key n).find key = n :=
  Function.update_self ..

theorem put_ne {r : Option ν} (h : m.find key ≠ r) : m.put key r ≠ m := by
  intro he
  have hfind := find_put_self (m := m) key r
  rw [he] at hfind
  exact h hfind

theorem put_none (h : m.find key = none) : m.put key none = m := by
  have hsame : Function.update m.nodeOf (ops.classOf key) none = m.nodeOf := by
    conv_rhs => rw [← Function.update_eq_self (ops.classOf key) m.nodeOf]
    rw [show m.nodeOf (ops.classOf key) = none from h]
  rw [put, hsame]

end NodeMap

/-! ## A bucket with other nodes -/

section
variable {lists : Fin bucketCnt → List ν} {i : Fin bucketCnt} {l : List ν} {n n' : ν}

theorem mem_update_insert (hperm : l.Perm (n :: lists i)) :
    (∃ j, n' ∈ Function.update lists i l j) ↔ n' = n ∨ ∃ j, n' ∈ lists j := by
  constructor
  · rintro ⟨j, hj⟩
    by_cases hji : j = i
    · subst hji
      rw [Function.update_self, hperm.mem_iff, List.mem_cons] at hj
      exact hj.imp_right fun hmem => ⟨j, hmem⟩
    · rw [Function.update_of_ne hji] at hj
      exact .inr ⟨j, hj⟩
  · rintro (rfl | ⟨j, hj⟩)
    · exact ⟨i, by rw [Function.update_self, hperm.mem_iff]; exact List.mem_cons_self⟩
    · by_cases hji : j = i
      · subst hji
        exact ⟨j, by rw [Function.update_self, hperm.mem_iff]; exact List.mem_cons_of_mem _ hj⟩
      · exact ⟨j, by rw [Function.update_of_ne hji]; exact hj⟩

theorem mem_update_delete [DecidableEq ν] (hnodup : (lists i).Nodup)
    (honly : ∀ j, j ≠ i → n ∉ lists j) :
    (∃ j, n' ∈ Function.update lists i ((lists i).erase n) j) ↔ n' ≠ n ∧ ∃ j, n' ∈ lists j := by
  constructor
  · rintro ⟨j, hj⟩
    by_cases hji : j = i
    · subst hji
      rw [Function.update_self, hnodup.mem_erase_iff] at hj
      exact ⟨hj.1, j, hj.2⟩
    · rw [Function.update_of_ne hji] at hj
      exact ⟨fun he => honly j hji (he ▸ hj), j, hj⟩
  · rintro ⟨hne, j, hj⟩
    by_cases hji : j = i
    · subst hji
      exact ⟨j, by rw [Function.update_self, hnodup.mem_erase_iff]; exact ⟨hne, hj⟩⟩
    · exact ⟨j, by rw [Function.update_of_ne hji]; exact hj⟩

end

namespace Holds
variable [NeZero bucketCnt] {ops} {tbl : HashTbl K bucketCnt ν} {m : NodeMap ops ν}
  {lists : Fin bucketCnt → List ν} {key : K} {n e : ν}

theorem linked_iff (h : Holds ops tbl m lists) : m.Linked n ↔ ∃ i, n ∈ lists i :=
  (h.nodes _ n).trans (and_iff_left rfl)

/-- The node for a key is in the bucket of the key, and compares equal to it. -/
theorem find_iff (h : Holds ops tbl m lists) : m.find key = some n ↔
    n ∈ lists (getBucket ops.toHashTblOps key) ∧ ops.compareKeys key (tbl.keys n) = 0 := by
  rw [NodeMap.find, h.nodes, ← h.keys, ops.classOf_eq]
  constructor
  · rintro ⟨⟨i, hi⟩, heq⟩
    refine ⟨?_, ops.equivalence.symm heq⟩
    rw [← ops.getBucket_eq heq, h.home i n hi]
    exact hi
  · rintro ⟨hmem, heq⟩
    exact ⟨⟨_, hmem⟩, ops.equivalence.symm heq⟩

/-- What a loop over the bucket of a key finds is the node for it. -/
theorem search_eq (h : Holds ops tbl m lists) :
    search ops.toHashTblOps tbl.keys key (lists (getBucket ops.toHashTblOps key)) =
      m.find key := by
  cases hs : search ops.toHashTblOps tbl.keys key (lists (getBucket ops.toHashTblOps key)) with
  | some e => exact (h.find_iff.mpr (search_eq_some hs)).symm
  | none =>
    cases hf : m.find key with
    | none => rfl
    | some e =>
      obtain ⟨hmem, heq⟩ := h.find_iff.mp hf
      exact absurd heq (search_eq_none.mp hs e hmem)

/-- The table after an insertion. -/
theorem inserted (h : Holds ops tbl m lists) (hfind : m.find (m.keys n) = none)
    {L : Links (ListHead bucketCnt ν)} {l : List ν} {i : Fin bucketCnt}
    (hperm : l.Perm (n :: lists i))
    (hb : Bucketed ops.toHashTblOps { tbl with links := L } (Function.update lists i l)) :
    Holds ops { tbl with links := L } (m.put (m.keys n) (some n)) (Function.update lists i l) where
  toBucketed := hb
  keys := h.keys
  nodes := by
    intro c n'
    rw [mem_update_insert hperm]
    show Function.update m.nodeOf (ops.classOf (m.keys n)) (some n) c = some n' ↔ _
    by_cases hc : c = ops.classOf (m.keys n)
    · subst hc
      rw [Function.update_self]
      constructor
      · intro he
        obtain rfl := Option.some.inj he
        exact ⟨.inl rfl, rfl⟩
      · rintro ⟨rfl | hl, hclass⟩
        · rfl
        · exact absurd (hfind.symm.trans ((h.nodes _ n').mpr ⟨hl, hclass⟩))
            (Option.some_ne_none n').symm
    · rw [Function.update_of_ne hc, h.nodes]
      refine and_congr_left fun hclass => (or_iff_right ?_).symm
      rintro rfl
      exact hc hclass.symm

/-- The table after a deletion. -/
theorem deleted [DecidableEq ν] (h : Holds ops tbl m lists) (hfind : m.find key = some e)
    {L : Links (ListHead bucketCnt ν)} {i : Fin bucketCnt}
    (hi : getBucket ops.toHashTblOps key = i)
    (hb : Bucketed ops.toHashTblOps { tbl with links := L }
      (Function.update lists i ((lists i).erase e))) :
    Holds ops { tbl with links := L } (m.put key none)
      (Function.update lists i ((lists i).erase e)) where
  toBucketed := hb
  keys := h.keys
  nodes := by
    obtain ⟨he, heq⟩ := h.find_iff.mp hfind
    rw [hi] at he
    have hclass : ops.classOf (m.keys e) = ops.classOf key := by
      rw [← h.keys]
      exact ops.classOf_eq.mpr (ops.equivalence.symm heq)
    intro c n'
    rw [mem_update_delete (h.nodup i) fun j hj => h.not_mem_of_ne he hj]
    show Function.update m.nodeOf (ops.classOf key) none c = some n' ↔ _
    by_cases hc : c = ops.classOf key
    · subst hc
      rw [Function.update_self]
      refine iff_of_false (Option.some_ne_none n').symm ?_
      rintro ⟨⟨hne, hl⟩, hclass'⟩
      have hsome := hfind.symm.trans ((h.nodes _ n').mpr ⟨hl, hclass'⟩)
      exact hne (Option.some.inj hsome).symm
    · rw [Function.update_of_ne hc, h.nodes]
      refine and_congr_left fun hclass' => (and_iff_right ?_).symm
      rintro rfl
      exact hc (hclass'.symm.trans hclass)

variable [DecidableEq ν]

/-- The key of a node that is in no bucket changes. -/
theorem setKey (h : Holds ops tbl m lists) (hn : ¬m.Linked n) :
    Holds ops { tbl with keys := Function.update tbl.keys n key }
      { m with keys := Function.update m.keys n key } lists := by
  have hkey : ∀ {i : Fin bucketCnt} {n' : ν}, n' ∈ lists i →
      Function.update m.keys n key n' = m.keys n' := by
    intro i n' hn'
    refine Function.update_of_ne ?_ ..
    rintro rfl
    exact hn (h.linked_iff.mpr ⟨i, hn'⟩)
  refine { circular := h.circular, home := fun i n' hn' => ?_, keys := ?_, nodes := fun c n' => ?_ }
  · rw [← h.home i n' hn', h.keys]
    exact congrArg _ (hkey hn')
  · exact congrArg (Function.update · n key) h.keys
  · rw [h.nodes]
    refine and_congr_right fun hl => ?_
    obtain ⟨i, hn'⟩ := hl
    rw [← hkey hn']

/-- **An operation** does on the table what it does on the map, and leaves the table as it is, with
all its pointers, if it leaves the map as it is. -/
theorem step (h : Holds ops tbl m lists) (op : HashOp K ν) (ha : m.Allows op) :
    ∃ tbl', Yields (fun fuel => tbl.perform ops fuel op) ((m.perform op).1, tbl') ∧
      Represents ops tbl' (m.perform op).2 ∧ ((m.perform op).2 = m → tbl' = tbl) := by
  cases op with
  | insert n =>
    cases hf : m.find (m.keys n) with
    | some e =>
      have hp : m.perform (.insert n) = (.inserted .exists, m) := by
        simp only [NodeMap.perform, hf]
      have hfound := h.find_iff.mp (h.keys ▸ hf : m.find (tbl.keys n) = some e)
      rw [hp]
      exact ⟨tbl, yields_map _ fun _ => nxHashTblInsert_exists h.toBucketed ⟨e, hfound⟩,
        ⟨lists, h⟩, fun _ => rfl⟩
    | none =>
      have hp : m.perform (.insert n) = (.inserted .inserted, m.put (m.keys n) (some n)) := by
        simp only [NodeMap.perform, hf]
      have hn : ∀ j, n ∉ lists j := fun j hj => ha (h.linked_iff.mpr ⟨j, hj⟩)
      have hs : search ops.toHashTblOps tbl.keys (tbl.keys n)
          (lists (getBucket ops.toHashTblOps (tbl.keys n))) = none := by
        rw [h.search_eq, h.keys]
        exact hf
      obtain ⟨L, hperm, hb, hins⟩ :=
        nxHashTblInsert_inserted h.toBucketed hn (search_eq_none.mp hs)
      have hne : m.find (m.keys n) ≠ some n := hf ▸ (Option.some_ne_none n).symm
      rw [hp]
      exact ⟨{ tbl with links := L }, yields_map _ hins, ⟨_, h.inserted hf hperm hb⟩,
        fun he => absurd he (NodeMap.put_ne hne)⟩
  | get key =>
    refine ⟨tbl, ?_, ⟨lists, h⟩, fun _ => rfl⟩
    have hget : ∀ fuel, (lists (getBucket ops.toHashTblOps key)).length < fuel →
        tbl.nxHashTblGet ops.toHashTblOps fuel key = some (m.find key) :=
      fun _ hfuel => (nxHashTblGet_eq h.toBucketed hfuel).trans (congrArg some h.search_eq)
    exact yields_map _ hget
  | delete key =>
    cases hf : m.find key with
    | none =>
      have hp : m.perform (.delete key) = (.node none, m) := by
        simp only [NodeMap.perform, hf, NodeMap.put_none hf]
      rw [hp]
      exact ⟨tbl, yields_map _ fun _ => nxHashTblDelete_none h.toBucketed (h.search_eq.trans hf),
        ⟨lists, h⟩, fun _ => rfl⟩
    | some e =>
      have hp : m.perform (.delete key) = (.node (some e), m.put key none) := by
        simp only [NodeMap.perform, hf]
      obtain ⟨L, hb, hdel⟩ := nxHashTblDelete_some h.toBucketed (h.search_eq.trans hf)
      have hne : m.find key ≠ none := hf ▸ Option.some_ne_none e
      rw [hp]
      exact ⟨{ tbl with links := L }, yields_map _ hdel, ⟨_, h.deleted hf rfl hb⟩,
        fun he => absurd he (NodeMap.put_ne hne)⟩
  | setKey n key =>
    refine ⟨{ tbl with keys := Function.update tbl.keys n key }, ⟨0, fun _ _ => rfl⟩,
      ⟨lists, h.setKey ha⟩, fun he => ?_⟩
    have hkeys : Function.update m.keys n key = m.keys := congrArg NodeMap.keys he
    rw [h.keys, hkeys, ← h.keys]

end Holds

/-! ## Runs -/

section
variable {ops} [DecidableEq ν] [NeZero bucketCnt] {tbl : HashTbl K bucketCnt ν} {m : NodeMap ops ν}

/-- Operations on the table give what they give on the map, by induction on them. -/
theorem performs_represents {l : List (HashOp K ν)} (h : Represents ops tbl m)
    (hl : m.AllowsAll l) :
    ∃ tbl', Yields (fun fuel => tbl.performs ops fuel l) ((m.performs l).1, tbl') ∧
      Represents ops tbl' (m.performs l).2 := by
  induction l generalizing tbl m with
  | nil => exact ⟨tbl, ⟨0, fun _ _ => rfl⟩, h⟩
  | cons op l ih =>
    obtain ⟨lists, hh⟩ := h
    obtain ⟨tbl₁, hy₁, hr₁, -⟩ := hh.step op hl.1
    obtain ⟨tbl', hy', hr'⟩ := ih hr₁ hl.2
    obtain ⟨needed, hneeded⟩ := hy'
    have hrest : Yields (fun fuel => (tbl₁.performs ops fuel l).map
        fun rest => ((m.perform op).1 :: rest.1, rest.2)) ((m.performs (op :: l)).1, tbl') :=
      yields_map (fun rest => ((m.perform op).1 :: rest.1, rest.2)) hneeded
    exact ⟨tbl', yields_bind hy₁ hrest, hr'⟩

end

/-- The map of no nodes. -/
def NodeMap.empty (keys : ν → K) : NodeMap ops ν := ⟨keys, fun _ => none⟩

theorem represents_create [DecidableEq ν] [NeZero bucketCnt]
    (links : Links (ListHead bucketCnt ν)) (keys : ν → K) :
    Represents ops (HashTbl.nxHashTblCreate links keys) (NodeMap.empty ops keys) := by
  refine ⟨fun _ => [], { toBucketed := bucketed_create links keys, keys := rfl, nodes := ?_ }⟩
  intro c n
  refine iff_of_false (Option.some_ne_none n).symm ?_
  rintro ⟨⟨_, hn⟩, -⟩
  exact List.not_mem_nil hn

/-- **The hash table is a map.**  After any operations on a new table, in memory that holds
anything, each of them has returned what it returns on the map, and the buckets are lists of the
nodes of the map; so does each operation that may follow, and it leaves the table as it is if it
leaves the map as it is. -/
theorem hashTbl_is_map [DecidableEq ν] [NeZero bucketCnt]
    (links : Links (ListHead bucketCnt ν)) (keys : ν → K) {l : List (HashOp K ν)}
    {answers : List (Answer ν)} {m : NodeMap ops ν} (hl : (NodeMap.empty ops keys).AllowsAll l)
    (hm : (NodeMap.empty ops keys).performs l = (answers, m)) :
    ∃ tbl : HashTbl K bucketCnt ν,
      Yields (fun fuel => (HashTbl.nxHashTblCreate links keys).performs ops fuel l)
        (answers, tbl) ∧
      Represents ops tbl m ∧
      ∀ op, m.Allows op →
        ∃ tbl', Yields (fun fuel => tbl.perform ops fuel op) ((m.perform op).1, tbl') ∧
          Represents ops tbl' (m.perform op).2 ∧ ((m.perform op).2 = m → tbl' = tbl) := by
  obtain ⟨tbl, hy, hr⟩ := performs_represents (represents_create ops links keys) hl
  rw [hm] at hy hr
  refine ⟨tbl, hy, hr, fun op ha => ?_⟩
  obtain ⟨lists, hh⟩ := hr
  exact hh.step op ha

end

/-! ## A table of words -/

/-- Words, compared by their difference. -/
def wordOps : LawfulOps (BitVec 32) where
  hash := id
  compareKeys a b := a - b
  equivalence :=
    ⟨fun _ => BitVec.sub_self _, fun h => Lro.sub_eq_zero.mpr (Lro.sub_eq_zero.mp h).symm,
      fun h h' => Lro.sub_eq_zero.mpr ((Lro.sub_eq_zero.mp h).trans (Lro.sub_eq_zero.mp h'))⟩
  hash_eq h := Lro.sub_eq_zero.mp h

/-- Four nodes: two of one bucket, and a third one with the key of the second. -/
def wordKeys (n : Nat) : BitVec 32 := [1, 5, 5, 2].getD n 0

def wordRun : List (HashOp (BitVec 32) Nat) :=
  [.insert 1, .insert 0, .insert 2, .get 5, .delete 5, .get 5, .insert 2, .get 1]

/-- Memory in which every pointer is one to the first bucket. -/
def strayLinks : Links (ListHead 4 Nat) :=
  ⟨fun _ => .bucket ⟨0, by decide⟩, fun _ => .bucket ⟨0, by decide⟩⟩

/-- Words in four buckets, in memory in which every pointer is a stray one to begin with: two
nodes in one bucket, a key that is there already, and its node deleted to make room for the other.
-/
theorem hashTbl_of_words :
    ∃ (m : NodeMap wordOps Nat) (tbl : HashTbl (BitVec 32) 4 Nat),
      (NodeMap.empty wordOps wordKeys).AllowsAll wordRun ∧
      Yields (fun fuel =>
          (HashTbl.nxHashTblCreate strayLinks wordKeys).performs wordOps fuel wordRun)
        ([.inserted .inserted, .inserted .inserted, .inserted .exists, .node (some 1),
          .node (some 1), .node none, .inserted .inserted, .node (some 0)], tbl) ∧
      Represents wordOps tbl m ∧ m.find 5 = some 2 := by
  have hl : (NodeMap.empty wordOps wordKeys).AllowsAll wordRun := by decide +kernel
  have hm : (NodeMap.empty wordOps wordKeys).performs wordRun =
      ([.inserted .inserted, .inserted .inserted, .inserted .exists, .node (some 1),
        .node (some 1), .node none, .inserted .inserted, .node (some 0)],
        ((NodeMap.empty wordOps wordKeys).performs wordRun).2) :=
    Prod.ext (by decide +kernel) rfl
  obtain ⟨tbl, hy, hr, -⟩ := hashTbl_is_map wordOps strayLinks wordKeys hl hm
  exact ⟨_, tbl, hl, hy, hr, by decide +kernel⟩

end Hash
end NxNic

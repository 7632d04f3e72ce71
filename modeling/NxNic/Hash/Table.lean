import NxNic.Lib.Links
import NxNic.Lro.HashTable

/-! # The hash table, by its pointers

`nx_hash_table.c` for any keys: a bucket is a circular list through its head, and the table
works with the hash function and the comparison that it is given.  The loops go on until they are
back at the head, so each takes an amount of fuel, and has no result when that is not enough or
when it comes to the head of another bucket.

`Bucketed` says which nodes the buckets hold, by `Circular` of `Lib/Links`.  The loops are compared
with what they look for on the list of a bucket (`insertLoop_eq`, `searchLoop_eq`), and each
operation has its lemmas by what it finds.
-/
namespace NxNic
namespace Hash
open Lro (Inserted)

/-- `nx_hash_tbl_ops_t`, of which `compare_keys` returns an `int`. -/
structure HashTblOps (K : Type) where
  hash : K → BitVec 32
  compareKeys : K → K → BitVec 32

/-- Where a `struct list_head` is: in a bucket or in a node. -/
inductive ListHead (bucketCnt : Nat) (ν : Type) where
  | bucket (i : Fin bucketCnt)
  | node (n : ν)
  deriving DecidableEq

/-- `list_entry`, of a node. -/
def ListHead.listEntry {bucketCnt : Nat} {ν : Type} : ListHead bucketCnt ν → Option ν
  | .bucket _ => none
  | .node n => some n

/-- `nx_hash_tbl_t`: the pointers of its list heads and of those in all nodes, and their keys. -/
structure HashTbl (K : Type) (bucketCnt : Nat) (ν : Type) where
  links : Links (ListHead bucketCnt ν)
  keys : ν → K

variable {K : Type} (ops : HashTblOps K) {bucketCnt : Nat} {ν : Type}

/-- `get_bucket`. -/
def getBucket [NeZero bucketCnt] (key : K) : Fin bucketCnt :=
  ⟨(ops.hash key).toNat &&& (bucketCnt - 1),
    Nat.lt_of_le_of_lt Nat.and_le_right (Nat.sub_one_lt (NeZero.ne bucketCnt))⟩

/-- The place a key's node is put at, in the list of its bucket's head. -/
def headOf [NeZero bucketCnt] (key : K) : ListHead bucketCnt ν := .bucket (getBucket ops key)

namespace HashTbl
variable [DecidableEq ν] (tbl : HashTbl K bucketCnt ν)

/-- `nx_hash_tbl_create`, of memory as it was found. -/
def nxHashTblCreate (links : Links (ListHead bucketCnt ν)) (keys : ν → K) :
    HashTbl K bucketCnt ν :=
  ⟨(List.finRange bucketCnt).foldl (fun L i => L.init (.bucket i)) links, keys⟩

/-- The loop of `nx_hash_tbl_insert`, at `node1` with `node2` after it; `none` in the result where
it finds the key, and otherwise `entry` as the loop leaves it. -/
def insertLoop (key : K) (head : ListHead bucketCnt ν) :
    Nat → ListHead bucketCnt ν → ListHead bucketCnt ν → Option ν → Option (Option (Option ν))
  | 0, _, _, _ => none
  | fuel + 1, node1, node2, entry =>
    if node1 = head then some (some entry)
    else
      match node1.listEntry with
      | none => none
      | some e =>
        let rv := ops.compareKeys key (tbl.keys e)
        if rv = 0 then some none
        else
          let entry := if rv.slt 0 then none else some e
          insertLoop key head fuel node2 (tbl.links.next node2) entry

/-- The loop of `nx_hash_tbl_get` and of `nx_hash_tbl_delete`, which leaves it where it takes the
node out. -/
def searchLoop (key : K) (head : ListHead bucketCnt ν) :
    Nat → ListHead bucketCnt ν → ListHead bucketCnt ν → Option (Option ν)
  | 0, _, _ => none
  | fuel + 1, node1, node2 =>
    if node1 = head then some none
    else
      match node1.listEntry with
      | none => none
      | some e =>
        if ops.compareKeys key (tbl.keys e) = 0 then some (some e)
        else searchLoop key head fuel node2 (tbl.links.next node2)

/-- `list_insert_before`. -/
def listInsertBefore (L : Links (ListHead bucketCnt ν)) (new before : ListHead bucketCnt ν) :
    Links (ListHead bucketCnt ν) :=
  let L := L.setNext new before
  let L := L.setPrev new (L.prev before)
  let L := L.setNext (L.prev new) new
  L.setPrev before new

variable [NeZero bucketCnt]

/-- `nx_hash_tbl_insert`. -/
def nxHashTblInsert (fuel : Nat) (node : ν) : Option (Inserted × HashTbl K bucketCnt ν) :=
  let key := tbl.keys node
  let head : ListHead bucketCnt ν := headOf ops key
  let node1 := tbl.links.next head
  match tbl.insertLoop ops key head fuel node1 (tbl.links.next node1) none with
  | none => none
  | some none => some (.exists, tbl)
  | some (some (some entry)) =>
    some (.inserted, { tbl with links := listInsertBefore tbl.links (.node node) (.node entry) })
  | some (some none) => some (.inserted, { tbl with links := tbl.links.addTail (.node node) head })

/-- `nx_hash_tbl_get`. -/
def nxHashTblGet (fuel : Nat) (key : K) : Option (Option ν) :=
  let head : ListHead bucketCnt ν := headOf ops key
  let node1 := tbl.links.next head
  tbl.searchLoop ops key head fuel node1 (tbl.links.next node1)

/-- `nx_hash_tbl_delete`. -/
def nxHashTblDelete (fuel : Nat) (key : K) : Option (Option ν × HashTbl K bucketCnt ν) :=
  let head : ListHead bucketCnt ν := headOf ops key
  let node1 := tbl.links.next head
  match tbl.searchLoop ops key head fuel node1 (tbl.links.next node1) with
  | none => none
  | some none => some (none, tbl)
  | some (some entry) => some (some entry, { tbl with links := tbl.links.delInit (.node entry) })

end HashTbl

/-! ## The loops over a list -/

/-- What the loop of `nx_hash_tbl_insert` does with the nodes of a list. -/
def insertScan (keys : ν → K) (key : K) : List ν → Option ν → Option (Option ν)
  | [], entry => some entry
  | e :: rest, _ =>
    let rv := ops.compareKeys key (keys e)
    if rv = 0 then none else insertScan keys key rest (if rv.slt 0 then none else some e)

/-- The list of a bucket with a node put into it, before the last node or at the end. -/
def insertInto (keys : ν → K) (n : ν) (l : List ν) : List ν :=
  match insertScan ops keys (keys n) l none with
  | some (some e) => l.dropLast ++ [n, e]
  | _ => l ++ [n]

/-- The first node of a list whose key compares equal. -/
def search (keys : ν → K) (key : K) (l : List ν) : Option ν :=
  l.find? fun e => decide (ops.compareKeys key (keys e) = 0)

theorem search_cons (keys : ν → K) (key : K) (e : ν) (rest : List ν) :
    search ops keys key (e :: rest) =
      if ops.compareKeys key (keys e) = 0 then some e else search ops keys key rest := by
  rw [search, List.find?_cons]
  by_cases hzero : ops.compareKeys key (keys e) = 0
  · rw [decide_eq_true hzero, if_pos hzero]
  · rw [decide_eq_false hzero, if_neg hzero]
    rfl

section
variable {ops} {tbl : HashTbl K bucketCnt ν} {head : ListHead bucketCnt ν}
  {node1 : ListHead bucketCnt ν} {key : K} {done rest : List ν}

/-- The state of a loop: the nodes before `node1` have been visited. -/
structure At (tbl : HashTbl K bucketCnt ν) (head node1 : ListHead bucketCnt ν)
    (done rest : List ν) : Prop where
  circular : tbl.links.Circular head ((done ++ rest).map .node)
  here : node1 ∈ (rest.map ListHead.node ++ [head]).head?

theorem At.start {l : List ν} (hc : tbl.links.Circular head (l.map .node)) :
    At tbl head (tbl.links.next head) [] l := by
  obtain ⟨b, hb⟩ := Links.exists_head (l.map ListHead.node) head
  refine ⟨hc, ?_⟩
  rw [hc.next_head hb]
  exact hb

theorem At.nil (h : At tbl head node1 done []) : node1 = head := (Option.some.inj h.here).symm

theorem At.cons {e : ν} (h : At tbl head node1 done (e :: rest)) :
    node1 = .node e ∧ node1 ≠ head ∧ At tbl head (tbl.links.next node1) (done ++ [e]) rest := by
  obtain rfl : ListHead.node e = node1 := Option.some.inj h.here
  obtain ⟨b, hb⟩ := Links.exists_head (rest.map ListHead.node) head
  have hc := h.circular
  rw [List.map_append, List.map_cons] at hc
  refine ⟨rfl, ?_, ?_, ?_⟩
  · rintro rfl
    exact (List.nodup_cons.mp hc.nodup).1 (List.mem_append_right _ List.mem_cons_self)
  · rw [List.append_assoc]
    exact h.circular
  · rw [hc.next_mem hb]
    exact hb

variable [DecidableEq ν]

/-- With enough fuel the loop does with the pointers what the scan does with the list. -/
theorem insertLoop_eq {fuel : Nat} {entry : Option ν} (h : At tbl head node1 done rest)
    (hfuel : rest.length < fuel) :
    tbl.insertLoop ops key head fuel node1 (tbl.links.next node1) entry =
      some (insertScan ops tbl.keys key rest entry) := by
  induction rest generalizing fuel node1 done entry with
  | nil =>
    obtain ⟨fuel, rfl⟩ := Nat.exists_eq_succ_of_ne_zero (Nat.ne_of_gt hfuel)
    rw [HashTbl.insertLoop, if_pos h.nil, insertScan]
  | cons e rest ih =>
    obtain ⟨fuel, rfl⟩ := Nat.exists_eq_succ_of_ne_zero (Nat.ne_zero_of_lt hfuel)
    obtain ⟨rfl, hne, hnext⟩ := h.cons
    rw [HashTbl.insertLoop, if_neg hne, insertScan]
    simp only [ListHead.listEntry]
    split
    · rfl
    · exact ih hnext (Nat.lt_of_succ_lt_succ hfuel)

theorem searchLoop_eq {fuel : Nat} (h : At tbl head node1 done rest)
    (hfuel : rest.length < fuel) :
    tbl.searchLoop ops key head fuel node1 (tbl.links.next node1) =
      some (search ops tbl.keys key rest) := by
  induction rest generalizing fuel node1 done with
  | nil =>
    obtain ⟨fuel, rfl⟩ := Nat.exists_eq_succ_of_ne_zero (Nat.ne_of_gt hfuel)
    rw [HashTbl.searchLoop, if_pos h.nil, search, List.find?_nil]
  | cons e rest ih =>
    obtain ⟨fuel, rfl⟩ := Nat.exists_eq_succ_of_ne_zero (Nat.ne_zero_of_lt hfuel)
    obtain ⟨rfl, hne, hnext⟩ := h.cons
    rw [HashTbl.searchLoop, if_neg hne, search_cons]
    simp only [ListHead.listEntry]
    split
    · rfl
    · exact ih hnext (Nat.lt_of_succ_lt_succ hfuel)

end

/-! ## What the scans find -/

section
variable {ops} {keys : ν → K} {key : K} {l : List ν}

theorem insertScan_eq_none {entry : Option ν} :
    insertScan ops keys key l entry = none ↔ ∃ e ∈ l, ops.compareKeys key (keys e) = 0 := by
  induction l generalizing entry with
  | nil => exact iff_of_false (Option.some_ne_none _) (fun ⟨_, he, _⟩ => List.not_mem_nil he)
  | cons e rest ih =>
    rw [insertScan]
    by_cases hzero : ops.compareKeys key (keys e) = 0
    · simp only [if_pos hzero]
      exact iff_of_true trivial ⟨e, List.mem_cons_self, hzero⟩
    · simp only [if_neg hzero]
      rw [ih]
      constructor
      · rintro ⟨e', he', hkey⟩
        exact ⟨e', List.mem_cons_of_mem _ he', hkey⟩
      · rintro ⟨e', he', hkey⟩
        rcases List.mem_cons.mp he' with rfl | he'
        · exact absurd hkey hzero
        · exact ⟨e', he', hkey⟩

/-- What is left in `entry` is the last node of the list, whatever came before it. -/
theorem insertScan_last {entry : Option ν} {e : ν}
    (h : insertScan ops keys key l entry = some (some e)) :
    l = [] ∧ entry = some e ∨ ∃ xs, l = xs ++ [e] := by
  induction l generalizing entry with
  | nil => exact .inl ⟨rfl, Option.some.inj h⟩
  | cons e' rest ih =>
    rw [insertScan] at h
    split at h
    · exact absurd h.symm (Option.some_ne_none _)
    · rcases ih h with ⟨rfl, hentry⟩ | ⟨xs, rfl⟩
      · split at hentry
        · exact absurd hentry.symm (Option.some_ne_none _)
        · exact .inr ⟨[], by rw [Option.some.inj hentry]; rfl⟩
      · exact .inr ⟨e' :: xs, rfl⟩

theorem search_eq_none :
    search ops keys key l = none ↔ ∀ e ∈ l, ops.compareKeys key (keys e) ≠ 0 := by
  rw [search, List.find?_eq_none]
  exact forall₂_congr fun e _ => by rw [decide_eq_true_eq]

theorem search_eq_some {e : ν} (h : search ops keys key l = some e) :
    e ∈ l ∧ ops.compareKeys key (keys e) = 0 := by
  have hkey := List.find?_some (p := fun e => decide (ops.compareKeys key (keys e) = 0)) h
  exact ⟨List.mem_of_find?_eq_some h, of_decide_eq_true hkey⟩

end

/-! ## The table as lists of nodes -/

/-- The buckets have these nodes, each in the bucket of its key. -/
structure Bucketed [NeZero bucketCnt] (tbl : HashTbl K bucketCnt ν)
    (lists : Fin bucketCnt → List ν) : Prop where
  circular : ∀ i, tbl.links.Circular (.bucket i) ((lists i).map .node)
  home : ∀ i n, n ∈ lists i → getBucket ops (tbl.keys n) = i

theorem node_injective : Function.Injective (ListHead.node : ν → ListHead bucketCnt ν) :=
  fun _ _ he => ListHead.node.inj he

theorem node_ne_bucket (n : ν) (i : Fin bucketCnt) : ListHead.node n ≠ .bucket i := by
  intro he
  cases he

theorem mem_map_node {n : ν} {l : List ν} :
    (ListHead.node n : ListHead bucketCnt ν) ∈ l.map .node ↔ n ∈ l :=
  List.mem_map_of_injective node_injective

section
variable [NeZero bucketCnt] {ops} {tbl : HashTbl K bucketCnt ν} {lists : Fin bucketCnt → List ν}
  {i : Fin bucketCnt} {l : List ν} {n : ν} {L : Links (ListHead bucketCnt ν)}

theorem Bucketed.nodup (h : Bucketed ops tbl lists) (i : Fin bucketCnt) : (lists i).Nodup :=
  List.Nodup.of_map _ (List.nodup_cons.mp (h.circular i).nodup).2

theorem Bucketed.not_mem_of_ne (h : Bucketed ops tbl lists) (hn : n ∈ lists i) {j : Fin bucketCnt}
    (hj : j ≠ i) : n ∉ lists j :=
  fun hmem => hj ((h.home j n hmem).symm.trans (h.home i n hn))

/-- The list of a bucket changes, with the pointers of its own places and of a node that is in no
other bucket. -/
theorem Bucketed.set (h : Bucketed ops tbl lists) (hc : L.Circular (.bucket i) (l.map .node))
    (hn : ∀ j, j ≠ i → n ∉ lists j)
    (hs : Links.ChangesOnly (.node n :: .bucket i :: (lists i).map .node) tbl.links L)
    (hhome : ∀ m ∈ l, getBucket ops (tbl.keys m) = i) :
    Bucketed ops { tbl with links := L } (Function.update lists i l) := by
  constructor
  · intro j
    by_cases hj : j = i
    · subst hj
      rw [Function.update_self]
      exact hc
    · rw [Function.update_of_ne hj]
      refine (h.circular j).frame hs fun a ha has => ?_
      rcases List.mem_cons.mp ha with rfl | ha
      · rcases List.mem_cons.mp has with he | has
        · exact node_ne_bucket n j he.symm
        · rcases List.mem_cons.mp has with he | has
          · exact hj (ListHead.bucket.inj he)
          · obtain ⟨m, -, he⟩ := List.mem_map.mp has
            exact node_ne_bucket m j he
      · obtain ⟨m, hm, rfl⟩ := List.mem_map.mp ha
        rcases List.mem_cons.mp has with he | has
        · exact hn j hj (ListHead.node.inj he ▸ hm)
        · rcases List.mem_cons.mp has with he | has
          · exact node_ne_bucket m i he
          · exact h.not_mem_of_ne (mem_map_node.mp has) hj hm
  · intro j m hm
    by_cases hj : j = i
    · subst hj
      rw [Function.update_self] at hm
      exact hhome m hm
    · rw [Function.update_of_ne hj] at hm
      exact h.home j m hm

variable [DecidableEq ν]

omit [NeZero bucketCnt] in
/-- The splice of `list_insert_before`, in the order in which it writes. -/
theorem added_listInsertBefore (L : Links (ListHead bucketCnt ν))
    {new before : ListHead bucketCnt ν} (hne : new ≠ before) :
    Links.Added L (HashTbl.listInsertBefore L new before) new (L.prev before) before := by
  have hprev : Function.update L.prev new (L.prev before) new = L.prev before :=
    Function.update_self ..
  constructor
  · show Function.update (Function.update L.next new before)
      (Function.update L.prev new (L.prev before) new) new = _
    rw [hprev]
  · exact Function.update_comm hne (L.prev before) new L.prev

omit [NeZero bucketCnt] in
/-- What `nx_hash_tbl_insert` makes of a bucket: the node is in it, before the last one that was in
it or at its end. -/
theorem insert_before_last (hc : tbl.links.Circular (.bucket i) ((lists i).map .node))
    (hn : n ∉ lists i) {xs : List ν} {e : ν} (hl : lists i = xs ++ [e]) :
    (HashTbl.listInsertBefore tbl.links (.node n) (.node e)).Circular (.bucket i)
        ((xs ++ [n, e]).map .node) ∧
      Links.ChangesOnly (.node n :: .bucket i :: (lists i).map .node) tbl.links
        (HashTbl.listInsertBefore tbl.links (.node n) (.node e)) := by
  rw [hl] at hn hc ⊢
  rw [List.map_append] at hc ⊢
  rw [List.map_append]
  have hnew : ListHead.node n ∉ .bucket i :: (xs.map .node ++ [e].map .node) := by
    rw [List.mem_cons, not_or, ← List.map_append, mem_map_node]
    exact ⟨node_ne_bucket n i, hn⟩
  have hne : (ListHead.node n : ListHead bucketCnt ν) ≠ .node e := by
    rintro he
    exact hn (List.mem_append_right _ (List.mem_singleton.mpr (ListHead.node.inj he)))
  obtain ⟨p, hp⟩ := Links.exists_last (.bucket i) (xs.map ListHead.node)
  have hb : ListHead.node e ∈ ([e].map ListHead.node ++ [ListHead.bucket i]).head? := rfl
  have ha := added_listInsertBefore tbl.links hne
  rw [(hc.adjacent hp hb).2] at ha
  refine ⟨hc.added hp hb hnew ha, ha.changesOnly.mono fun a hmem => ?_⟩
  rcases List.mem_cons.mp hmem with rfl | hmem
  · exact List.mem_cons_self
  · rcases List.mem_cons.mp hmem with rfl | hmem
    · exact List.mem_cons_of_mem _ (Links.mem_of_last hp)
    · obtain rfl := List.mem_singleton.mp hmem
      exact List.mem_cons_of_mem _ (Links.mem_of_head hb)

omit [NeZero bucketCnt] in
/-- The heads of buckets are made one after the other. -/
theorem circular_inits (is : List (Fin bucketCnt)) {j : Fin bucketCnt}
    (h : j ∈ is ∨ L.Circular (.bucket j) []) :
    (is.foldl (fun L i => L.init (.bucket i)) L).Circular (.bucket j) [] := by
  induction is generalizing L with
  | nil => exact h.resolve_left List.not_mem_nil
  | cons i is ih =>
    rw [List.foldl_cons]
    apply ih
    by_cases hj : j = i
    · subst hj
      exact .inr (Links.circular_init L _)
    · rcases h with hmem | hc
      · exact .inl (List.mem_of_ne_of_mem hj hmem)
      · refine .inr (hc.frame (Links.init_changesOnly L (.bucket i)) fun a ha hmem => ?_)
        obtain rfl := List.mem_singleton.mp ha
        exact hj (ListHead.bucket.inj (List.mem_singleton.mp hmem))

/-- `nx_hash_tbl_create` makes empty buckets. -/
theorem bucketed_create (links : Links (ListHead bucketCnt ν)) (keys : ν → K) :
    Bucketed ops (HashTbl.nxHashTblCreate links keys) fun _ => [] where
  circular i := circular_inits (List.finRange bucketCnt) (.inl (List.mem_finRange i))
  home _ _ hn := absurd hn List.not_mem_nil

/-! ## The operations -/

variable {key : K} {fuel : Nat}

theorem insertLoop_bucket (h : Bucketed ops tbl lists)
    (hfuel : (lists (getBucket ops key)).length < fuel) :
    tbl.insertLoop ops key (headOf ops key) fuel (tbl.links.next (headOf ops key))
        (tbl.links.next (tbl.links.next (headOf ops key))) none =
      some (insertScan ops tbl.keys key (lists (getBucket ops key)) none) :=
  insertLoop_eq (.start (h.circular _)) hfuel

/-- `nx_hash_tbl_get` gives the first node of the bucket that compares equal. -/
theorem nxHashTblGet_eq (h : Bucketed ops tbl lists)
    (hfuel : (lists (getBucket ops key)).length < fuel) :
    tbl.nxHashTblGet ops fuel key = some (search ops tbl.keys key (lists (getBucket ops key))) :=
  searchLoop_eq (.start (h.circular _)) hfuel

theorem nxHashTblInsert_exists (h : Bucketed ops tbl lists)
    (hfound : ∃ e ∈ lists (getBucket ops (tbl.keys n)),
      ops.compareKeys (tbl.keys n) (tbl.keys e) = 0)
    (hfuel : (lists (getBucket ops (tbl.keys n))).length < fuel) :
    tbl.nxHashTblInsert ops fuel n = some (.exists, tbl) := by
  rw [HashTbl.nxHashTblInsert]
  simp only [insertLoop_bucket h hfuel, insertScan_eq_none.mpr hfound]

/-- **An insertion** of a node whose key is not there: the node is in its bucket, and nothing else
changes. -/
theorem nxHashTblInsert_inserted (h : Bucketed ops tbl lists) (hn : ∀ j, n ∉ lists j)
    (hnone : ∀ e ∈ lists (getBucket ops (tbl.keys n)),
      ops.compareKeys (tbl.keys n) (tbl.keys e) ≠ 0) :
    ∃ L, (insertInto ops tbl.keys n (lists (getBucket ops (tbl.keys n)))).Perm
        (n :: lists (getBucket ops (tbl.keys n))) ∧
      Bucketed ops { tbl with links := L } (Function.update lists (getBucket ops (tbl.keys n))
        (insertInto ops tbl.keys n (lists (getBucket ops (tbl.keys n))))) ∧
      ∀ fuel, (lists (getBucket ops (tbl.keys n))).length < fuel →
        tbl.nxHashTblInsert ops fuel n = some (.inserted, { tbl with links := L }) := by
  generalize hi : (getBucket ops (tbl.keys n) : Fin bucketCnt) = i at hnone ⊢
  have hhome : ∀ {l : List ν}, l.Perm (n :: lists i) → ∀ m ∈ l, getBucket ops (tbl.keys m) = i := by
    intro l hperm m hm
    rcases List.mem_cons.mp (hperm.mem_iff.mp hm) with rfl | hm
    · exact hi
    · exact h.home i m hm
  cases hscan : insertScan ops tbl.keys (tbl.keys n) (lists i) none with
  | none =>
    obtain ⟨e, he, hzero⟩ := insertScan_eq_none.mp hscan
    exact absurd hzero (hnone e he)
  | some entry =>
    cases entry with
    | none =>
      -- the last node is one that the key is less than, or there is none
      have hinto : insertInto ops tbl.keys n (lists i) = lists i ++ [n] := by
        simp only [insertInto, hscan]
      have hnew : ListHead.node n ∉ .bucket i :: (lists i).map .node := by
        rw [List.mem_cons, not_or, mem_map_node]
        exact ⟨node_ne_bucket n i, hn i⟩
      obtain ⟨hc, hs⟩ := (h.circular i).addTail hnew
      have hperm : (lists i ++ [n]).Perm (n :: lists i) := List.perm_append_singleton n _
      rw [hinto]
      refine ⟨tbl.links.addTail (.node n) (.bucket i), hperm,
        h.set (by rw [List.map_append]; exact hc) (fun j _ => hn j) hs (hhome hperm),
        fun fuel hfuel => ?_⟩
      subst hi
      rw [HashTbl.nxHashTblInsert]
      simp only [insertLoop_bucket h hfuel, hscan]
      rfl
    | some e =>
      have hlast : ∃ xs, lists i = xs ++ [e] :=
        (insertScan_last hscan).resolve_left fun hnil => Option.some_ne_none _ hnil.2.symm
      obtain ⟨xs, hl⟩ := hlast
      have hinto : insertInto ops tbl.keys n (lists i) = xs ++ [n, e] := by
        simp only [insertInto, hscan]
        rw [hl, List.dropLast_concat]
      obtain ⟨hc, hs⟩ := insert_before_last (h.circular i) (hn i) hl
      have hperm : (xs ++ [n, e]).Perm (n :: lists i) := by
        rw [hl]
        exact List.perm_middle
      rw [hinto]
      refine ⟨HashTbl.listInsertBefore tbl.links (.node n) (.node e), hperm,
        h.set hc (fun j _ => hn j) hs (hhome hperm), fun fuel hfuel => ?_⟩
      subst hi
      rw [HashTbl.nxHashTblInsert]
      simp only [insertLoop_bucket h hfuel, hscan]

theorem nxHashTblDelete_none (h : Bucketed ops tbl lists)
    (hnone : search ops tbl.keys key (lists (getBucket ops key)) = none)
    (hfuel : (lists (getBucket ops key)).length < fuel) :
    tbl.nxHashTblDelete ops fuel key = some (none, tbl) := by
  have hget := nxHashTblGet_eq h hfuel
  rw [HashTbl.nxHashTblGet] at hget
  rw [HashTbl.nxHashTblDelete]
  simp only [hget, hnone]

/-- **A deletion**: the node is in no bucket, and nothing else changes. -/
theorem nxHashTblDelete_some (h : Bucketed ops tbl lists) {e : ν}
    (hfound : search ops tbl.keys key (lists (getBucket ops key)) = some e) :
    ∃ L, Bucketed ops { tbl with links := L } (Function.update lists (getBucket ops key)
        ((lists (getBucket ops key)).erase e)) ∧
      ∀ fuel, (lists (getBucket ops key)).length < fuel →
        tbl.nxHashTblDelete ops fuel key = some (some e, { tbl with links := L }) := by
  have he := (search_eq_some hfound).1
  generalize hi : (getBucket ops key : Fin bucketCnt) = i at hfound he ⊢
  obtain ⟨xs, ys, hnot, hl, herase⟩ := List.exists_erase_eq he
  have hc := h.circular i
  rw [hl, List.map_append, List.map_cons] at hc
  obtain ⟨hc', hs⟩ := hc.delInit
  rw [← List.map_cons, ← List.map_append, ← hl] at hs
  refine ⟨tbl.links.delInit (.node e), h.set (n := e) ?_ ?_ ?_ ?_, fun fuel hfuel => ?_⟩
  · rw [herase, List.map_append]
    exact hc'
  · exact fun j hj => h.not_mem_of_ne he hj
  · exact hs.mono (List.subset_cons_self _ _)
  · exact fun m hm => h.home i m (List.mem_of_mem_erase hm)
  · subst hi
    have hget := nxHashTblGet_eq h hfuel
    rw [HashTbl.nxHashTblGet] at hget
    rw [HashTbl.nxHashTblDelete]
    simp only [hget, hfound]

end

end Hash
end NxNic

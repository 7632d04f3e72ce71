import NxNic.Lib.Machine
import NxNic.Lro.HashTable

/-! # The table as a map of flows

The state is the table of `Lro/HashTable`, with its buckets and the key of each node, beside the
map from flows to nodes that it is to be (`FlowMap`), and what the operations have returned and
were to return.  A step is one operation under the lock of a bucket: a node gets a key and is
inserted, a key is looked up, or a key is deleted.

`Mapped` is the property: every operation has returned what it was to return, and the nodes in the
table are those of the flows in the map.  The keys of two flows that differ in nothing but the
source address compare equal, and the table takes one for the other if they fall into the same
bucket; `Separate` is the condition on an operation that they do not.

The invariant is `Tabled`: the table represents the map, with no two nodes of a bucket that
compare equal, and the results so far are right.  A step keeps it under the condition, and one
without it leaves a wrong result or a wrong table; `mapped_iff` is about runs.
-/
namespace NxNic
namespace Lro

/-! ## A map of flows -/

/-- The node of each flow. -/
abbrev FlowMap := Flow → Option Nat

def FlowMap.insert (flows : FlowMap) (flow : Flow) (node : Nat) : Inserted × FlowMap :=
  match flows flow with
  | some _ => (.exists, flows)
  | none => (.inserted, Function.update flows flow (some node))

def FlowMap.delete (flows : FlowMap) (flow : Flow) : Option Nat × FlowMap :=
  (flows flow, Function.update flows flow none)

/-! ## Operations -/

/-- A node gets a key and is inserted; a key is looked up; a key is deleted, as
`nx_handle_lro_response` does. -/
inductive TblOp where
  | insert (node : Nat) (key : NxHostKey)
  | get (key : NxHostKey)
  | delete (key : NxHostKey)

def TblOp.key : TblOp → NxHostKey
  | .insert _ key => key
  | .get key => key
  | .delete key => key

inductive TblResult where
  | insert (r : Inserted)
  | node (n : Option Nat)
deriving DecidableEq

/-- The table, the map that it is to be, and what the operations have returned and
were to return. -/
structure FlowState (bucketCnt : Nat) where
  tbl : HashTbl bucketCnt
  flows : FlowMap
  results : List TblResult
  expected : List TblResult

namespace FlowState
variable {bucketCnt : Nat} [NeZero bucketCnt] (st : FlowState bucketCnt)

/-- A node that is not linked gets a key. -/
def setKey (node : Nat) (key : NxHostKey) : HashTbl bucketCnt :=
  { st.tbl with keys := Function.update st.tbl.keys node key }

/-- The keys are IPv4 keys, and a node that is inserted is not in the table. -/
def step : TblOp → Option (FlowState bucketCnt)
  | .insert node key =>
      if key.ipVersion = nxIpVersionV4 ∧ ¬ st.tbl.Linked node then
        some
          { tbl := ((st.setKey node key).nxHashTblInsert node).2
            flows := (st.flows.insert key.flow node).2
            results := st.results ++ [.insert ((st.setKey node key).nxHashTblInsert node).1]
            expected := st.expected ++ [.insert (st.flows.insert key.flow node).1] }
      else none
  | .get key =>
      if key.ipVersion = nxIpVersionV4 then
        some
          { st with
            results := st.results ++ [.node (st.tbl.nxHashTblGet key)]
            expected := st.expected ++ [.node (st.flows key.flow)] }
      else none
  | .delete key =>
      if key.ipVersion = nxIpVersionV4 then
        some
          { tbl := (st.tbl.nxHashTblDelete key).2
            flows := (st.flows.delete key.flow).2
            results := st.results ++ [.node (st.tbl.nxHashTblDelete key).1]
            expected := st.expected ++ [.node (st.flows.delete key.flow).1] }
      else none

end FlowState

def flowMachine (bucketCnt : Nat) [NeZero bucketCnt] : Machine (FlowState bucketCnt) TblOp where
  next st := st.step

/-- An empty table. -/
def initialFlows (bucketCnt : Nat) : FlowState bucketCnt where
  tbl := ⟨fun _ => [], fun _ => ⟨0, fun _ => 0, fun _ => 0, 0, 0⟩⟩
  flows := fun _ => none
  results := []
  expected := []

section
variable {bucketCnt : Nat} [NeZero bucketCnt]

/-- **The table is a map of flows**: every operation has returned what it was to
return, and the nodes in the table are those of the flows in the map. -/
structure Mapped (st : FlowState bucketCnt) : Prop where
  results : st.results = st.expected
  nodes : ∀ flow n, st.flows flow = some n ↔ st.tbl.Linked n ∧ (st.tbl.keys n).flow = flow

/-- No node in the bucket of the key differs from it in the source address only. -/
def Apart (tbl : HashTbl bucketCnt) (key : NxHostKey) : Prop :=
  ∀ n ∈ tbl.buckets (HashTbl.getBucket key), SameButSource key (tbl.keys n) →
    key.saddr.v4 = (tbl.keys n).saddr.v4

instance (tbl : HashTbl bucketCnt) (key : NxHostKey) : Decidable (Apart tbl key) :=
  inferInstanceAs (Decidable (∀ n ∈ tbl.buckets (HashTbl.getBucket key), _ → _))

/-- The condition on an operation. -/
def Separate (st : FlowState bucketCnt) (op : TblOp) : Prop := Apart st.tbl op.key

instance (st : FlowState bucketCnt) : DecidablePred (Separate st) := fun op =>
  inferInstanceAs (Decidable (Apart st.tbl op.key))

/-! ## The invariant -/

/-- The table holds the nodes of the map, each in the bucket of its key, and no two
in a bucket compare equal. -/
structure Represents (tbl : HashTbl bucketCnt) (flows : FlowMap) : Prop where
  nodes : ∀ flow n, flows flow = some n ↔ tbl.Linked n ∧ (tbl.keys n).flow = flow
  home : ∀ i, ∀ n ∈ tbl.buckets i,
    (tbl.keys n).ipVersion = nxIpVersionV4 ∧ HashTbl.getBucket (tbl.keys n) = i
  nodup : ∀ i, (tbl.buckets i).Nodup
  apart : ∀ i, ∀ n ∈ tbl.buckets i, ∀ m ∈ tbl.buckets i,
    SameButSource (tbl.keys n) (tbl.keys m) → n = m

theorem SameButSource.symm {key1 key2 : NxHostKey} (h : SameButSource key1 key2) :
    SameButSource key2 key1 := ⟨h.1.symm, h.2.1.symm, h.2.2.symm⟩

theorem SameButSource.trans {key1 key2 key3 : NxHostKey} (h : SameButSource key1 key2)
    (h' : SameButSource key2 key3) : SameButSource key1 key3 :=
  ⟨h.1.trans h'.1, h.2.1.trans h'.2.1, h.2.2.trans h'.2.2⟩

/-- The bucket is that of the flow. -/
theorem getBucket_of_flow {key1 key2 : NxHostKey} (h : key1.flow = key2.flow) :
    (HashTbl.getBucket key1 : Fin bucketCnt) = HashTbl.getBucket key2 := by
  unfold HashTbl.getBucket
  simp only [lroIpv4Hash_of_flow h]

namespace Represents
variable {tbl : HashTbl bucketCnt} {flows : FlowMap} {key : NxHostKey} {node : Nat}

/-- The node of a flow is in the bucket of its keys. -/
theorem mem_of_flow (h : Represents tbl flows) {n : Nat} (hn : flows key.flow = some n) :
    n ∈ tbl.buckets (HashTbl.getBucket key) ∧ (tbl.keys n).flow = key.flow := by
  obtain ⟨⟨i, hi⟩, hflow⟩ := (h.nodes _ _).mp hn
  rw [← getBucket_of_flow hflow, (h.home i n hi).2]
  exact ⟨hi, hflow⟩

theorem cmp_iff (h : Represents tbl flows) (hkey : key.ipVersion = nxIpVersionV4)
    {i : Fin bucketCnt} {n : Nat} (hn : n ∈ tbl.buckets i) :
    nxCmpIpKey key (tbl.keys n) = 0 ↔ SameButSource key (tbl.keys n) :=
  nxCmpIpKey_eq_zero hkey (h.home i n hn).1

/-- A key that is not found is of no flow in the map. -/
theorem flow_none (h : Represents tbl flows) (hkey : key.ipVersion = nxIpVersionV4)
    (hfind : tbl.find key = none) : flows key.flow = none := by
  cases hflow : flows key.flow with
  | none => rfl
  | some n =>
    obtain ⟨hn, hn'⟩ := h.mem_of_flow hflow
    have hsame := (flow_eq_iff.mp hn').1.symm
    exact absurd ((h.cmp_iff hkey hn).mpr hsame) (tbl.find_eq_none.mp hfind n hn)

/-- **A lookup finds the node of the flow** if the condition is met. -/
theorem find_eq (h : Represents tbl flows) (hkey : key.ipVersion = nxIpVersionV4)
    (hapart : Apart tbl key) : tbl.find key = flows key.flow := by
  cases hfind : tbl.find key with
  | none => exact (h.flow_none hkey hfind).symm
  | some n =>
    obtain ⟨hn, hzero⟩ := tbl.find_eq_some hfind
    have hsame := (h.cmp_iff hkey hn).mp hzero
    have hflow : (tbl.keys n).flow = key.flow :=
      (flow_eq_iff.mpr ⟨hsame, hapart n hn hsame⟩).symm
    exact ((h.nodes _ _).mpr ⟨⟨_, hn⟩, hflow⟩).symm

/-- It finds another flow's node if it is not. -/
theorem find_other (h : Represents tbl flows) (hkey : key.ipVersion = nxIpVersionV4)
    (hmixed : ¬ Apart tbl key) : (∃ n, tbl.find key = some n) ∧ flows key.flow = none := by
  simp only [Apart, not_forall] at hmixed
  obtain ⟨n, hn, hsame, hsource⟩ := hmixed
  constructor
  · cases hfind : tbl.find key with
    | none => exact absurd ((h.cmp_iff hkey hn).mpr hsame) (tbl.find_eq_none.mp hfind n hn)
    | some m => exact ⟨m, rfl⟩
  · -- the flow's own node would be in the same bucket
    cases hflow : flows key.flow with
    | none => rfl
    | some m =>
      obtain ⟨hm, hm'⟩ := h.mem_of_flow hflow
      obtain ⟨hsame', hsource'⟩ := flow_eq_iff.mp hm'
      obtain rfl := h.apart _ m hm n hn (hsame'.trans hsame)
      exact absurd hsource'.symm hsource

/-- The key of a node that is not linked does not matter. -/
theorem setKey (h : Represents tbl flows) (hnode : ¬ tbl.Linked node) :
    Represents { tbl with keys := Function.update tbl.keys node key } flows := by
  have hkeys : ∀ n, tbl.Linked n → Function.update tbl.keys node key n = tbl.keys n := by
    intro n hn
    have hne : n ≠ node := fun heq => hnode (heq ▸ hn)
    exact Function.update_of_ne hne ..
  refine ⟨fun flow n => ?_, fun i n hn => ?_, h.nodup, fun i n hn m hm hsame => ?_⟩
  · rw [h.nodes]
    exact and_congr_right fun hn => by simp only [hkeys n hn]
  · simp only [hkeys n ⟨i, hn⟩]
    exact h.home i n hn
  · simp only [hkeys n ⟨i, hn⟩, hkeys m ⟨i, hm⟩] at hsame
    exact h.apart i n hn m hm hsame

/-- A node is linked. -/
theorem link (h : Represents tbl flows) (hnode : ¬ tbl.Linked node) (hself : tbl.keys node = key)
    (hkey : key.ipVersion = nxIpVersionV4) (hfind : tbl.find key = none) {l : List Nat}
    (hperm : l.Perm (node :: tbl.buckets (HashTbl.getBucket key))) :
    Represents (tbl.setBucket (HashTbl.getBucket key) l)
      (Function.update flows key.flow (some node)) := by
  subst hself
  have hnone := h.flow_none hkey hfind
  have hapart : ∀ i, ∀ n ∈ tbl.buckets i, i = HashTbl.getBucket (tbl.keys node) →
      ¬ SameButSource (tbl.keys node) (tbl.keys n) := by
    rintro i n hn rfl hsame
    exact tbl.find_eq_none.mp hfind n hn ((h.cmp_iff hkey hn).mpr hsame)
  refine ⟨fun flow n => ?_, fun i n hn => ?_, fun i => ?_, fun i n hn m hm hsame => ?_⟩
  · rw [tbl.linked_setBucket_cons hperm]
    show _ ↔ _ ∧ (tbl.keys n).flow = flow
    by_cases hflow : flow = (tbl.keys node).flow
    · subst hflow
      rw [Function.update_self]
      constructor
      · rintro heq
        obtain rfl := Option.some.inj heq
        exact ⟨Or.inl rfl, rfl⟩
      · rintro ⟨rfl | hn, hsame⟩
        · rfl
        · have hsome := (h.nodes _ n).mpr ⟨hn, hsame⟩
          rw [hnone] at hsome
          cases hsome
    · rw [Function.update_of_ne hflow, h.nodes]
      constructor
      · exact fun ⟨hn, hsame⟩ => ⟨Or.inr hn, hsame⟩
      · rintro ⟨rfl | hn, hsame⟩
        · exact absurd hsame.symm hflow
        · exact ⟨hn, hsame⟩
  · show (tbl.keys n).ipVersion = _ ∧ HashTbl.getBucket (tbl.keys n) = i
    rcases (tbl.mem_setBucket_cons hperm).mp hn with ⟨rfl, rfl⟩ | hn
    · exact ⟨hkey, rfl⟩
    · exact h.home i n hn
  · have hnodup : l.Nodup :=
      hperm.nodup_iff.mpr (List.nodup_cons.mpr ⟨fun hmem => hnode ⟨_, hmem⟩, h.nodup _⟩)
    exact tbl.nodup_setBucket h.nodup hnodup i
  · replace hsame : SameButSource (tbl.keys n) (tbl.keys m) := hsame
    rw [tbl.mem_setBucket_cons hperm] at hn hm
    rcases hn with ⟨rfl, hi⟩ | hn' <;> rcases hm with ⟨rfl, hi'⟩ | hm'
    · rfl
    · exact absurd hsame (hapart i m hm' hi)
    · exact absurd hsame.symm (hapart i n hn' hi')
    · exact h.apart i n hn' m hm' hsame

/-- The node of a flow is unlinked. -/
theorem unlink (h : Represents tbl flows) {n : Nat} (hn : flows key.flow = some n) :
    Represents (tbl.setBucket (HashTbl.getBucket key)
        ((tbl.buckets (HashTbl.getBucket key)).erase n))
      (Function.update flows key.flow none) := by
  obtain ⟨hmem, hflow⟩ := h.mem_of_flow hn
  -- the node is in the bucket of its key only
  have honly : ∀ i, n ∈ tbl.buckets i → i = HashTbl.getBucket key := fun i hi =>
    (h.home i n hi).2.symm.trans (getBucket_of_flow hflow)
  have hiff : ∀ i m, m ∈ (tbl.setBucket (HashTbl.getBucket key)
      ((tbl.buckets (HashTbl.getBucket key)).erase n)).buckets i ↔ m ≠ n ∧ m ∈ tbl.buckets i :=
    fun _ _ => tbl.mem_setBucket_erase (h.nodup _) honly
  refine ⟨fun flow m => ?_, fun i m hm => h.home i m ((hiff i m).mp hm).2,
    tbl.nodup_setBucket h.nodup ((h.nodup _).erase n),
    fun i m hm p hp => h.apart i m ((hiff i m).mp hm).2 p ((hiff i p).mp hp).2⟩
  rw [tbl.linked_setBucket_erase (h.nodup _) honly]
  show _ ↔ _ ∧ (tbl.keys m).flow = flow
  by_cases hf : flow = key.flow
  · subst hf
    rw [Function.update_self]
    refine iff_of_false nofun fun ⟨⟨hne, hm⟩, hsame⟩ => hne ?_
    have hsome := (h.nodes _ m).mpr ⟨hm, hsame⟩
    exact Option.some.inj (hsome.symm.trans hn)
  · rw [Function.update_of_ne hf, h.nodes]
    constructor
    · rintro ⟨hm, rfl⟩
      refine ⟨⟨?_, hm⟩, rfl⟩
      rintro rfl
      exact hf hflow
    · exact fun ⟨⟨_, hm⟩, hsame⟩ => ⟨hm, hsame⟩

end Represents

/-! ## Runs -/

/-- The invariant of the runs all of whose operations meet the condition. -/
structure Tabled (st : FlowState bucketCnt) : Prop where
  results : st.results = st.expected
  table : Represents st.tbl st.flows

namespace Tabled
variable {st st' : FlowState bucketCnt} {node : Nat} {key : NxHostKey}

theorem mapped (h : Tabled st) : Mapped st := ⟨h.results, h.table.nodes⟩

omit [NeZero bucketCnt] in
theorem setKey_self : (st.setKey node key).keys node = key := Function.update_self ..

/-- The nodes of the bucket keep their keys. -/
theorem apart_setKey (hnode : ¬ st.tbl.Linked node) :
    Apart (st.setKey node key) key ↔ Apart st.tbl key := by
  refine forall₂_congr fun n hn => ?_
  have hne : n ≠ node := fun heq => hnode (heq ▸ ⟨_, hn⟩)
  rw [show (st.setKey node key).keys n = st.tbl.keys n from Function.update_of_ne hne ..]

theorem insert (h : Tabled st) (hkey : key.ipVersion = nxIpVersionV4)
    (hnode : ¬ st.tbl.Linked node) (hapart : Apart st.tbl key) :
    Tabled
      { tbl := ((st.setKey node key).nxHashTblInsert node).2
        flows := (st.flows.insert key.flow node).2
        results := st.results ++ [.insert ((st.setKey node key).nxHashTblInsert node).1]
        expected := st.expected ++ [.insert (st.flows.insert key.flow node).1] } := by
  have htable : Represents (st.setKey node key) st.flows := h.table.setKey hnode
  have hfind := htable.find_eq hkey ((apart_setKey hnode).mpr hapart)
  rcases (st.setKey node key).nxHashTblInsert_cases node with
    ⟨n, hn, heq⟩ | ⟨hn, l, hperm, heq⟩
  · rw [setKey_self] at hn
    have hflow : st.flows key.flow = some n := hfind.symm.trans hn
    rw [heq, FlowMap.insert, hflow, h.results]
    exact ⟨rfl, htable⟩
  · rw [setKey_self] at hn hperm heq
    have hflow : st.flows key.flow = none := hfind.symm.trans hn
    rw [heq, FlowMap.insert, hflow, h.results]
    exact ⟨rfl, htable.link hnode setKey_self hkey hn hperm⟩

theorem delete (h : Tabled st) (hkey : key.ipVersion = nxIpVersionV4)
    (hapart : Apart st.tbl key) :
    Tabled
      { tbl := (st.tbl.nxHashTblDelete key).2
        flows := (st.flows.delete key.flow).2
        results := st.results ++ [.node (st.tbl.nxHashTblDelete key).1]
        expected := st.expected ++ [.node (st.flows.delete key.flow).1] } := by
  have hfind := h.table.find_eq hkey hapart
  rcases st.tbl.nxHashTblDelete_cases key with ⟨hn, heq⟩ | ⟨n, hn, -, heq⟩
  · have hflow : st.flows key.flow = none := hfind.symm.trans hn
    rw [heq, FlowMap.delete, hflow, h.results]
    refine ⟨rfl, ?_⟩
    rw [show Function.update st.flows key.flow none = st.flows by
      rw [← hflow, Function.update_eq_self]]
    exact h.table
  · have hflow : st.flows key.flow = some n := hfind.symm.trans hn
    rw [heq, FlowMap.delete, hflow, h.results]
    exact ⟨rfl, h.table.unlink hflow⟩

/-- **Every operation** that meets the condition. -/
theorem step (h : Tabled st) {op : TblOp} (hcond : Separate st op)
    (hstep : (flowMachine bucketCnt).next st op = some st') : Tabled st' := by
  replace hstep : st.step op = some st' := hstep
  cases op with
  | insert node key =>
    rw [FlowState.step] at hstep
    split at hstep
    · rename_i hop
      exact Option.some.inj hstep ▸ h.insert hop.1 hop.2 hcond
    · cases hstep
  | get key =>
    rw [FlowState.step] at hstep
    split at hstep
    · rename_i hkey
      obtain rfl := Option.some.inj hstep
      have hfind : st.tbl.nxHashTblGet key = st.flows key.flow := h.table.find_eq hkey hcond
      refine ⟨?_, h.table⟩
      rw [hfind, h.results]
    · cases hstep
  | delete key =>
    rw [FlowState.step] at hstep
    split at hstep
    · rename_i hkey
      exact Option.some.inj hstep ▸ h.delete hkey hcond
    · cases hstep

/-- An operation whose key is mixed up with another's returns what it is not to. -/
theorem needs (h : Tabled st) {op : TblOp} (hstep : (flowMachine bucketCnt).next st op = some st')
    (h' : Mapped st') : Separate st op := by
  by_contra hmixed
  have hlast : ∀ r r' : TblResult, st.results ++ [r] = st.expected ++ [r'] → r = r' := by
    intro r r' heq
    rw [h.results] at heq
    exact List.singleton_inj.mp (List.append_cancel_left heq)
  replace hstep : st.step op = some st' := hstep
  cases op with
  | insert node key =>
    rw [FlowState.step] at hstep
    split at hstep
    · rename_i hop
      obtain rfl := Option.some.inj hstep
      have htable : Represents (st.setKey node key) st.flows := h.table.setKey hop.2
      obtain ⟨⟨n, hn⟩, hnone⟩ :=
        htable.find_other hop.1 fun hapart => hmixed ((apart_setKey hop.2).mp hapart)
      have hsame := hlast _ _ h'.results
      -- the table has the key, and the map has not
      rcases (st.setKey node key).nxHashTblInsert_cases node with ⟨m, -, heq⟩ | ⟨hno, -⟩
      · rw [heq, FlowMap.insert, hnone] at hsame
        cases hsame
      · rw [setKey_self] at hno
        exact nomatch hno.symm.trans hn
    · cases hstep
  | get key =>
    rw [FlowState.step] at hstep
    split at hstep
    · rename_i hkey
      obtain rfl := Option.some.inj hstep
      obtain ⟨⟨n, hn⟩, hnone⟩ := h.table.find_other hkey hmixed
      have hsame := hlast _ _ h'.results
      rw [HashTbl.nxHashTblGet, hn, hnone] at hsame
      cases hsame
    · cases hstep
  | delete key =>
    rw [FlowState.step] at hstep
    split at hstep
    · rename_i hkey
      obtain rfl := Option.some.inj hstep
      obtain ⟨⟨n, hn⟩, hnone⟩ := h.table.find_other hkey hmixed
      have hsame := hlast _ _ h'.results
      rcases st.tbl.nxHashTblDelete_cases key with ⟨hno, -⟩ | ⟨m, -, -, heq⟩
      · exact nomatch hno.symm.trans hn
      · rw [heq, FlowMap.delete, hnone] at hsame
        cases hsame
    · cases hstep

theorem init : Tabled (initialFlows bucketCnt) := by
  have hempty : ∀ n, ¬ (initialFlows bucketCnt).tbl.Linked n := by
    rintro n ⟨i, hi⟩
    exact absurd hi List.not_mem_nil
  refine ⟨rfl, fun flow n => ?_, fun i n hn => ?_, fun i => List.nodup_nil, fun i n hn => ?_⟩
  · exact iff_of_false nofun fun hn => hempty n hn.1
  · exact absurd hn List.not_mem_nil
  · exact absurd hn List.not_mem_nil

end Tabled

/-- **The table is a map of flows** throughout a run just if no operation has a key whose bucket
holds a node that differs from it in the source address only.  The number of buckets, the keys and
the order of the operations are arbitrary. -/
theorem mapped_iff {l : List TblOp} {st : FlowState bucketCnt}
    (h : (flowMachine bucketCnt).run (initialFlows bucketCnt) l = some st) :
    (∀ u, (flowMachine bucketCnt).Visits (initialFlows bucketCnt) l u → Mapped u) ↔
      ∀ u op, (flowMachine bucketCnt).Takes (initialFlows bucketCnt) l u op → Separate u op :=
  Machine.visits_iff_takes (K := Tabled) (fun _ hK => hK.mapped)
    (fun _ _ _ hK hP hn => hK.step hP hn) (fun _ _ _ hK hn hI => hK.needs hn hI) Tabled.init h

end

/-- A flow to a web server. -/
def webKey (saddr : BitVec 32) (sport : BitVec 16) : NxHostKey :=
  ⟨nxIpVersionV4, fun _ => 0xc0a80001, fun _ => saddr, sport, 80⟩

/-- Flows from two hosts in different buckets, and two from one host in the same. -/
def mixedOps : List TblOp :=
  [.insert 0 (webKey 0x0a000001 1024), .insert 1 (webKey 0x0a000002 1024),
    .insert 2 (webKey 0x0a000001 1056), .insert 3 (webKey 0x0a000001 1024),
    .delete (webKey 0x0a000001 1024), .get (webKey 0x0a000002 1024),
    .get (webKey 0x0a000001 1024)]

/-- All of them are kept apart, and one that is inserted again is found to exist. -/
theorem mapped_iff_mixed :
    ∃ st, (flowMachine 32).run (initialFlows 32) mixedOps = some st ∧
      st.results = [.insert .inserted, .insert .inserted, .insert .inserted, .insert .exists,
        .node (some 0), .node (some 1), .node none] ∧
      ∀ u, (flowMachine 32).Visits (initialFlows 32) mixedOps u → Mapped u := by
  have hrun : (((flowMachine 32).guard Separate).run (initialFlows 32) mixedOps).map
      (fun st => st.results) = some [.insert .inserted, .insert .inserted, .insert .inserted,
        .insert .exists, .node (some 0), .node (some 1), .node none] := by
    decide +kernel
  obtain ⟨st, hst, hresults⟩ := Option.map_eq_some_iff.mp hrun
  have hst' := Machine.run_of_guard hst
  exact ⟨st, hst', hresults, (mapped_iff hst').mpr fun _ _ ht => Machine.takes_of_guard hst ht⟩

/-- A flow from another host, in the same bucket, is taken for the first one. -/
theorem source_ignored :
    ∃ st, (flowMachine 32).run (initialFlows 32)
        [.insert 0 (webKey 0x0a000001 1024), .insert 1 (webKey 0x0a000021 1024),
          .delete (webKey 0x0a000021 1024)] = some st ∧
      ¬ Mapped st ∧ st.results = [.insert .inserted, .insert .exists, .node (some 0)] ∧
      st.expected = [.insert .inserted, .insert .inserted, .node (some 1)] := by
  have hrun : ((flowMachine 32).run (initialFlows 32)
      [.insert 0 (webKey 0x0a000001 1024), .insert 1 (webKey 0x0a000021 1024),
        .delete (webKey 0x0a000021 1024)]).map (fun st => (st.results, st.expected)) =
      some ([.insert .inserted, .insert .exists, .node (some 0)],
        [.insert .inserted, .insert .inserted, .node (some 1)]) := by
    decide +kernel
  obtain ⟨st, hst, h⟩ := Option.map_eq_some_iff.mp hrun
  obtain ⟨hresults, hexpected⟩ := Prod.mk.inj h
  refine ⟨st, hst, fun hgood => ?_, hresults, hexpected⟩
  have heq := hgood.results
  rw [hresults, hexpected] at heq
  exact absurd heq (by decide)

end Lro
end NxNic

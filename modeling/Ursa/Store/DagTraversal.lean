/-
# Store.DagTraversal — the traversal is exact, for every order of the pending set

`dagTraversal` is a worklist search whose visit reads, checks and decodes a stored
block.  On a finite store the search ends (`dagTraversal_ne_diverge`); it succeeds
exactly on complete DAGs and then returns the DAG (`dagTraversal_ok_iff`,
`dagTraversal_dagOf`); anything else is an error or a panic, never a wrong list.

A block that is missing or undecodable is an error; one that `Block::new` refuses is
unwrapped and panics.  So on blocks that all pass, the traversal is exact
(`dagTraversal_exact`), and one reachable block that does not pass panics in some order of
the pending set (`bad_blocks_are_reported_iff`).

The loop of `missing_blocks` keeps no visited set.  What is used of it here is one
direction: if it ends with nothing missing, everything reachable is stored
(`DagPresent.of_missingBlocks`).
-/
import Ursa.Store.Store
import Ursa.DagCbor
import Mathlib.Algebra.Order.BigOperators.Group.Finset

namespace Ursa

set_option autoImplicit false

open Ursa.Theory (Outcome)
open Ursa.Theory.Worklist (search search_ok search_fails search_succeeds search_terminates
  search_add search_mono inv_start expand fanout Found FailsWith exists_failing_order)

variable {B : Blocks} {s : Store} {root cid : Cid} {order : Nat → List Cid → Nat}

/-! ## One visit -/

theorem visitBlock_ok {entry : (Cid × Bytes) × List Cid}
    (visits : visitBlock B s root cid = .ok entry) :
    entry.1.1 = cid ∧ s.get cid = some entry.1.2 ∧ B.new cid entry.1.2 = true ∧
      B.references cid entry.1.2 = some entry.2 := by
  simp only [visitBlock, convertCid_toBytes] at visits
  split at visits
  · rename_i data found
    split at visits
    · rename_i accepted
      split at visits
      · rename_i refs decoded
        cases visits
        exact ⟨rfl, found, accepted, decoded⟩
      · cases visits
    · cases visits
  · cases visits

variable (root) in
theorem visitBlock_of_valid (valid : Valid B s cid) :
    ∃ data refs, visitBlock B s root cid = .ok ((cid, data), refs) := by
  obtain ⟨data, refs, found, accepted, decoded⟩ := valid
  exact ⟨data, refs, by simp [visitBlock, found, accepted, decoded]⟩

theorem valid_of_visitBlock {entry : (Cid × Bytes) × List Cid}
    (visits : visitBlock B s root cid = .ok entry) : Valid B s cid := by
  obtain ⟨-, found, accepted, decoded⟩ := visitBlock_ok visits
  exact ⟨_, _, found, accepted, decoded⟩

theorem visitBlock_ne_diverge : visitBlock B s root cid ≠ .diverge := by
  unfold visitBlock
  repeat' split
  all_goals simp

/-- A visit panics exactly on a stored block that `Block::new` refuses. -/
theorem visitBlock_panic {m : String} (panics : visitBlock B s root cid = .panic m) :
    ∃ data, s.get cid = some data ∧ B.new cid data = false := by
  simp only [visitBlock, convertCid_toBytes] at panics
  split at panics
  · rename_i data found
    split at panics
    · split at panics <;> cases panics
    · rename_i refused
      exact ⟨data, found, by simpa using refused⟩
  · cases panics

variable (root) in
theorem visitBlock_of_refused {data : Bytes} (found : s.get cid = some data)
    (refused : B.new cid data = false) : ∃ m, visitBlock B s root cid = .panic m := by
  refine ⟨"called `Result::unwrap()` on an `Err` value", ?_⟩
  simp [visitBlock, found, refused]

/-- Where a visit succeeds, the search expands a block to exactly its links. -/
theorem expand_visitBlock_of_valid (valid : Valid B s cid) :
    expand (visitBlock B s root) cid = links B s cid := by
  obtain ⟨data, refs, visits⟩ := visitBlock_of_valid root valid
  obtain ⟨-, found, -, decoded⟩ := visitBlock_ok visits
  simp only [expand, visits, links, found]
  exact decoded.symm

theorem links_of_expand {refs : List Cid} (expands : expand (visitBlock B s root) cid = some refs) :
    links B s cid = some refs := by
  unfold expand at expands
  split at expands
  · rename_i entry visits
    cases expands
    obtain ⟨-, found, -, decoded⟩ := visitBlock_ok visits
    simp [links, found, decoded]
  · cases expands

/-- What the search can reach is reachable through stored, decodable blocks. -/
theorem reach_of_search_reach
    (reach : Theory.Worklist.Reach (expand (visitBlock B s root)) root cid) :
    Reach B s root cid := by
  refine Relation.ReflTransGen.mono ?_ _ _ reach
  rintro a b ⟨refs, expands, member⟩
  exact ⟨refs, links_of_expand expands, member⟩

/-! ## The traversal -/

theorem dagTraversal_ne_diverge : dagTraversal B order s root ≠ .diverge := by
  refine search_terminates s.cids.toFinset ?_ (fun _ => visitBlock_ne_diverge) ?_
  · intro v entry visits
    exact List.mem_toFinset.mpr (Store.mem_cids (visitBlock_ok visits).2.1)
  · have all : s.cids.toFinset.filter (· ∉ ([] : List Cid)) = s.cids.toFinset := by simp
    have total := List.sum_toFinset (fanout (visitBlock B s root)) s.nodup_cids
    rw [all, total]
    simp only [dagFuel, List.length_singleton]
    omega

variable (order) in
/-- Any number of turns from the bound on gives the same. -/
theorem search_eq_dagTraversal {fuel : Nat} (enough : dagFuel B s root ≤ fuel) :
    search (visitBlock B s root) order fuel 0 [convertCid root.toBytes] [] [] =
      dagTraversal B order s root := by
  obtain ⟨more, rfl⟩ := Nat.exists_eq_add_of_le enough
  exact search_add dagTraversal_ne_diverge more

/-- The visits of a search, in order, are the CIDs of what it returns. -/
theorem cids_of_visits {seen : List Cid} {dag : List (Cid × Bytes)}
    (visits : List.Forall₂ (fun v e => ∃ links, visitBlock B s root v = .ok (e, links)) seen dag) :
    dag.map Prod.fst = seen ∧ (∀ e ∈ dag, s.get e.1 = some e.2) ∧ ∀ v ∈ seen, Valid B s v := by
  induction visits with
  | nil => simp
  | cons visit _ ih =>
      obtain ⟨links, visit⟩ := visit
      obtain ⟨own, found, -, -⟩ := visitBlock_ok visit
      simp only at own found
      refine ⟨by rw [List.map_cons, own, ih.1], ?_, ?_⟩
      · refine List.forall_mem_cons.mpr ⟨?_, ih.2.1⟩
        rw [own]
        exact found
      · exact List.forall_mem_cons.mpr ⟨valid_of_visitBlock visit, ih.2.2⟩

/-- What a search of the blocks has found is the DAG, and the DAG is complete. -/
theorem dagOf_of_found {v₀ : Cid} {seen : List Cid} {dag : List (Cid × Bytes)}
    (found : Found (visitBlock B s v₀) root seen dag) : Complete B s root ∧ DagOf B s root dag := by
  obtain ⟨cids, stored, valid⟩ := cids_of_visits found.entries
  have same : ∀ v, Reach B s root v ↔ v ∈ seen := by
    intro v
    rw [found.mem_iff]
    apply Theory.Worklist.Reach.congr
    intro w reach
    exact (expand_visitBlock_of_valid (valid w ((found.mem_iff w).mpr reach))).symm
  refine ⟨fun v reach => valid v ((same v).mp reach), ?_⟩
  refine ⟨by rw [cids]; exact found.nodup, ?_, stored, by rw [cids]; exact found.head⟩
  intro v
  rw [cids, same]

/-- A traversal that succeeds returns the DAG, and the DAG is complete. -/
theorem dagTraversal_dagOf {dag : List (Cid × Bytes)}
    (ends : dagTraversal B order s root = .ok dag) : Complete B s root ∧ DagOf B s root dag := by
  obtain ⟨seen, found⟩ := search_ok (inv_start root) ends
  exact dagOf_of_found found

variable (order) in
/-- **The traversal succeeds exactly on complete DAGs**, whatever the order. -/
theorem dagTraversal_ok_iff :
    (∃ dag, dagTraversal B order s root = .ok dag) ↔ Complete B s root := by
  refine ⟨fun ⟨_, ends⟩ => (dagTraversal_dagOf ends).1, ?_⟩
  intro complete
  refine search_succeeds (inv_start root) ?_ dagTraversal_ne_diverge
  intro v reach
  obtain ⟨data, refs, visits⟩ := visitBlock_of_valid root (complete v (reach_of_search_reach reach))
  exact ⟨_, visits⟩

variable (order) in
/-- On an incomplete DAG the caller of the traversal gets an error or is gone. -/
theorem dagTraversal_stops_iff :
    (dagTraversal B order s root).Stops ↔ ¬ Complete B s root := by
  constructor
  · intro stops complete
    obtain ⟨dag, ends⟩ := (dagTraversal_ok_iff order).mpr complete
    rw [ends] at stops
    exact Outcome.stops_ok dag stops
  intro incomplete
  cases ends : dagTraversal B order s root with
  | ok dag => exact absurd (dagTraversal_dagOf ends).1 incomplete
  | diverge => exact absurd ends dagTraversal_ne_diverge
  | err e => trivial
  | panic m => trivial

/-! ## A database whose reads can fail -/

section Faults

variable {fault : Cid → Option String}

theorem readBlock_ok {entry : (Cid × Bytes) × List Cid}
    (reads : readBlock B fault s root cid = .ok entry) :
    fault cid = none ∧ visitBlock B s root cid = .ok entry := by
  unfold readBlock at reads
  split at reads
  · cases reads
  · rename_i answered
    exact ⟨answered, reads⟩

theorem fanout_readBlock_le (v : Cid) :
    fanout (readBlock B fault s root) v ≤ fanout (visitBlock B s root) v := by
  unfold fanout expand readBlock
  cases fault v with
  | none => exact Nat.le_refl _
  | some reason => exact Nat.zero_le _

theorem dagTraversalOn_ne_diverge : dagTraversalOn B fault order s root ≠ .diverge := by
  refine search_terminates s.cids.toFinset ?_ ?_ ?_
  · intro v entry reads
    exact List.mem_toFinset.mpr (Store.mem_cids (visitBlock_ok (readBlock_ok reads).2).2.1)
  · intro v
    unfold readBlock
    split
    · simp
    · exact visitBlock_ne_diverge
  · have all : s.cids.toFinset.filter (· ∉ ([] : List Cid)) = s.cids.toFinset := by simp
    have fewer : ∑ v ∈ s.cids.toFinset, fanout (readBlock B fault s root) v ≤
        ∑ v ∈ s.cids.toFinset, fanout (visitBlock B s root) v :=
      Finset.sum_le_sum fun v _ => fanout_readBlock_le v
    have total := List.sum_toFinset (fanout (visitBlock B s root)) s.nodup_cids
    rw [total] at fewer
    rw [all]
    simp only [dagFuel, List.length_singleton]
    omega

/-- **A traversal on a database that can fail** returns what a traversal returns, if no read
of the DAG fails. -/
theorem dagTraversalOn_ok_iff {dag : List (Cid × Bytes)} :
    dagTraversalOn B fault order s root = .ok dag ↔
      dagTraversal B order s root = .ok dag ∧ ∀ cid, Reach B s root cid → fault cid = none := by
  constructor
  · intro ends
    obtain ⟨seen, read⟩ := search_ok (inv_start root) ends
    have found : Found (visitBlock B s root) root seen dag :=
      read.mono fun _ _ reads => (readBlock_ok reads).2
    refine ⟨search_mono (fun _ _ reads => (readBlock_ok reads).2) ends, ?_⟩
    intro cid reach
    have listed := ((dagOf_of_found found).2.mem_iff cid).mpr reach
    rw [(cids_of_visits found.entries).1] at listed
    obtain ⟨entry, reads⟩ := read.visit_ok listed
    exact (readBlock_ok reads).1
  · rintro ⟨ends, answered⟩
    obtain ⟨complete, -⟩ := dagTraversal_dagOf ends
    obtain ⟨dag', ends'⟩ : ∃ dag', dagTraversalOn B fault order s root = .ok dag' := by
      refine search_succeeds (inv_start root) ?_ dagTraversalOn_ne_diverge
      intro v reach
      have inDag : Reach B s root v :=
        reach_of_search_reach (reach.of_agree fun _ _ reads => (readBlock_ok reads).2)
      obtain ⟨data, refs, visits⟩ := visitBlock_of_valid root (complete v inDag)
      exact ⟨_, by rw [readBlock, answered v inDag, visits]⟩
    have same := search_mono (fun _ _ reads => (readBlock_ok reads).2) ends'
    exact ends'.trans (same.symm.trans ends)

end Faults

/-! ## An executable instance -/

/-! A block with two links to one other block. -/

/-- A version 1 CID of DAG-CBOR with a sha2-256 digest. -/
def sha256Cid (digest : Bytes) : Cid := ⟨[0x01, 0x71, 0x12, 0x20] ++ digest⟩

def twinLeaf : Cid × Bytes :=
  (sha256Cid [0xd2, 0x29, 0x6f, 0x6e, 0x1c, 0x51, 0x76, 0x82, 0x85, 0x46, 0x91, 0x1f, 0x23, 0xfc,
      0x61, 0xea, 0x80, 0xf6, 0xb1, 0x5f, 0x33, 0x14, 0x80, 0x9f, 0x3a, 0x09, 0x9d, 0x00,
      0x36, 0x77, 0x12, 0xca],
    (DagCbor.toVec (.string "leaf")).toOption.getD [])

def twinRoot : Cid × Bytes :=
  (sha256Cid [0xb4, 0xbe, 0x2b, 0x5e, 0xf8, 0xb6, 0xa5, 0x52, 0x01, 0x85, 0x58, 0x0c, 0xc5, 0x5d,
      0xe0, 0x56, 0x0f, 0x0d, 0x77, 0x34, 0xd7, 0xc3, 0x78, 0x87, 0xe2, 0x8d, 0x87, 0x28,
      0x35, 0x9c, 0xe2, 0x3d],
    (DagCbor.toVec (.list [.link twinLeaf.1, .link twinLeaf.1])).toOption.getD [])

/-- Blocks of DAG-CBOR.  The hash function is a table of the blocks of the samples. -/
def plainBlocks : Blocks where
  new cid data := (cid, data) ∈ [twinRoot, twinLeaf]
  references _ data := (DagCbor.fromSlice data).toOption.map DagCbor.references

def twinStore : Store := (Store.empty.put twinLeaf.1 twinLeaf.2).put twinRoot.1 twinRoot.2

theorem twinStore_get {cid : Cid} {data : Bytes} (found : twinStore.get cid = some data) :
    (cid = twinRoot.1 ∧ data = twinRoot.2) ∨ (cid = twinLeaf.1 ∧ data = twinLeaf.2) := by
  rcases Store.get_put_cases found with new | found
  · exact .inl new
  · rcases Store.get_put_cases found with new | found
    · exact .inr new
    · cases found

theorem twinRoot_references :
    plainBlocks.references twinRoot.1 twinRoot.2 = some [twinLeaf.1, twinLeaf.1] := by
  decide +kernel

theorem twinLeaf_references : plainBlocks.references twinLeaf.1 twinLeaf.2 = some [] := by
  decide +kernel

theorem twinStore_valid {cid : Cid} {data : Bytes} (found : twinStore.get cid = some data) :
    plainBlocks.new cid data = true ∧ ∃ refs, plainBlocks.references cid data = some refs := by
  rcases twinStore_get found with ⟨rfl, rfl⟩ | ⟨rfl, rfl⟩
  · exact ⟨by decide +kernel, _, twinRoot_references⟩
  · exact ⟨by decide +kernel, _, twinLeaf_references⟩

/-! ## Blocks that pass and blocks that do not -/

/-- Every reachable block that is stored passes `Block::new` and can be decoded. -/
def ReachableValid (B : Blocks) (s : Store) (root : Cid) : Prop :=
  ∀ cid data, Reach B s root cid → s.get cid = some data →
    B.new cid data = true ∧ ∃ refs, B.references cid data = some refs

/-- Where every reachable block is valid, a DAG is complete as soon as it is present. -/
theorem complete_iff_dagPresent (valid : ReachableValid B s root) :
    Complete B s root ↔ DagPresent B s root := by
  constructor
  · intro complete cid reach
    obtain ⟨data, refs, stored, -⟩ := complete cid reach
    exact (s.contains_iff cid).mpr ⟨data, stored⟩
  · intro present cid reach
    obtain ⟨data, stored⟩ := (s.contains_iff cid).mp (present cid reach)
    obtain ⟨accepted, refs, decoded⟩ := valid cid data reach stored
    exact ⟨data, refs, stored, accepted, decoded⟩

/-- A traversal that panics met a reachable block that `Block::new` refuses. -/
theorem refused_of_panic {m : String} (panics : dagTraversal B order s root = .panic m) :
    ∃ cid data, Reach B s root cid ∧ s.get cid = some data ∧ B.new cid data = false := by
  obtain ⟨cid, reach, visit⟩ := (search_fails (inv_start root)).2 m panics
  obtain ⟨data, found, refused⟩ := visitBlock_panic visit
  exact ⟨cid, data, reach_of_search_reach reach, found, refused⟩

/-- On the way to a reachable block the search gets there, or meets one that panics. -/
theorem search_reach_or_panic (reach : Reach B s root cid) :
    (∃ bad m, Theory.Worklist.Reach (expand (visitBlock B s root)) root bad ∧
      visitBlock B s root bad = .panic m) ∨
    Theory.Worklist.Reach (expand (visitBlock B s root)) root cid := by
  induction reach with
  | refl => exact .inr .refl
  | @tail a b _ edge ih =>
      rcases ih with panics | there
      · exact .inl panics
      · obtain ⟨refs, linked, member⟩ := edge
        obtain ⟨data, found, decoded⟩ := Option.bind_eq_some_iff.mp linked
        cases accepted : B.new a data with
        | false =>
            obtain ⟨m, panics⟩ := visitBlock_of_refused root found accepted
            exact .inl ⟨a, m, there, panics⟩
        | true =>
            have valid : Valid B s a := ⟨data, refs, found, accepted, decoded⟩
            have expands : expand (visitBlock B s root) a = links B s a :=
              expand_visitBlock_of_valid valid
            exact .inr (there.tail ⟨refs, expands.trans linked, member⟩)

/-- What a visit that can be reached fails with, the traversal fails with in some order. -/
theorem exists_order_fails {bad : Cid} {out : Outcome DagError (List (Cid × Bytes))}
    (there : Theory.Worklist.Reach (expand (visitBlock B s root)) root bad)
    (fails : FailsWith (visitBlock B s root) bad out) :
    ∃ order, dagTraversal B order s root = out := by
  obtain ⟨order, enough, ends⟩ := exists_failing_order there fails
  refine ⟨order, ?_⟩
  rw [← search_eq_dagTraversal order (Nat.le_max_left (dagFuel B s root) enough)]
  exact ends _ (Nat.le_max_right _ _)

/-- A reachable block that is refused panics in some order of the pending set. -/
theorem exists_order_panics {data : Bytes} (reach : Reach B s root cid)
    (found : s.get cid = some data) (refused : B.new cid data = false) :
    ∃ order m, dagTraversal B order s root = .panic m := by
  have panics : ∃ bad m, Theory.Worklist.Reach (expand (visitBlock B s root)) root bad ∧
      visitBlock B s root bad = .panic m := by
    rcases search_reach_or_panic reach with panics | there
    · exact panics
    · obtain ⟨m, visit⟩ := visitBlock_of_refused root found refused
      exact ⟨cid, m, there, visit⟩
  obtain ⟨bad, m, there, visit⟩ := panics
  obtain ⟨order, ends⟩ := exists_order_fails there (.inr ⟨m, visit, rfl⟩)
  exact ⟨order, m, ends⟩

/-- What is asked of a traversal: it returns, and only blocks that pass. -/
structure ReportsBadBlocks (B : Blocks) (order : Nat → List Cid → Nat) (s : Store) (root : Cid) :
    Prop where
  returns : (∃ dag, dagTraversal B order s root = .ok dag) ∨
    ∃ e, dagTraversal B order s root = .err e
  passed : ∀ dag, dagTraversal B order s root = .ok dag → ∀ e ∈ dag, B.new e.1 e.2 = true

/-- **When bad blocks are reported.**  The traversal returns `Ok` or `Err` in every order,
and `Ok` only of blocks that pass `Block::new`, exactly if every block that is stored and
reachable passes it. -/
theorem bad_blocks_are_reported_iff (B : Blocks) (s : Store) (root : Cid) :
    (∀ order, ReportsBadBlocks B order s root) ↔
      ∀ cid data, Reach B s root cid → s.get cid = some data → B.new cid data = true := by
  constructor
  · intro reports cid data reach found
    by_contra refused
    obtain ⟨order, m, panics⟩ := exists_order_panics reach found (by simpa using refused)
    rcases (reports order).returns with ⟨dag, ok⟩ | ⟨e, err⟩
    · simp [panics] at ok
    · simp [panics] at err
  · intro pass order
    constructor
    · cases ends : dagTraversal B order s root with
      | ok dag => exact .inl ⟨dag, rfl⟩
      | err e => exact .inr ⟨e, rfl⟩
      | diverge => exact absurd ends dagTraversal_ne_diverge
      | panic m =>
          obtain ⟨cid, data, reach, found, refused⟩ := refused_of_panic ends
          simp [pass cid data reach found] at refused
    · intro dag ends e member
      obtain ⟨-, dagOf⟩ := dagTraversal_dagOf ends
      exact pass e.1 e.2 ((dagOf.mem_iff e.1).mp (List.mem_map_of_mem member)) (dagOf.stored e member)

/-- A block stored under the CID of another one. -/
theorem refused_block_panics :
    dagTraversal plainBlocks (fun _ _ => 0) (Store.empty.put twinRoot.1 twinLeaf.2) twinRoot.1 =
        .panic "called `Result::unwrap()` on an `Err` value" ∧
      ¬ ReportsBadBlocks plainBlocks (fun _ _ => 0) (Store.empty.put twinRoot.1 twinLeaf.2)
        twinRoot.1 := by
  have panics : dagTraversal plainBlocks (fun _ _ => 0) (Store.empty.put twinRoot.1 twinLeaf.2)
      twinRoot.1 = .panic "called `Result::unwrap()` on an `Err` value" := by decide +kernel
  refine ⟨panics, ?_⟩
  intro reports
  rcases reports.returns with ⟨dag, ok⟩ | ⟨e, err⟩
  · simp [panics] at ok
  · simp [panics] at err

/-! ## Errors -/

/-- The links of a stored block that passes `Block::new`: what the traversal goes along. -/
def checkedLinks (B : Blocks) (s : Store) (cid : Cid) : Option (List Cid) :=
  (s.get cid).bind fun data => if B.new cid data then B.references cid data else none

/-- A visit is an error: the block is missing, or it passes and cannot be decoded. -/
def Unreadable (B : Blocks) (s : Store) (cid : Cid) : Prop :=
  s.get cid = none ∨ ∃ data, s.get cid = some data ∧ B.new cid data = true ∧ B.references cid data = none

theorem expand_visitBlock (B : Blocks) (s : Store) (root : Cid) :
    expand (visitBlock B s root) = checkedLinks B s := by
  funext cid
  simp only [expand, visitBlock, checkedLinks, convertCid_toBytes]
  cases s.get cid with
  | none => rfl
  | some data =>
      cases accepted : B.new cid data with
      | false => simp [accepted]
      | true => cases decoded : B.references cid data <;> simp [accepted, decoded]

theorem visitBlock_err_iff (B : Blocks) (s : Store) (root cid : Cid) :
    (∃ e, visitBlock B s root cid = .err e) ↔ Unreadable B s cid := by
  simp only [visitBlock, Unreadable, convertCid_toBytes]
  cases s.get cid with
  | none => simp
  | some data =>
      cases accepted : B.new cid data with
      | false => simp [accepted]
      | true => cases decoded : B.references cid data <;> simp [accepted, decoded]

/-- The traversal returns an error in some order of the pending set exactly if it can come to
a block that is missing or undecodable. -/
theorem dagTraversal_err_iff (B : Blocks) (s : Store) (root : Cid) :
    (∃ order e, dagTraversal B order s root = .err e) ↔
      ∃ cid, Theory.Worklist.Reach (checkedLinks B s) root cid ∧ Unreadable B s cid := by
  rw [← expand_visitBlock B s root]
  constructor
  · rintro ⟨order, e, fails⟩
    obtain ⟨cid, reach, visit⟩ := (search_fails (inv_start root)).1 e fails
    exact ⟨cid, reach, (visitBlock_err_iff B s root cid).mp ⟨e, visit⟩⟩
  · rintro ⟨cid, reach, unreadable⟩
    obtain ⟨e, visit⟩ := (visitBlock_err_iff B s root cid).mpr unreadable
    obtain ⟨order, ends⟩ := exists_order_fails reach (.inl ⟨e, visit, rfl⟩)
    exact ⟨order, e, ends⟩

/-- **The traversal is exact**, whatever the order of the pending set and the shape of the
graph.  Where the reachable blocks that are stored pass `Block::new` and can be decoded, it
ends after a bounded number of turns; it returns the DAG exactly if the DAG is there, and
an error otherwise. -/
theorem dagTraversal_exact (B : Blocks) (s : Store) (root : Cid)
    (valid : ReachableValid B s root) (order : Nat → List Cid → Nat) :
    (∃ turns, ∀ fuel, turns ≤ fuel →
      search (visitBlock B s root) order fuel 0 [convertCid root.toBytes] [] [] =
        dagTraversal B order s root) ∧
    dagTraversal B order s root ≠ .diverge ∧
    ((∃ dag, dagTraversal B order s root = .ok dag) ↔ DagPresent B s root) ∧
    (∀ dag, dagTraversal B order s root = .ok dag → DagOf B s root dag) ∧
    (¬ DagPresent B s root → ∃ e, dagTraversal B order s root = .err e) := by
  have succeeds : (∃ dag, dagTraversal B order s root = .ok dag) ↔ DagPresent B s root := by
    rw [dagTraversal_ok_iff, complete_iff_dagPresent valid]
  refine ⟨⟨dagFuel B s root, fun fuel => search_eq_dagTraversal order⟩, dagTraversal_ne_diverge,
    succeeds, fun dag ends => (dagTraversal_dagOf ends).2, ?_⟩
  intro incomplete
  cases ends : dagTraversal B order s root with
  | ok dag => exact absurd (succeeds.mp ⟨dag, ends⟩) incomplete
  | err e => exact ⟨e, rfl⟩
  | diverge => exact absurd ends dagTraversal_ne_diverge
  | panic m =>
      obtain ⟨cid, data, reach, found, refused⟩ := refused_of_panic ends
      simp [(valid cid data reach found).1] at refused

/-- The block that is linked twice is listed once. -/
theorem dagTraversal_exact_twin :
    dagTraversal plainBlocks (fun _ _ => 0) twinStore twinRoot.1 = .ok [twinRoot, twinLeaf] ∧
      DagOf plainBlocks twinStore twinRoot.1 [twinRoot, twinLeaf] := by
  have ends : dagTraversal plainBlocks (fun _ _ => 0) twinStore twinRoot.1 =
      .ok [twinRoot, twinLeaf] := by decide +kernel
  have valid : ReachableValid plainBlocks twinStore twinRoot.1 :=
    fun _ _ _ found => twinStore_valid found
  exact ⟨ends, (dagTraversal_exact plainBlocks twinStore twinRoot.1 valid _).2.2.2.1 _ ends⟩

/-! ## The loop of `missing_blocks` -/

theorem mem_of_missingLoop {fuel : Nat} {stack missing out : List Cid}
    (ends : missingLoop B s fuel stack missing = .ok out) :
    (∀ c ∈ missing, c ∈ out) ∧
      ∀ top ∈ stack, ∀ c, Reach B s top c → s.get c = none → c ∈ out := by
  induction fuel generalizing stack missing with
  | zero => cases ends
  | succ fuel ih =>
      cases stack with
      | nil =>
          cases ends
          simp
      | cons top stack =>
          simp only [missingLoop] at ends
          split at ends
          · rename_i data found
            split at ends
            · rename_i refs decoded
              obtain ⟨kept, pending⟩ := ih ends
              refine ⟨kept, List.forall_mem_cons.mpr ⟨fun c reach absent => ?_, ?_⟩⟩
              · rcases Relation.ReflTransGen.cases_head reach with rfl | ⟨next, edge, rest⟩
                · simp [found] at absent
                · obtain ⟨refs', linked, member⟩ := edge
                  obtain rfl : refs = refs' := by
                    simpa [links, found, decoded] using linked
                  exact pending next (by simp [member]) c rest absent
              · exact fun t member => pending t (by simp [member])
            · cases ends
          · rename_i absentTop
            obtain ⟨kept, pending⟩ := ih ends
            refine ⟨fun c member => kept c (by simp [member]), ?_⟩
            refine List.forall_mem_cons.mpr ⟨?_, pending⟩
            intro c reach absent
            rcases Relation.ReflTransGen.cases_head reach with rfl | ⟨next, edge, rest⟩
            · exact kept _ (by simp)
            · obtain ⟨refs', linked, member⟩ := edge
              simp [links, absentTop] at linked

/-- When `missing_blocks` reports nothing, everything reachable is stored. -/
theorem DagPresent.of_missingBlocks (nothing : MissingBlocks B s root []) : DagPresent B s root := by
  intro cid reach
  obtain ⟨fuel, ends⟩ := nothing
  rw [Store.contains_iff, ← Option.isSome_iff_exists, Option.isSome_iff_ne_none]
  intro absent
  exact absurd ((mem_of_missingLoop ends).2 root (by simp) cid reach absent) List.not_mem_nil

/-! ## Stores that agree on a DAG -/

/-- Two stores that hold the same under everything reachable have the same DAG. -/
theorem reach_of_agree {s' : Store} (agree : ∀ v, Reach B s root v → s'.get v = s.get v) (v : Cid) :
    Reach B s' root v ↔ Reach B s root v :=
  Theory.Worklist.Reach.congr (fun w reach => by simp only [links, agree w reach]) v

theorem Complete.of_agree {s' : Store} (complete : Complete B s root)
    (agree : ∀ v, Reach B s root v → s'.get v = s.get v) : Complete B s' root := by
  intro v reach
  have before := (reach_of_agree agree v).mp reach
  obtain ⟨data, refs, found, valid⟩ := complete v before
  exact ⟨data, refs, (agree v before).trans found, valid⟩

/-- The entries of a traversal are the reachable CIDs with what is stored there. -/
theorem DagOf.mem {dag : List (Cid × Bytes)} (dagOf : DagOf B s root dag) (e : Cid × Bytes) :
    e ∈ dag ↔ Reach B s root e.1 ∧ s.get e.1 = some e.2 := by
  constructor
  · intro member
    exact ⟨(dagOf.mem_iff e.1).mp (List.mem_map_of_mem member), dagOf.stored e member⟩
  · rintro ⟨reach, found⟩
    obtain ⟨e', member, same⟩ := List.mem_map.mp ((dagOf.mem_iff e.1).mpr reach)
    have stored := dagOf.stored e' member
    rw [same, found] at stored
    obtain rfl : e' = e := Prod.ext same (Option.some.inj stored).symm
    exact member

/-- A DAG that is present stays so, as long as no stored block is replaced. -/
theorem DagPresent.put (present : DagPresent B s root) {new : Cid} {data : Bytes}
    (same : ∀ old, s.get new = some old → old = data) : DagPresent B (s.put new data) root := by
  have agree : ∀ v, Reach B s root v → (s.put new data).get v = s.get v := by
    intro v reach
    obtain ⟨old, found⟩ := (s.contains_iff v).mp (present v reach)
    by_cases own : v = new
    · subst own
      rw [Store.get_put_self, found, same old found]
    · rw [Store.get_put_of_ne s data own]
  intro cid reach
  have before := (reach_of_agree agree cid).mp reach
  exact (Store.contains_put s new data cid).mpr (.inr (present cid before))

end Ursa

/-
# Store.MissingBlocks — sync and traversal agree on which DAGs are complete

The loop of `missing_blocks` pops a stack, looks blocks up by raw key and keeps no
visited set, so a block with many parents is worked off many times and a cycle keeps
it busy for ever.  `WorksOff` says what the loop does to the top of its stack: after
some number of turns the tops are gone, what was below is untouched and the missing
CIDs met on the way are appended.  On an acyclic reference graph every CID is worked
off, along all the routes of links that lead from it (`covers_of_acyclic`).  So the loop
ends with exactly the reachable CIDs that are not stored (`missing_blocks_exact`), each as
often as there are routes to it (`missing_blocks_nodup_iff`).

`dagTraversal` is written independently of it; on such stores the two accept the same
roots (`missingBlocks_nil_iff_dagTraversal_ok`).
-/
import Ursa.Store.DagTraversal

namespace Ursa

set_option autoImplicit false

open Ursa.Theory (Outcome)
open Ursa.Theory.Worklist (Edge wellFounded_of_acyclic acyclic_of_rank follow followAny follow_cons
  follow_cons_of_none followAny_snoc reach_iff_follow)

/-- No block is reachable from itself through one link or more. -/
def Acyclic (B : Blocks) (s : Store) : Prop :=
  ∀ cid, ¬ Relation.TransGen (Edge (links B s)) cid cid

/-- Every stored block passes `Block::new` and its references can be decoded. -/
def AllValid (B : Blocks) (s : Store) : Prop :=
  ∀ cid data, s.get cid = some data → B.new cid data = true ∧ ∃ refs, B.references cid data = some refs

/-- The references of every stored block can be decoded. -/
def Decodable (B : Blocks) (s : Store) : Prop :=
  ∀ cid data, s.get cid = some data → ∃ refs, B.references cid data = some refs

theorem AllValid.decodable {B : Blocks} {s : Store} (valid : AllValid B s) : Decodable B s :=
  fun cid data stored => (valid cid data stored).2

theorem AllValid.reachable {B : Blocks} {s : Store} (valid : AllValid B s) (root : Cid) :
    ReachableValid B s root :=
  fun cid data _ stored => valid cid data stored

section Loop

variable {B : Blocks} {s : Store} {root cid : Cid} {tops found : List Cid}

/-- What the loop does to the top of its stack, whatever lies below. -/
def WorksOff (B : Blocks) (s : Store) (tops found : List Cid) : Prop :=
  ∃ turns, ∀ fuel stack missing,
    missingLoop B s (turns + fuel) (tops ++ stack) missing =
      missingLoop B s fuel stack (missing ++ found)

theorem WorksOff.nil : WorksOff B s [] [] := by
  refine ⟨0, ?_⟩
  intro fuel stack missing
  simp

theorem WorksOff.append {tops' found' : List Cid} (top : WorksOff B s tops found)
    (rest : WorksOff B s tops' found') : WorksOff B s (tops ++ tops') (found ++ found') := by
  obtain ⟨turns, top⟩ := top
  obtain ⟨turns', rest⟩ := rest
  refine ⟨turns + turns', ?_⟩
  intro fuel stack missing
  rw [Nat.add_assoc, List.append_assoc, top, rest, List.append_assoc]

/-- A CID that is not stored is noted. -/
theorem WorksOff.absent (absent : s.get cid = none) : WorksOff B s [cid] [cid] := by
  refine ⟨1, ?_⟩
  intro fuel stack missing
  rw [Nat.add_comm, List.singleton_append, missingLoop, absent]

/-- A stored block is replaced by its links, the last one on top. -/
theorem WorksOff.stored {refs : List Cid} (linked : links B s cid = some refs)
    (rest : WorksOff B s refs.reverse found) : WorksOff B s [cid] found := by
  obtain ⟨data, stored, decoded⟩ := Option.bind_eq_some_iff.mp linked
  obtain ⟨turns, rest⟩ := rest
  refine ⟨turns + 1, ?_⟩
  intro fuel stack missing
  rw [Nat.add_right_comm, List.singleton_append, missingLoop, stored]
  simp only [decoded]
  exact rest fuel stack missing

/-- The CIDs that are reachable and not stored. -/
def Missing (B : Blocks) (s : Store) (root cid : Cid) : Prop :=
  Reach B s root cid ∧ s.get cid = none

/-- The tops are worked off along `leads`: one missing CID is noted for every route that
leads to one. -/
def Covers (B : Blocks) (s : Store) (tops : List Cid) (leads : List Nat → Option Cid) : Prop :=
  ∃ routes found, routes.Nodup ∧ (∀ r, r ∈ routes ↔ ∃ c, leads r = some c ∧ s.get c = none) ∧
    List.Forall₂ (fun r c => leads r = some c) routes found ∧ WorksOff B s tops found

theorem Covers.nil : Covers B s [] (followAny (links B s) []) := by
  refine ⟨[], [], List.nodup_nil, ?_, .nil, .nil⟩
  intro r
  cases r <;> simp [followAny]

/-- One more vertex on top: its routes come first, under the last position. -/
theorem Covers.snoc {refs : List Cid} {last : Cid} (top : Covers B s [last] (follow (links B s) last))
    (rest : Covers B s refs.reverse (followAny (links B s) refs)) :
    Covers B s (refs ++ [last]).reverse (followAny (links B s) (refs ++ [last])) := by
  obtain ⟨routes, found, nodup, mem, ends, works⟩ := top
  obtain ⟨routes', found', nodup', mem', ends', works'⟩ := rest
  have inside : ∀ r ∈ routes', ∀ r', r ≠ refs.length :: r' := by
    rintro _ member r' rfl
    obtain ⟨c, leads, -⟩ := (mem' _).mp member
    simp [followAny] at leads
  refine ⟨routes.map (refs.length :: ·) ++ routes', found ++ found', ?_, ?_, ?_, ?_⟩
  · refine List.nodup_append.mpr ⟨nodup.map fun _ _ same => (List.cons.inj same).2, nodup', ?_⟩
    intro r first r' second same
    obtain ⟨r'', -, rfl⟩ := List.mem_map.mp first
    exact inside r' second r'' same.symm
  · intro r
    simp only [List.mem_append, List.mem_map, mem, mem', followAny_snoc]
    constructor
    · rintro (⟨r', ⟨c, leads, absent⟩, rfl⟩ | ⟨c, leads, absent⟩)
      · exact ⟨c, .inr ⟨r', rfl, leads⟩, absent⟩
      · exact ⟨c, .inl leads, absent⟩
    · rintro ⟨c, leads | ⟨r', rfl, leads⟩, absent⟩
      · exact .inr ⟨c, leads, absent⟩
      · exact .inl ⟨r', ⟨c, leads, absent⟩, rfl⟩
  · refine List.rel_append ?_ (ends'.imp fun r c leads => followAny_snoc.mpr (.inl leads))
    rw [List.forall₂_map_left_iff]
    exact ends.imp fun r c leads => followAny_snoc.mpr (.inr ⟨r, rfl, leads⟩)
  · rw [List.reverse_append, List.reverse_singleton]
    exact works.append works'

/-- If every link of a block is worked off along its routes, so are all of them. -/
theorem covers_links (refs : List Cid)
    (each : ∀ t ∈ refs, Covers B s [t] (follow (links B s) t)) :
    Covers B s refs.reverse (followAny (links B s) refs) := by
  induction refs using List.reverseRecOn with
  | nil => exact .nil
  | append_singleton refs last ih =>
      exact .snoc (each last (by simp)) (ih fun t member => each t (by simp [member]))

/-- A missing CID is noted once, for the empty route. -/
theorem Covers.absent (absent : s.get cid = none) : Covers B s [cid] (follow (links B s) cid) := by
  refine ⟨[[]], [cid], by simp, ?_, .cons rfl .nil, .absent absent⟩
  have stuck : links B s cid = none := by simp [links, absent]
  intro r
  cases r with
  | nil => simpa [follow] using absent
  | cons i route => simp [follow_cons_of_none stuck]

/-- A stored block is worked off along the routes through its links. -/
theorem Covers.stored {refs : List Cid} (linked : links B s cid = some refs)
    (rest : Covers B s refs.reverse (followAny (links B s) refs)) :
    Covers B s [cid] (follow (links B s) cid) := by
  obtain ⟨routes, found, nodup, mem, ends, works⟩ := rest
  have long : ∀ r ∈ routes, follow (links B s) cid r = followAny (links B s) refs r := by
    intro r member
    obtain ⟨c, leads, -⟩ := (mem r).mp member
    cases r with
    | nil => cases leads
    | cons i route => exact follow_cons linked i route
  refine ⟨routes, found, nodup, ?_, ?_, .stored linked works⟩
  · intro r
    cases r with
    | nil =>
        -- the block itself is stored
        obtain ⟨data, stored, -⟩ := Option.bind_eq_some_iff.mp linked
        rw [mem]
        simp [follow, followAny, stored]
    | cons i route => rw [mem, follow_cons linked]
  · refine List.forall₂_iff_zip.mpr ⟨ends.length_eq, ?_⟩
    intro r c member
    rw [long r (List.of_mem_zip member).1]
    exact List.forall₂_iff_zip.mp ends |>.2 member

/-- **Every CID is worked off along its routes**, by induction along the links. -/
theorem covers_of_acyclic (acyclic : Acyclic B s) (decodable : Decodable B s) (top : Cid) :
    Covers B s [top] (follow (links B s) top) := by
  have ends : WellFounded fun b a => Edge (links B s) a b := by
    refine wellFounded_of_acyclic s.cids.toFinset ?_ acyclic
    intro v refs linked
    obtain ⟨data, stored, -⟩ := Option.bind_eq_some_iff.mp linked
    exact List.mem_toFinset.mpr (Store.mem_cids stored)
  induction top using ends.induction with
  | _ top ih =>
      cases lookup : s.get top with
      | none => exact .absent lookup
      | some data =>
          obtain ⟨refs, decoded⟩ := decodable top data lookup
          have linked : links B s top = some refs := by simp [links, lookup, decoded]
          refine .stored linked (covers_links refs ?_)
          intro t member
          exact ih t ⟨refs, linked, member⟩

/-- What the loop comes to: it ends after some number of turns, with one entry for every
route from the root to a CID that is not stored. -/
theorem missingLoop_of_acyclic (acyclic : Acyclic B s) (decodable : Decodable B s) (root : Cid) :
    ∃ routes missing turns, routes.Nodup ∧
      (∀ r, r ∈ routes ↔ ∃ c, follow (links B s) root r = some c ∧ s.get c = none) ∧
      List.Forall₂ (fun r c => follow (links B s) root r = some c) routes missing ∧
      ∀ fuel, turns ≤ fuel → missingLoop B s fuel [root] [] = .ok missing := by
  obtain ⟨routes, found, nodup, mem, ends, turns, works⟩ := covers_of_acyclic acyclic decodable root
  refine ⟨routes, found, turns + 1, nodup, mem, ends, ?_⟩
  intro fuel enough
  obtain ⟨more, rfl⟩ := Nat.exists_eq_add_of_le enough
  have after := works (1 + more) [] []
  rw [← Nat.add_assoc, List.append_nil, List.nil_append] at after
  rw [after, Nat.add_comm 1 more]
  rfl

/-- What the routes lead to are the reachable CIDs that are not stored. -/
theorem mem_missing_iff {routes : List (List Nat)} {missing : List Cid}
    (mem : ∀ r, r ∈ routes ↔ ∃ c, follow (links B s) root r = some c ∧ s.get c = none)
    (ends : List.Forall₂ (fun r c => follow (links B s) root r = some c) routes missing) (c : Cid) :
    c ∈ missing ↔ Missing B s root c := by
  have routed : Reach B s root c ↔ ∃ route, follow (links B s) root route = some c :=
    reach_iff_follow
  rw [Missing, routed]
  constructor
  · intro member
    obtain ⟨i, bound, rfl⟩ := List.mem_iff_getElem.mp member
    have bound' : i < routes.length := ends.length_eq ▸ bound
    have leads := ends.get bound' bound
    obtain ⟨c', leads', absent⟩ := (mem _).mp (List.getElem_mem bound')
    obtain rfl := Option.some.inj (leads.symm.trans leads')
    exact ⟨⟨_, leads⟩, absent⟩
  · rintro ⟨⟨route, leads⟩, absent⟩
    obtain ⟨i, bound, rfl⟩ := List.mem_iff_getElem.mp ((mem route).mpr ⟨c, leads, absent⟩)
    have bound' : i < missing.length := ends.length_eq ▸ bound
    obtain rfl := Option.some.inj (leads.symm.trans (ends.get bound bound'))
    exact List.getElem_mem bound'

/-- `missing_blocks` returns, and what it returns are the reachable CIDs that are not
stored. -/
theorem missingBlocks_of_acyclic (acyclic : Acyclic B s) (decodable : Decodable B s) (root : Cid) :
    ∃ missing, MissingBlocks B s root missing ∧ ∀ c, c ∈ missing ↔ Missing B s root c := by
  obtain ⟨routes, missing, turns, -, mem, ends, returns⟩ :=
    missingLoop_of_acyclic acyclic decodable root
  exact ⟨missing, ⟨turns, returns turns (Nat.le_refl _)⟩, mem_missing_iff mem ends⟩

end Loop

variable (B : Blocks) (s : Store) (order : Nat → List Cid → Nat) in
/-- **Sync and traversal agree.**  On an acyclic store of valid blocks, and for every
root, `missing_blocks` returns the empty list exactly if `dag_traversal` succeeds. -/
theorem missingBlocks_nil_iff_dagTraversal_ok (acyclic : Acyclic B s) (valid : AllValid B s)
    (root : Cid) :
    MissingBlocks B s root [] ↔ ∃ dag, dagTraversal B order s root = .ok dag := by
  rw [dagTraversal_ok_iff, complete_iff_dagPresent (valid.reachable root)]
  constructor
  · exact DagPresent.of_missingBlocks
  · intro present
    obtain ⟨missing, returns, exact⟩ := missingBlocks_of_acyclic acyclic valid.decodable root
    have nothing : missing = [] := by
      rw [List.eq_nil_iff_forall_not_mem]
      intro c member
      obtain ⟨reach, absent⟩ := (exact c).mp member
      obtain ⟨data, stored⟩ := (s.contains_iff c).mp (present c reach)
      simp [absent] at stored
    rwa [nothing] at returns

/-- Every link of the sample goes from its root to its leaf. -/
theorem acyclic_twin {s : Store} (stored : ∀ cid data, s.get cid = some data →
    twinStore.get cid = some data) : Acyclic plainBlocks s := by
  have distinct : twinLeaf.1 ≠ twinRoot.1 := by decide +kernel
  refine acyclic_of_rank (fun cid => if cid = twinRoot.1 then 1 else 0) ?_
  rintro a b ⟨refs, linked, member⟩
  obtain ⟨data, found, decoded⟩ := Option.bind_eq_some_iff.mp linked
  rcases twinStore_get (stored a data found) with ⟨rfl, rfl⟩ | ⟨rfl, rfl⟩
  · obtain rfl := Option.some.inj (twinRoot_references.symm.trans decoded)
    obtain rfl : b = twinLeaf.1 := by simpa using member
    simp [distinct]
  · obtain rfl := Option.some.inj (twinLeaf_references.symm.trans decoded)
    cases member

theorem missingBlocks_nil_iff_dagTraversal_ok_twin :
    MissingBlocks plainBlocks twinStore twinRoot.1 [] ↔
      ∃ dag, dagTraversal plainBlocks (fun _ _ => 0) twinStore twinRoot.1 = .ok dag :=
  missingBlocks_nil_iff_dagTraversal_ok plainBlocks twinStore _ (acyclic_twin fun _ _ => id)
    (fun _ _ => twinStore_valid) twinRoot.1

/-! ## What the loop returns -/

/-- **`missing_blocks` ends and is exact.**  On an acyclic store of decodable blocks, and for
every CID, the loop returns after some number of turns, and what it returns are the CIDs
that are reachable through stored blocks and not stored themselves. -/
theorem missing_blocks_exact (B : Blocks) (s : Store) (acyclic : Acyclic B s)
    (decodable : Decodable B s) (cid : Cid) :
    ∃ missing turns, (∀ fuel, turns ≤ fuel → missingLoop B s fuel [cid] [] = .ok missing) ∧
      ∀ c, c ∈ missing ↔ Reach B s cid c ∧ s.get c = none := by
  obtain ⟨routes, missing, turns, -, mem, ends, returns⟩ :=
    missingLoop_of_acyclic acyclic decodable cid
  exact ⟨missing, turns, returns, mem_missing_iff mem ends⟩

/-- Only the root of the sample is stored. -/
def halfTwin : Store := Store.empty.put twinRoot.1 twinRoot.2

theorem halfTwin_get {cid : Cid} {data : Bytes} (found : halfTwin.get cid = some data) :
    twinStore.get cid = some data := by
  rcases Store.get_put_cases found with ⟨rfl, rfl⟩ | found
  · simp [twinStore]
  · cases found

theorem halfTwin_acyclic : Acyclic plainBlocks halfTwin := acyclic_twin fun _ _ => halfTwin_get

theorem halfTwin_decodable : Decodable plainBlocks halfTwin :=
  fun _ _ found => (twinStore_valid (halfTwin_get found)).2

theorem missing_blocks_exact_twin :
    ∃ missing turns,
      (∀ fuel, turns ≤ fuel →
        missingLoop plainBlocks halfTwin fuel [twinRoot.1] [] = .ok missing) ∧
      ∀ c, c ∈ missing ↔ Reach plainBlocks halfTwin twinRoot.1 c ∧ halfTwin.get c = none :=
  missing_blocks_exact plainBlocks halfTwin halfTwin_acyclic halfTwin_decodable twinRoot.1

/-- At most one route of links leads from the root to each CID that is not stored. -/
def OneRoute (B : Blocks) (s : Store) (root : Cid) : Prop :=
  ∀ c r r', s.get c = none → follow (links B s) root r = some c →
    follow (links B s) root r' = some c → r = r'

/-- **When each missing block is reported once.**  On an acyclic store of decodable blocks
`missing_blocks` returns a list without repetitions exactly if no two routes lead from the
root to the same CID that is not stored. -/
theorem missing_blocks_nodup_iff (B : Blocks) (s : Store) (acyclic : Acyclic B s)
    (decodable : Decodable B s) (root : Cid) :
    ∃ missing turns, (∀ fuel, turns ≤ fuel → missingLoop B s fuel [root] [] = .ok missing) ∧
      (missing.Nodup ↔ OneRoute B s root) := by
  obtain ⟨routes, missing, turns, nodup, mem, ends, returns⟩ :=
    missingLoop_of_acyclic acyclic decodable root
  refine ⟨missing, turns, returns, ?_⟩
  -- The list is the image of the routes.
  have image : missing.map some = routes.map (follow (links B s) root) := by
    rw [← List.forall₂_eq_eq_eq, List.forall₂_map_left_iff, List.forall₂_map_right_iff]
    exact ends.flip.imp fun c r leads => leads.symm
  have same : missing.Nodup ↔ (routes.map (follow (links B s) root)).Nodup := by
    rw [← image, List.nodup_map_iff (Option.some_injective _)]
  rw [same]
  constructor
  · intro distinct c r r' absent leads leads'
    have member := (mem r).mpr ⟨c, leads, absent⟩
    have member' := (mem r').mpr ⟨c, leads', absent⟩
    exact List.inj_on_of_nodup_map distinct member member' (leads.trans leads'.symm)
  · intro one
    refine List.Nodup.map_on ?_ nodup
    intro r member r' _ meet
    obtain ⟨c, leads, absent⟩ := (mem r).mp member
    exact one c r r' absent leads (meet.symm.trans leads)

theorem missing_blocks_nodup_iff_twin :
    ∃ missing turns,
      (∀ fuel, turns ≤ fuel →
        missingLoop plainBlocks halfTwin fuel [twinRoot.1] [] = .ok missing) ∧
      (missing.Nodup ↔ OneRoute plainBlocks halfTwin twinRoot.1) :=
  missing_blocks_nodup_iff plainBlocks halfTwin halfTwin_acyclic halfTwin_decodable twinRoot.1

/-- The block that is linked twice is reported twice. -/
theorem missing_block_is_reported_twice :
    Acyclic plainBlocks halfTwin ∧ Decodable plainBlocks halfTwin ∧
      MissingBlocks plainBlocks halfTwin twinRoot.1 [twinLeaf.1, twinLeaf.1] ∧
      ¬ [twinLeaf.1, twinLeaf.1].Nodup := by
  refine ⟨halfTwin_acyclic, halfTwin_decodable, ⟨4, by decide +kernel⟩, ?_⟩
  simp

end Ursa

/-
# Store.Sync — fetching what `missing_blocks` reports completes the DAG

A sync query asks the block store what is missing under a root (`missing_blocks`), fetches
reported blocks from its providers and inserts them, and asks again; which block comes
first, and how many are inserted before the next question, is up to the query.  Meanwhile
other queries and uploads write blocks of their own.

`Sync` is any such run, one insertion at a time, against a store that holds the DAG.
`sync_reproduces_the_dag` says that it fetches nothing twice and nothing that was there,
that it never gets stuck, and that nothing is missing exactly when a traversal of the root
succeeds, which then returns the provider's DAG.

Under the CIDs of the DAG the receiver and the other writers have nothing but the blocks of
the DAG (`AgreesOn`).  Besides them the receiver may hold anything: cyclic or undecodable
blocks, too.
-/
import Ursa.Store.MissingBlocks

namespace Ursa

set_option autoImplicit false

open Ursa.Theory (Outcome)
open Ursa.Theory.Worklist (Edge wellFounded_of_acyclic follow followAny)

namespace Store

/-- `BitswapStorage::insert` -/
def insert (s : Store) (cid : Cid) (data : Bytes) : Store := s.write cid.toBytes data

@[simp] theorem insert_eq_put (s : Store) (cid : Cid) (data : Bytes) :
    s.insert cid data = s.put cid data := rfl

end Store

/-! ## What CIDs stand for -/

/-- No two contents for one CID: hashes do not collide. -/
def Single (is : Cid → Bytes → Prop) : Prop :=
  ∀ cid data data', is cid data → is cid data' → data = data'

/-- The store holds nothing but what the CIDs stand for. -/
def Clean (is : Cid → Bytes → Prop) (store : Store) : Prop :=
  ∀ cid data, store.get cid = some data → is cid data

section Contents

variable {is : Cid → Bytes → Prop} {store : Store} {b : Cid × Bytes}

/-- Writing a block again writes what is there. -/
theorem Clean.kept (clean : Clean is store) (single : Single is) (genuine : is b.1 b.2) {cid : Cid}
    {data : Bytes} (stored : store.get cid = some data) : (store.put b.1 b.2).get cid = some data := by
  by_cases same : cid = b.1
  · subst same
    rw [Store.get_put_self, single _ _ _ genuine (clean _ _ stored)]
  · rw [Store.get_put_of_ne _ _ same, stored]

theorem Clean.put (clean : Clean is store) (genuine : is b.1 b.2) :
    Clean is (store.put b.1 b.2) := by
  intro cid data stored
  rcases Store.get_put_cases stored with ⟨rfl, rfl⟩ | stored
  · exact genuine
  · exact clean cid data stored

end Contents

/-! ## Fetching -/

/-- Under the CIDs of the DAG, `s` holds nothing but what the source holds. -/
def AgreesOn (B : Blocks) (source : Store) (root : Cid) (s : Store) : Prop :=
  ∀ cid data, Reach B source root cid → s.get cid = some data → source.get cid = some data

/-- A run of a sync query for `root` with the blocks it fetched, oldest first. -/
inductive Sync (B : Blocks) (source : Store) (root : Cid) : Store → List Cid → Store → Prop where
  | done (s : Store) : Sync B source root s [] s
  /-- A block that is reported missing is fetched. -/
  | fetch {s t : Store} {missing fetched : List Cid} {cid : Cid} {data : Bytes}
      (reported : MissingBlocks B s root missing) (member : cid ∈ missing)
      (held : source.get cid = some data)
      (rest : Sync B source root (s.insert cid data) fetched t) :
      Sync B source root s (cid :: fetched) t
  /-- Somebody else writes a block. -/
  | other {s t : Store} {fetched : List Cid} {cid : Cid} {data : Bytes}
      (agrees : Reach B source root cid → source.get cid = some data)
      (rest : Sync B source root (s.insert cid data) fetched t) : Sync B source root s fetched t

section Steps

variable {B : Blocks} {source s t : Store} {root : Cid}

/-- What both hold of the DAG has the same links. -/
theorem AgreesOn.links (agrees : AgreesOn B source root s) {cid : Cid} {refs : List Cid}
    (reach : Reach B source root cid) (linked : links B s cid = some refs) :
    Ursa.links B source cid = some refs := by
  obtain ⟨data, stored, decoded⟩ := Option.bind_eq_some_iff.mp linked
  simp [Ursa.links, agrees cid data reach stored, decoded]

/-- What can be reached belongs to the DAG. -/
theorem AgreesOn.reach (agrees : AgreesOn B source root s) {cid : Cid}
    (reach : Reach B s root cid) : Reach B source root cid := by
  induction reach with
  | refl => exact .refl
  | tail _ edge ih =>
      obtain ⟨refs, linked, member⟩ := edge
      exact ih.tail ⟨refs, agrees.links ih linked, member⟩

theorem AgreesOn.insert (agrees : AgreesOn B source root s) {cid : Cid} {data : Bytes}
    (own : Reach B source root cid → source.get cid = some data) :
    AgreesOn B source root (s.insert cid data) := by
  intro other value reach stored
  rcases Store.get_put_cases stored with ⟨rfl, rfl⟩ | stored
  · exact own reach
  · exact agrees other value reach stored

/-- On the CIDs of an acyclic DAG the loop of `missing_blocks` works off its stack, whatever
else the store holds. -/
theorem covers_of_source (complete : Complete B source root) (acyclic : Acyclic B source)
    (agrees : AgreesOn B source root s) (top : Cid) (reach : Reach B source root top) :
    Covers B s [top] (follow (links B s) top) := by
  have ends : WellFounded fun b a => Edge (links B source) a b := by
    refine wellFounded_of_acyclic source.cids.toFinset ?_ acyclic
    intro v refs linked
    obtain ⟨data, stored, -⟩ := Option.bind_eq_some_iff.mp linked
    exact List.mem_toFinset.mpr (Store.mem_cids stored)
  induction top using ends.induction with
  | _ top ih =>
      cases lookup : s.get top with
      | none => exact .absent lookup
      | some data =>
          obtain ⟨data', refs, stored, -, decoded⟩ := complete top reach
          obtain rfl := Option.some.inj ((agrees top data reach lookup).symm.trans stored)
          have linked : links B s top = some refs := by simp [links, lookup, decoded]
          refine .stored linked (covers_links refs ?_)
          intro next member
          have edge : Edge (links B source) top next := ⟨refs, agrees.links reach linked, member⟩
          exact ih next edge (reach.tail edge)

/-- `missing_blocks` returns, and reports what can be reached and is not stored. -/
theorem missingBlocks_of_covers (covers : Covers B s [root] (follow (links B s) root)) :
    ∃ missing, MissingBlocks B s root missing ∧ ∀ c, c ∈ missing ↔ Missing B s root c := by
  obtain ⟨routes, found, -, mem, ends, turns, works⟩ := covers
  refine ⟨found, ⟨turns + 1, ?_⟩, mem_missing_iff mem ends⟩
  have after := works 1 [] []
  rw [List.append_nil, List.nil_append] at after
  rw [after]
  rfl

/-- More turns change nothing once the loop has returned. -/
theorem missingLoop_add {fuel : Nat} {stack missing out : List Cid}
    (returns : missingLoop B s fuel stack missing = .ok out) (more : Nat) :
    missingLoop B s (fuel + more) stack missing = .ok out := by
  induction fuel generalizing stack missing with
  | zero => cases returns
  | succ fuel ih =>
      rw [Nat.add_right_comm]
      cases stack with
      | nil => exact returns
      | cons top stack =>
          cases lookup : s.get top with
          | none =>
              simp only [missingLoop, lookup] at returns ⊢
              exact ih returns
          | some data =>
              cases decoded : B.references top data with
              | none => simp [missingLoop, lookup, decoded] at returns
              | some refs =>
                  simp only [missingLoop, lookup, decoded] at returns ⊢
                  exact ih returns

/-- The loop returns one thing only. -/
theorem MissingBlocks.unique {missing missing' : List Cid} (returns : MissingBlocks B s root missing)
    (returns' : MissingBlocks B s root missing') : missing = missing' := by
  obtain ⟨fuel, ends⟩ := returns
  obtain ⟨fuel', ends'⟩ := returns'
  have later := missingLoop_add ends fuel'
  rw [Nat.add_comm, missingLoop_add ends' fuel] at later
  exact (Outcome.ok.inj later).symm

/-- **A question**: it is answered, with the CIDs of the DAG that can be reached and are not
there; the source has them all. -/
theorem AgreesOn.missingBlocks (complete : Complete B source root) (acyclic : Acyclic B source)
    (agrees : AgreesOn B source root s) :
    ∃ missing, MissingBlocks B s root missing ∧ ∀ c ∈ missing,
      Reach B source root c ∧ s.get c = none ∧ ∃ data, source.get c = some data := by
  obtain ⟨missing, returns, exact⟩ :=
    missingBlocks_of_covers (covers_of_source complete acyclic agrees root .refl)
  refine ⟨missing, returns, ?_⟩
  intro c member
  obtain ⟨reach, absent⟩ := (exact c).mp member
  obtain ⟨data, refs, stored, -⟩ := complete c (agrees.reach reach)
  exact ⟨agrees.reach reach, absent, data, stored⟩

/-- When nothing is missing, the store is as the source on the whole DAG. -/
theorem AgreesOn.get_eq (agrees : AgreesOn B source root s) (nothing : MissingBlocks B s root []) :
    ∀ v, Reach B source root v → s.get v = source.get v := by
  have present := DagPresent.of_missingBlocks nothing
  have same : ∀ v, Reach B source root v → Reach B s root v → s.get v = source.get v := by
    intro v reach reach'
    obtain ⟨data, stored⟩ := (s.contains_iff v).mp (present v reach')
    rw [stored, agrees v data reach stored]
  intro v reach
  refine same v reach ?_
  induction reach with
  | refl => exact .refl
  | tail before edge ih =>
      obtain ⟨refs, linked, member⟩ := edge
      refine ih.tail ⟨refs, ?_, member⟩
      rw [Ursa.links, same _ before ih]
      exact linked

/-- A DAG that is complete at the receiver is the source's, and nothing is missing of it. -/
theorem AgreesOn.nothing_missing (complete : Complete B source root)
    (acyclic : Acyclic B source) (agrees : AgreesOn B source root s) (own : Complete B s root) :
    MissingBlocks B s root [] := by
  have reach : ∀ v, Reach B source root v → Reach B s root v := by
    intro v reach
    induction reach with
    | refl => exact .refl
    | @tail a b before edge ih =>
        obtain ⟨refs, linked, member⟩ := edge
        obtain ⟨data, refs', stored, -, decoded⟩ := own a ih
        have there : Ursa.links B s a = some refs' := by simp [Ursa.links, stored, decoded]
        obtain rfl : refs' = refs :=
          Option.some.inj ((agrees.links before there).symm.trans linked)
        exact ih.tail ⟨refs', there, member⟩
  obtain ⟨missing, returns, exact⟩ := agrees.missingBlocks complete acyclic
  cases missing with
  | nil => exact returns
  | cons c others =>
      obtain ⟨inDag, absent, -⟩ := exact c List.mem_cons_self
      obtain ⟨data, refs, stored, -⟩ := own c (reach c inDag)
      rw [absent] at stored
      cases stored

theorem DagOf.of_agree {dag : List (Cid × Bytes)} (dagOf : DagOf B s root dag)
    (agree : ∀ v, Reach B source root v → s.get v = source.get v) : DagOf B source root dag where
  nodup := dagOf.nodup
  mem_iff cid := (dagOf.mem_iff cid).trans (reach_of_agree agree cid)
  stored e member := by
    have reach := (reach_of_agree agree e.1).mp
      ((dagOf.mem_iff e.1).mp (List.mem_map_of_mem member))
    rw [← agree e.1 reach]
    exact dagOf.stored e member
  first := dagOf.first

theorem get_insert_eq_none {cid c : Cid} {data : Bytes} (absent : (s.insert cid data).get c = none) :
    c ≠ cid ∧ s.get c = none := by
  have ne : c ≠ cid := by
    rintro rfl
    simp at absent
  exact ⟨ne, by rwa [Store.insert_eq_put, Store.get_put_of_ne s data ne] at absent⟩

namespace Sync

theorem agreesOn {fetched : List Cid} (sync : Sync B source root s fetched t)
    (agrees : AgreesOn B source root s) : AgreesOn B source root t := by
  induction sync with
  | done => exact agrees
  | fetch reported member held rest ih => exact ih (agrees.insert fun _ => held)
  | other own rest ih => exact ih (agrees.insert own)

/-- What a run fetches belongs to the DAG, was not there at its start, and is fetched once. -/
theorem fetches {fetched : List Cid} (sync : Sync B source root s fetched t)
    (complete : Complete B source root) (acyclic : Acyclic B source)
    (agrees : AgreesOn B source root s) :
    fetched.Nodup ∧ ∀ c ∈ fetched, Reach B source root c ∧ s.get c = none := by
  induction sync with
  | done => simp
  | fetch reported member held rest ih =>
      obtain ⟨missing, returns, exact⟩ := agrees.missingBlocks complete acyclic
      obtain rfl := reported.unique returns
      obtain ⟨reach, absent, -⟩ := exact _ member
      obtain ⟨nodup, others⟩ := ih (agrees.insert fun _ => held)
      refine ⟨List.nodup_cons.mpr ⟨?_, nodup⟩, List.forall_mem_cons.mpr ⟨⟨reach, absent⟩, ?_⟩⟩
      · intro again
        exact (get_insert_eq_none (others _ again).2).1 rfl
      · intro c listed
        obtain ⟨reach', absent'⟩ := others c listed
        exact ⟨reach', (get_insert_eq_none absent').2⟩
  | other own rest ih =>
      obtain ⟨nodup, others⟩ := ih (agrees.insert own)
      refine ⟨nodup, fun c listed => ?_⟩
      obtain ⟨reach, absent⟩ := others c listed
      exact ⟨reach, (get_insert_eq_none absent).2⟩

/-- From everywhere a run can go on until nothing is missing: every block fetched leaves one
less of the source's blocks to fetch. -/
theorem exists_completion (complete : Complete B source root) (acyclic : Acyclic B source)
    (agrees : AgreesOn B source root s) :
    ∃ fetched t, Sync B source root s fetched t ∧ MissingBlocks B t root [] := by
  generalize left : (source.cids.toFinset.filter fun c => s.get c = none).card = n
  induction n using Nat.strong_induction_on generalizing s with
  | _ n ih =>
      obtain ⟨missing, returns, exact⟩ := agrees.missingBlocks complete acyclic
      cases missing with
      | nil => exact ⟨[], s, .done s, returns⟩
      | cons cid others =>
          obtain ⟨-, absent, data, held⟩ := exact cid List.mem_cons_self
          have fewer : (source.cids.toFinset.filter fun c => (s.insert cid data).get c = none).card
              < n := by
            rw [← left]
            apply Finset.card_lt_card
            rw [Finset.ssubset_iff_of_subset]
            · refine ⟨cid, ?_, ?_⟩
              · simp [Store.mem_cids held, absent]
              · intro member
                exact (get_insert_eq_none (Finset.mem_filter.mp member).2).1 rfl
            · intro c member
              obtain ⟨listed, absent'⟩ := Finset.mem_filter.mp member
              exact Finset.mem_filter.mpr ⟨listed, (get_insert_eq_none absent').2⟩
          obtain ⟨fetched, t, sync, nothing⟩ := ih _ fewer (agrees.insert fun _ => held) rfl
          exact ⟨cid :: fetched, t, .fetch returns List.mem_cons_self held sync, nothing⟩

end Sync

end Steps

/-- **A sync query reproduces the DAG.**  Let the source hold a complete, acyclic DAG, and the
receiver nothing else under its CIDs.  However the query goes about it, and whatever others
write meanwhile: it fetches no block twice and none that was there; `missing_blocks` always
answers, with blocks that the source has, so the query can go on until nothing is missing;
nothing is missing exactly when a traversal of the root succeeds, and then every traversal
does, with the source's DAG. -/
theorem sync_reproduces_the_dag (B : Blocks) (source : Store) (root : Cid)
    (complete : Complete B source root) (acyclic : Acyclic B source) (s t : Store)
    (agrees : AgreesOn B source root s) (fetched : List Cid)
    (sync : Sync B source root s fetched t) :
    (fetched.Nodup ∧ ∀ c ∈ fetched, Reach B source root c ∧ s.get c = none) ∧
    (∃ missing, MissingBlocks B t root missing ∧ ∀ c ∈ missing,
      Reach B source root c ∧ t.get c = none ∧ ∃ data, source.get c = some data) ∧
    (∃ more u, Sync B source root t more u ∧ MissingBlocks B u root []) ∧
    (MissingBlocks B t root [] ↔ ∃ order dag, dagTraversal B order t root = .ok dag) ∧
    (MissingBlocks B t root [] → ∀ order, ∃ dag,
      dagTraversal B order t root = .ok dag ∧ DagOf B source root dag) := by
  have now := sync.agreesOn agrees
  have ended : MissingBlocks B t root [] ↔ Complete B t root :=
    ⟨fun nothing => complete.of_agree (now.get_eq nothing), now.nothing_missing complete acyclic⟩
  refine ⟨sync.fetches complete acyclic agrees, now.missingBlocks complete acyclic,
    Sync.exists_completion complete acyclic now, ?_, ?_⟩
  · constructor
    · intro nothing
      exact ⟨fun _ _ => 0, (dagTraversal_ok_iff _).mpr (ended.mp nothing)⟩
    · rintro ⟨order, traversed⟩
      exact ended.mpr ((dagTraversal_ok_iff order).mp traversed)
  intro nothing order
  have agree := now.get_eq nothing
  obtain ⟨dag, traversed⟩ := (dagTraversal_ok_iff order).mpr (complete.of_agree agree)
  exact ⟨dag, traversed, (dagTraversal_dagOf traversed).2.of_agree agree⟩

/-- From the root alone, the block it links to twice is fetched once. -/
theorem sync_reproduces_the_dag_twin :
    MissingBlocks plainBlocks halfTwin twinRoot.1 [twinLeaf.1, twinLeaf.1] ∧
      ∀ order, ∃ dag, dagTraversal plainBlocks order (halfTwin.insert twinLeaf.1 twinLeaf.2)
        twinRoot.1 = .ok dag ∧ DagOf plainBlocks twinStore twinRoot.1 dag := by
  have reported : MissingBlocks plainBlocks halfTwin twinRoot.1 [twinLeaf.1, twinLeaf.1] :=
    ⟨4, by decide +kernel⟩
  have nothing : MissingBlocks plainBlocks (halfTwin.insert twinLeaf.1 twinLeaf.2) twinRoot.1 [] :=
    ⟨4, by decide +kernel⟩
  have complete : Complete plainBlocks twinStore twinRoot.1 :=
    (dagTraversal_ok_iff (fun _ _ => 0)).mp ⟨[twinRoot, twinLeaf], by decide +kernel⟩
  have sync : Sync plainBlocks twinStore twinRoot.1 halfTwin [twinLeaf.1]
      (halfTwin.insert twinLeaf.1 twinLeaf.2) :=
    .fetch reported List.mem_cons_self (by decide +kernel) (.done _)
  have agrees : AgreesOn plainBlocks twinStore twinRoot.1 halfTwin :=
    fun _ _ _ found => halfTwin_get found
  exact ⟨reported, (sync_reproduces_the_dag plainBlocks twinStore twinRoot.1 complete
    (acyclic_twin fun _ _ => id) halfTwin _ agrees _ sync).2.2.2.2 nothing⟩

end Ursa

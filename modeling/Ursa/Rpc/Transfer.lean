/-
# Rpc.Transfer — DAGs that clients download, export and import

`getData` asks the network for a root it does not have, and for nothing else: when the
root's block is stored it traverses what is there.  `getData_fetches_iff` says when that
is what a client wants.

A CAR file written from a complete DAG holds that DAG, so loading it into another node
makes the DAG complete there (`export_then_import_reproduces_the_dag`).
-/
import Ursa.Network.Indexing
import Ursa.Rpc.Api

namespace Ursa.Rpc

set_option autoImplicit false

open Ursa.Theory (Outcome)
open Ursa.Network
open Ursa.IndexProvider (Deps plainDeps)

variable {B : Blocks} {order : Nat → List Cid → Nat} {net : Network} {root : Cid} {s : Session}

/-! ## What `getData` returns -/

def Session.start (store : Store) : Session := { store, files := fun _ => none, log := [] }

variable (order) in
theorem traverse_of_complete (complete : Complete B s.store root) :
    ∃ dag, DagOf B s.store root dag ∧
      traverse B order root s = (.ok dag, { s with log := s.log ++ [.traversed root] }) := by
  obtain ⟨dag, traversed⟩ := (dagTraversal_ok_iff order).mpr complete
  refine ⟨dag, (dagTraversal_dagOf traversed).2, ?_⟩
  simp [traverse, traversed]

variable (order) in
theorem traverse_of_incomplete (incomplete : ¬ Complete B s.store root) :
    (traverse B order root s).1.Stops ∧
      (traverse B order root s).2 = { s with log := s.log ++ [.traversed root] } := by
  have stops := (dagTraversal_stops_iff order).mpr incomplete
  simp only [traverse, convertCid_toBytes]
  cases ended : dagTraversal B order s.store root with
  | ok dag =>
      rw [ended] at stops
      exact absurd stops (Outcome.stops_ok dag)
  | err e => exact ⟨trivial, rfl⟩
  | panic m => exact ⟨trivial, rfl⟩
  | diverge => exact absurd ended dagTraversal_ne_diverge

/-- A request is answered with success, or fails. -/
theorem request_cases (net : Network) (cid : Cid) (query : BitswapType) (s : Session) :
    ∃ answer store, net s.store cid query = (answer, store) ∧
      ((answer = .replied (.ok ()) ∧ request net cid query s =
          (.ok (), { s with store, log := s.log ++ [.asked cid query answer] })) ∨
        (answer ≠ .replied (.ok ()) ∧ ∃ e, request net cid query s =
          (.err e, { s with store, log := s.log ++ [.asked cid query answer] }))) := by
  cases asked : net s.store cid query with
  | mk answer store =>
      refine ⟨answer, store, rfl, ?_⟩
      cases answer with
      | sendFailed reason => exact .inr ⟨by simp, .send reason, by simp [request, asked]⟩
      | dropped => exact .inr ⟨by simp, .canceled, by simp [request, asked]⟩
      | replied result =>
          cases result with
          | error e => exact .inr ⟨by simp, .bitswapFailed e, by simp [request, asked]⟩
          | ok done => exact .inl ⟨rfl, by simp [request, asked]⟩

variable (order net) in
/-- `getData` on a root that is stored goes straight to the traversal. -/
theorem getData_of_has (has : s.store.has root = true) :
    getData B order net root s = traverse B order root s := by
  simp [getData, fetch, has]

variable (order net) in
/-- A complete DAG is returned as it is. -/
theorem getData_of_complete (complete : Complete B s.store root) :
    ∃ dag, DagOf B s.store root dag ∧
      getData B order net root s = (.ok dag, { s with log := s.log ++ [.traversed root] }) := by
  have has : s.store.has root = true := by
    obtain ⟨data, refs, found, -⟩ := complete root .refl
    exact (s.store.has_iff root).mpr ⟨data, found⟩
  obtain ⟨dag, dagOf, ended⟩ := traverse_of_complete order complete
  exact ⟨dag, dagOf, (getData_of_has order net has).trans ended⟩

/-- A `Sync` request that is answered with success leaves the root's DAG complete. -/
def SyncCompletes (B : Blocks) (net : Network) : Prop :=
  ∀ store root store', net store root .sync = (.replied (.ok ()), store') → Complete B store' root

/-- The traversal comes only after the DAG was found complete or a `Sync` request for
the root was answered with success.  On a network whose `Sync` completes DAGs, the call
fails only when a `Sync` request that it issued failed, and otherwise returns the whole
DAG. -/
structure FetchesMissing (B : Blocks) (order : Nat → List Cid → Nat) (net : Network) (root : Cid)
    (store : Store) : Prop where
  before : .traversed root ∈ (getData B order net root (.start store)).2.log →
    Complete B store root ∨
      .asked root .sync (.replied (.ok ())) ∈ (getData B order net root (.start store)).2.log
  result : SyncCompletes B net →
    (∃ dag, (getData B order net root (.start store)).1 = .ok dag ∧
      DagOf B (getData B order net root (.start store)).2.store root dag) ∨
    ((getData B order net root (.start store)).1.IsErr ∧
      ∃ answer, .asked root .sync answer ∈ (getData B order net root (.start store)).2.log ∧
        answer ≠ .replied (.ok ()))

variable (order) in
theorem traverse_log : (traverse B order root s).2.log = s.log ++ [.traversed root] := by
  simp only [traverse]
  cases dagTraversal B order s.store (convertCid root.toBytes) <;> rfl

variable (order net) in
/-- A root that is not stored is asked for. -/
theorem fetchesMissing_of_absent {store : Store} (absent : store.has root = false) :
    FetchesMissing B order net root store := by
  have asks : getData B order net root (.start store) =
      Outcome.andThen (request net root .sync (.start store)) fun _ s => traverse B order root s := by
    simp [getData, fetch, Session.start, absent]
  obtain ⟨answer, store', asked, ⟨rfl, replied⟩ | ⟨failed, e, replied⟩⟩ :=
    request_cases net root .sync (.start store)
  · have whole : getData B order net root (.start store) =
        traverse B order root ⟨store', fun _ => none, [.asked root .sync (.replied (.ok ()))]⟩ := by
      rw [asks, replied]
      rfl
    constructor
    · intro _
      rw [whole, traverse_log]
      exact .inr (by simp)
    · intro completes
      have complete := completes store root store' asked
      obtain ⟨dag, dagOf, ended⟩ := traverse_of_complete order
        (s := ⟨store', fun _ => none, [.asked root .sync (.replied (.ok ()))]⟩) complete
      rw [whole, ended]
      exact .inl ⟨dag, rfl, dagOf⟩
  · have whole : getData B order net root (.start store) =
        (.err e, ⟨store', fun _ => none, [.asked root .sync answer]⟩) := by
      rw [asks, replied]
      rfl
    constructor
    · simp [whole]
    · intro _
      rw [whole]
      exact .inr ⟨trivial, answer, List.mem_singleton.mpr rfl, failed⟩

variable (order net) in
theorem fetchesMissing_of_complete {store : Store} (complete : Complete B store root) :
    FetchesMissing B order net root store := by
  obtain ⟨dag, dagOf, whole⟩ := getData_of_complete order net (s := .start store) complete
  constructor
  · exact fun _ => .inl complete
  · intro _
    rw [whole]
    exact .inl ⟨dag, rfl, dagOf⟩

/-- **When `getData` fetches what is missing.**  Exactly when the root itself is not
stored, or nothing below it is missing either: a stored root is never asked for, so a DAG
of which only a part is stored ends the call without a `Sync` request. -/
theorem getData_fetches_iff (B : Blocks) (order : Nat → List Cid → Nat) (net : Network)
    (root : Cid) (store : Store) :
    FetchesMissing B order net root store ↔
      store.has root = false ∨ Complete B store root := by
  constructor
  · intro fetches
    by_contra neither
    rw [not_or, Bool.not_eq_false] at neither
    obtain ⟨has, incomplete⟩ := neither
    have whole := getData_of_has (B := B) (s := .start store) order net has
    obtain ⟨-, ended⟩ := traverse_of_incomplete order (s := .start store) incomplete
    have log : (getData B order net root (.start store)).2.log = [.traversed root] := by
      rw [whole, ended]
      rfl
    rcases fetches.before (by simp [log]) with complete | asked
    · exact incomplete complete
    · simp [log] at asked
  · rintro (absent | complete)
    · exact fetchesMissing_of_absent order net absent
    · exact fetchesMissing_of_complete order net complete

/-- A network that has the blocks of one store, and replies once they have arrived. -/
def syncFrom (blocks : Store) : Network := fun store cid _ =>
  if (dagTraversal plainBlocks (fun _ _ => 0) blocks cid).isOk then (.replied (.ok ()), blocks)
  else (.replied (.error (.notFound cid)), store)

theorem syncFrom_completes (blocks : Store) : SyncCompletes plainBlocks (syncFrom blocks) := by
  intro store root store' answered
  simp only [syncFrom] at answered
  split at answered
  · rename_i traversed
    cases answered
    exact (dagTraversal_ok_iff _).mp (Outcome.isOk_iff.mp traversed)
  · cases answered

theorem getData_fetches_iff_sample :
    FetchesMissing plainBlocks (fun _ _ => 0) (syncFrom UrsaService.sampleStore)
      UrsaService.sampleRoot.1 .empty :=
  (getData_fetches_iff plainBlocks _ _ _ _).mpr (.inl (by decide +kernel))

/-- What a `get` of the sample root leaves behind: its block and nothing below it. -/
def rootOnly : Store := Store.empty.put UrsaService.sampleRoot.1 UrsaService.sampleRoot.2

/-- A stored root hides what is missing below it: the call fails, although nobody was
asked and the network has the whole DAG. -/
theorem stored_root_hides_the_rest :
    rootOnly.has UrsaService.sampleRoot.1 = true ∧
      SyncCompletes plainBlocks (syncFrom UrsaService.sampleStore) ∧
      getData plainBlocks (fun _ _ => 0) (syncFrom UrsaService.sampleStore)
          UrsaService.sampleRoot.1 (.start rootOnly) =
        (.err (.traversal (.missing UrsaService.sampleRoot.1)),
          { Session.start rootOnly with log := [.traversed UrsaService.sampleRoot.1] }) ∧
      ¬ FetchesMissing plainBlocks (fun _ _ => 0) (syncFrom UrsaService.sampleStore)
        UrsaService.sampleRoot.1 rootOnly := by
  have has : rootOnly.has UrsaService.sampleRoot.1 = true := by decide +kernel
  have missing : dagTraversal plainBlocks (fun _ _ => 0) rootOnly UrsaService.sampleRoot.1 =
      .err (.missing UrsaService.sampleRoot.1) := by decide +kernel
  have whole : getData plainBlocks (fun _ _ => 0) (syncFrom UrsaService.sampleStore)
      UrsaService.sampleRoot.1 (.start rootOnly) =
      (.err (.traversal (.missing UrsaService.sampleRoot.1)),
        { Session.start rootOnly with log := [.traversed UrsaService.sampleRoot.1] }) := by
    rw [getData_of_has _ _ has]
    simp [traverse, Session.start, missing]
  refine ⟨has, syncFrom_completes _, whole, ?_⟩
  intro fetches
  rcases fetches.result (syncFrom_completes _) with ⟨dag, returned, -⟩ | ⟨-, answer, asked, -⟩
  · simp [whole] at returned
  · simp [whole] at asked

/-! ## Blocks written one after the other -/

theorem get_putAll_of_not_mem {blocks : List (Cid × Bytes)} {cid : Cid}
    (other : cid ∉ blocks.map Prod.fst) (store : Store) :
    (putAll store blocks).get cid = store.get cid := by
  induction blocks generalizing store with
  | nil => rfl
  | cons b rest ih =>
      simp only [List.map_cons, List.mem_cons, not_or] at other
      exact (ih other.2 _).trans (store.get_put_of_ne b.2 other.1)

theorem get_putAll_of_mem {blocks : List (Cid × Bytes)} (nodup : (blocks.map Prod.fst).Nodup)
    {b : Cid × Bytes} (member : b ∈ blocks) (store : Store) :
    (putAll store blocks).get b.1 = some b.2 := by
  induction blocks generalizing store with
  | nil => cases member
  | cons first rest ih =>
      simp only [List.map_cons, List.nodup_cons] at nodup
      rcases List.mem_cons.mp member with rfl | later
      · exact (get_putAll_of_not_mem nodup.1 _).trans (store.get_put_self _ _)
      · exact ih nodup.2 later _

/-- `after` has the root's DAG of `source`, and otherwise what `before` had. -/
structure Reproduces (B : Blocks) (source before after : Store) (root : Cid) : Prop where
  same : ∀ orderA orderB, ∃ dagA dagB, dagTraversal B orderA source root = .ok dagA ∧
    dagTraversal B orderB after root = .ok dagB ∧ ∀ e, e ∈ dagA ↔ e ∈ dagB
  others : ∀ cid, ¬ Reach B source root cid → after.get cid = before.get cid

/-- The blocks of a complete DAG, written into any store in any order that lists each of
them once, reproduce the DAG: they are closed under references. -/
theorem reproduces_putAll {source before : Store} {dag : List (Cid × Bytes)}
    (complete : Complete B source root) (dagOf : DagOf B source root dag) :
    Reproduces B source before (putAll before dag) root := by
  have agree : ∀ cid, Reach B source root cid → (putAll before dag).get cid = source.get cid := by
    intro cid reach
    obtain ⟨data, refs, found, -⟩ := complete cid reach
    have member : (cid, data) ∈ dag := (dagOf.mem (cid, data)).mpr ⟨reach, found⟩
    exact (get_putAll_of_mem dagOf.nodup member before).trans found.symm
  constructor
  · intro orderA orderB
    obtain ⟨dagA, endsA⟩ := (dagTraversal_ok_iff orderA).mpr complete
    obtain ⟨dagB, endsB⟩ := (dagTraversal_ok_iff orderB).mpr (complete.of_agree agree)
    refine ⟨dagA, dagB, endsA, endsB, ?_⟩
    intro e
    rw [(dagTraversal_dagOf endsA).2.mem, (dagTraversal_dagOf endsB).2.mem, reach_of_agree agree]
    exact and_congr_right fun reach => by rw [agree _ reach]
  · intro cid outside
    exact get_putAll_of_not_mem (fun member => outside ((dagOf.mem_iff cid).mp member)) before

/-! ## Export and import -/

theorem carBlocks_eq (dag : List (Cid × Bytes)) : carBlocks dag = dag := by
  simp [carBlocks]

/-- What clients export of a complete DAG: a CAR file of its traversal. -/
theorem exports_of_complete (car : CarCodec) (roundTrips : car.RoundTrips B)
    (order : Nat → List Cid → Nat) (net : Network) (complete : Complete B s.store root) :
    ∃ dag file, DagOf B s.store root dag ∧
      car.writeStream (carHeader root) (carBlocks dag) = .ok file ∧
      car.loadCar file = (dag, .ok [root]) ∧
      getData B order net root s = (.ok dag, { s with log := s.log ++ [.traversed root] }) := by
  obtain ⟨dag, dagOf, whole⟩ := getData_of_complete order net complete
  have accepted : ∀ b ∈ dag, B.new b.1 b.2 = true := by
    intro b member
    obtain ⟨reach, found⟩ := (dagOf.mem b).mp member
    obtain ⟨data, refs, stored, accepted, -⟩ := complete b.1 reach
    rw [found] at stored
    rwa [← Option.some.inj stored] at accepted
  obtain ⟨file, written, loaded⟩ := roundTrips [root] dag (List.cons_ne_nil _ _) accepted
  refine ⟨dag, file, dagOf, ?_, loaded, whole⟩
  rw [carBlocks_eq]
  exact written

/-- A file whose blocks are loaded without error is in the store, and its roots are
accepted by a running loop. -/
theorem putCar_of_loaded {K : Type} (deps : Deps K) {car : CarCodec} {file : Bytes}
    {dag : List (Cid × Bytes)} (loaded : car.loadCar file = (dag, .ok [root])) (sender : SenderId)
    (id : Nat) (b : UrsaService K) :
    (putCar deps B car file sender id b).2.store = putAll b.store dag ∧
      (b.status = .running → (putCar deps B car file sender id b).1 = .ok [root]) := by
  by_cases running : b.status = .running
  · simp [putCar, loaded, UrsaService.step, running, UrsaService.onCommand]
  · simp [putCar, loaded, UrsaService.step, running]

/-- **Export followed by import reproduces the DAG.**  The CAR file that `stream` and
`getFile` make of a complete DAG, loaded by `putCar` into another node, gives that node the
DAG, whatever else it holds and in whatever orders the traversals go. -/
theorem export_then_import_reproduces_the_dag {K : Type} (deps : Deps K) (B : Blocks)
    (car : CarCodec) (roundTrips : car.RoundTrips B) (order : Nat → List Cid → Nat)
    (net : Network) (root : Cid) (a : Session) (complete : Complete B a.store root)
    (files : FileEnv) (succeed : files.Succeed) (path name : String) (b : UrsaService K)
    (running : b.status = .running) (sender : SenderId) (id : Nat) :
    ∃ file, (stream B order car net root a).1 = .ok (.ok file) ∧
      (getFile B order car net files path name root a).1 = .ok () ∧
      (getFile B order car net files path name root a).2.files (carPath path name) = some file ∧
      (putCar deps B car file sender id b).1 = .ok [root] ∧
      Reproduces B a.store b.store (putCar deps B car file sender id b).2.store root := by
  obtain ⟨dag, file, dagOf, written, loaded, traversed⟩ :=
    exports_of_complete car roundTrips order net complete
  obtain ⟨stored, accepted⟩ := putCar_of_loaded (B := B) deps loaded sender id b
  obtain ⟨dir, above⟩ := parent_carPath path name
  refine ⟨file, ?_, ?_, ?_, accepted running, ?_⟩
  · simp [stream, traversed, written]
  · simp [getFile, traversed, written, above, succeed.createDir, succeed.create, succeed.write]
  · simp [getFile, traversed, written, above, succeed.createDir, succeed.create, succeed.write]
  · rw [stored]
    exact reproduces_putAll complete dagOf

theorem export_then_import_reproduces_the_dag_sample :
    ∃ file, (stream plainBlocks (fun _ _ => 0) plainCar (syncFrom .empty)
        UrsaService.sampleRoot.1 (.start UrsaService.sampleStore)).1 = .ok (.ok file) ∧
      (putCar plainDeps plainBlocks plainCar file 1 0 (UrsaService.sampleService .empty)).1 =
        .ok [UrsaService.sampleRoot.1] ∧
      Reproduces plainBlocks UrsaService.sampleStore .empty
        (putCar plainDeps plainBlocks plainCar file 1 0
          (UrsaService.sampleService .empty)).2.store UrsaService.sampleRoot.1 := by
  have complete : Complete plainBlocks UrsaService.sampleStore UrsaService.sampleRoot.1 :=
    (dagTraversal_ok_iff fun _ _ => 0).mp (Outcome.isOk_iff.mp (by decide +kernel))
  obtain ⟨file, streamed, -, -, accepted, reproduces⟩ :=
    export_then_import_reproduces_the_dag plainDeps plainBlocks plainCar
      (plainCar_roundTrips plainBlocks) (fun _ _ => 0) (syncFrom .empty) _
      (.start UrsaService.sampleStore) complete ⟨.ok (), .ok (), .ok ()⟩ ⟨rfl, rfl, rfl⟩ "." "root"
      (UrsaService.sampleService .empty) rfl 1 0
  exact ⟨file, streamed, accepted, reproduces⟩

end Ursa.Rpc

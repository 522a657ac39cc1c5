/-
# Rpc.Uploads — what becomes of the roots of an uploaded CAR file

`put_car` loads a CAR file into the block store, hands all its roots to the service
loop and returns them once the loop has replied.  The loop puts the first one into the
index provider's queue and replies with all of them.

A root that is in the queue is advertised when the queue is published next
(`advertised_of_enqueued`), so a client finds all acknowledged roots indexed exactly if
the others were enqueued by an earlier upload (`acknowledged_roots_indexed_iff`).
-/
import Ursa.Network.Queue
import Ursa.Rpc.Api

namespace Ursa.Rpc

set_option autoImplicit false

open Ursa.Theory (Outcome)
open Ursa.Theory.Run
open Ursa.Theory.LinkedChain
open Ursa.Network
open Ursa.Network.UrsaService
open Ursa.IndexProvider (Deps Provider Shared Advertisement plainDeps plainDeps_collisionFree)

section Facts

variable {K : Type} {deps : Deps K} {B : Blocks} {car : CarCodec} {s t : UrsaService K}

/-! ## An upload is a run of the service -/

theorem exec_inserts (blocks : List (Cid × Bytes)) (running : s.status = .running) :
    exec (step deps B) s (blocks.map fun b => .insert b.1 b.2) =
      some { s with store := putAll s.store blocks } := by
  induction blocks generalizing s with
  | nil => rfl
  | cons b rest ih =>
      have first : s.step deps B (.insert b.1 b.2) =
          some { s with store := s.store.put b.1 b.2 } := by
        simp [step, running]
      rw [List.map_cons, exec, first]
      exact ih running

/-- What an upload is to the service: the blocks are written, then the roots are sent. -/
def uploadInputs (blocks : List (Cid × Bytes)) (cids : List Cid) (sender : SenderId) (id : Nat) :
    List Input :=
  (blocks.map fun b => .insert b.1 b.2) ++ [.command (.index cids sender) id]

/-- An upload that is acknowledged wrote its blocks and had its roots indexed. -/
theorem putCar_ok {reader : Bytes} {sender : SenderId} {id : Nat} {cids : List Cid}
    (returned : putCar deps B car reader sender id s = (.ok cids, t)) :
    ∃ blocks root rest, cids = root :: rest ∧
      exec (step deps B) s (uploadInputs blocks cids sender id) = some t := by
  simp only [putCar] at returned
  split at returned
  · cases returned
  · rename_i cids' loaded
    split at returned
    · cases returned
    · rename_i t' taken
      split at returned
      · rename_i replied
        cases returned
        have running : s.status = .running := (running_of_step taken :)
        cases cids with
        | nil =>
            -- the loop panics on an empty list and drops the sender
            simp only [step, running, if_true] at taken
            cases taken
            simp [onCommand] at replied
        | cons root rest =>
            refine ⟨(car.loadCar reader).1, root, rest, rfl, ?_⟩
            rw [uploadInputs, exec_append_iff]
            exact ⟨_, exec_inserts _ running, (exec_cons_iff _).mpr ⟨t, taken, rfl⟩⟩
      · cases returned

theorem enqueuedRoots_upload (blocks : List (Cid × Bytes)) (root : Cid) (rest : List Cid)
    (sender : SenderId) (id : Nat) :
    enqueuedRoots (uploadInputs blocks (root :: rest) sender id) = [root] := by
  have inserts : (blocks.map fun b => Input.insert b.1 b.2).flatMap Input.enqueues = [] := by
    rw [List.flatMap_eq_nil_iff]
    intro input member
    obtain ⟨b, -, rfl⟩ := List.mem_map.mp member
    rfl
  rw [enqueuedRoots, uploadInputs, List.flatMap_append, inserts]
  rfl

/-! ## Enqueued roots are advertised -/

/-- Following `PreviousID` from the head meets an advertisement with the root as its
context. -/
def Advertised (s : Shared) (root : Cid) : Prop :=
  ∃ met cid ad, Walk (Ipld.linkAt "PreviousID") s.blockstore s.head met ∧
    (cid, Advertisement.toIpld ad) ∈ met ∧ ad.contextID = contextOf root

/-- After a `StartPublish` event has been handled and the queue was published, every root
that was ever enqueued is advertised. -/
theorem advertised_of_enqueued (indexed : Indexed deps s) (ledger : s.Ledger)
    (collisionFree : CollisionFree deps.objCid) {env : DeliverEnv} {address : Multiaddr}
    {later : List BehaviourEvent} (first : s.behaviour.events = .startPublish address :: later)
    (succeeds : PublishingSucceeds deps B s (.deliver env))
    (taken : s.step deps B (.deliver env) = some t) {root : Cid}
    (enqueued : root ∈ s.history.enqueued) : Advertised t.shared root := by
  have running := running_of_step taken
  have ledger' := ledger.step succeeds taken
  have handled := taken
  rw [step_deliver env running first] at handled
  obtain ⟨-, empty, same, status⟩ := onStartPublish_published (succeeds address later first) handled
  have indexed' := indexed.step collisionFree taken (status.trans running)
  rw [Ledger, empty, List.map_nil, List.append_nil] at ledger'
  have listed : contextOf root ∈ publishedContexts t.shared := by
    rw [ledger', same]
    exact List.mem_map_of_mem enqueued
  obtain ⟨e, published, context⟩ := List.mem_map.mp listed
  refine ⟨t.shared.ads, e.1, e.2, indexed'.chain.chain, ?_, context⟩
  exact List.mem_map.mpr ⟨e, List.mem_reverse.mp published, rfl⟩

end Facts

/-! ## Acknowledged roots -/

variable {K : Type}

/-- What an upload that was acknowledged with `cids` promises: all of them were put into
the provider's queue, so that whenever the queue is published next, all of them are
advertised. -/
structure RootsIndexed (deps : Deps K) (B : Blocks) (cids : List Cid) (t : UrsaService K) :
    Prop where
  queued : ∀ c ∈ cids, c ∈ t.history.enqueued
  advertised : ∀ c ∈ cids, ∀ inputs u env address later v,
    exec (step deps B) t inputs = some u → u.behaviour.events = .startPublish address :: later →
    PublishingSucceeds deps B u (.deliver env) → u.step deps B (.deliver env) = some v →
    Advertised v.shared c

/-- **When acknowledged roots are indexed.**  After any run, `put_car` that returns
`Ok(cids)` has put all of them into the queue, and so has them advertised, exactly if each
of them is the first root of the file or was enqueued earlier in the run. -/
theorem acknowledged_roots_indexed_iff (deps : Deps K) (B : Blocks) (peerId : PeerId)
    (config : NetworkConfig) (store : Store) (indexProvider : Provider K)
    (blockstore : Cid → Option Ipld) (collisionFree : CollisionFree deps.objCid)
    (inputs : List Input) (s : UrsaService K)
    (run : exec (step deps B) (new peerId config store indexProvider blockstore) inputs = some s)
    (car : CarCodec) (reader : Bytes) (sender : SenderId) (id : Nat) (cids : List Cid)
    (t : UrsaService K) (returned : putCar deps B car reader sender id s = (.ok cids, t)) :
    RootsIndexed deps B cids t ↔
      ∀ c ∈ cids, cids.head? = some c ∨ c ∈ enqueuedRoots inputs := by
  obtain ⟨blocks, root, rest, rfl, upload⟩ := putCar_ok returned
  have before : s.history.enqueued = enqueuedRoots inputs :=
    exec_log (fun _ _ _ taken => step_enqueued taken) run
  have after : t.history.enqueued = s.history.enqueued ++ [root] := by
    rw [← enqueuedRoots_upload blocks root rest sender id]
    exact exec_log (fun _ _ _ taken => step_enqueued taken) upload
  have queued : ∀ c, c ∈ t.history.enqueued ↔
      (root :: rest).head? = some c ∨ c ∈ enqueuedRoots inputs := by
    intro c
    rw [after, before, List.mem_append, List.mem_singleton, List.head?_cons, Option.some.injEq,
      or_comm, eq_comm]
  constructor
  · intro indexed c member
    exact (queued c).mp (indexed.queued c member)
  · intro known
    refine ⟨fun c member => (queued c).mpr (known c member), ?_⟩
    intro c member more u env address later v continued first succeeds taken
    have whole : exec (step deps B) (new peerId config store indexProvider blockstore)
        (inputs ++ (uploadInputs blocks (root :: rest) sender id ++ more)) = some u := by
      rw [exec_append_iff]
      exact ⟨s, run, (exec_append_iff _).mpr ⟨t, upload, continued⟩⟩
    have running := running_of_step taken
    have kept : u.history.enqueued = t.history.enqueued ++ enqueuedRoots more :=
      exec_log (fun _ _ _ taken => step_enqueued taken) continued
    apply advertised_of_enqueued
      (indexed_of_run collisionFree (indexed_new peerId config store indexProvider blockstore)
        whole running)
      (ledger_of_run (ledger_new peerId config store indexProvider blockstore) whole running)
      collisionFree first succeeds taken
    rw [kept]
    exact List.mem_append_left _ ((queued c).mpr (known c member))

/-- A CAR file with two roots, the second one a child of the first. -/
def twoRoots : List Cid := [sampleRoot.1, sampleLeaf.1]

def twoRootsCar : Bytes :=
  (plainCar.writeStream { roots := twoRoots, version := 1 } [sampleRoot, sampleLeaf]).toOption.getD []

theorem returned_of_outcome {α β : Type} {result : α × β} {outcome : α}
    (same : result.1 = outcome) : ∃ state, result = (outcome, state) :=
  ⟨result.2, Prod.ext same rfl⟩

theorem acknowledged_roots_indexed_iff_sample :
    ∃ s t, exec (step plainDeps plainBlocks) (sampleService .empty)
        [.command (.index [sampleLeaf.1] 1) 0] = some s ∧
      putCar plainDeps plainBlocks plainCar twoRootsCar 2 0 s = (.ok twoRoots, t) ∧
      RootsIndexed plainDeps plainBlocks twoRoots t := by
  have evaluated : (exec (step plainDeps plainBlocks) (sampleService .empty)
      [.command (.index [sampleLeaf.1] 1) 0]).map (fun s =>
        (putCar plainDeps plainBlocks plainCar twoRootsCar 2 0 s).1) = some (.ok twoRoots) := by
    decide +kernel
  obtain ⟨s, run, acknowledged⟩ := Option.map_eq_some_iff.mp evaluated
  obtain ⟨t, returned⟩ := returned_of_outcome acknowledged
  refine ⟨s, t, run, returned, ?_⟩
  refine (acknowledged_roots_indexed_iff plainDeps plainBlocks _ _ _ _ _ plainDeps_collisionFree
    _ s run plainCar twoRootsCar 2 0 twoRoots t returned).mpr ?_
  decide +kernel

/-- Both roots are acknowledged, the second one is not enqueued, and when the queue is
published only the first one is advertised. -/
theorem second_root_is_not_indexed :
    ∃ s t v, exec (step plainDeps plainBlocks) (sampleService .empty)
        [.autonat (.reachable sampleAddress)] = some s ∧
      putCar plainDeps plainBlocks plainCar twoRootsCar 2 0 s = (.ok twoRoots, t) ∧
      sampleLeaf.1 ∉ t.history.enqueued ∧ ¬ RootsIndexed plainDeps plainBlocks twoRoots t ∧
      exec (step plainDeps plainBlocks) t [.deliver quietEnv, .deliver quietEnv] = some v ∧
      v.status = .running ∧ v.shared.published.length = 1 := by
  have evaluated : (exec (step plainDeps plainBlocks) (sampleService .empty)
      [.autonat (.reachable sampleAddress)]).map (fun s =>
        ((putCar plainDeps plainBlocks plainCar twoRootsCar 2 0 s).1,
          (putCar plainDeps plainBlocks plainCar twoRootsCar 2 0 s).2.history.enqueued)) =
      some (.ok twoRoots, [sampleRoot.1]) := by decide +kernel
  have published : (exec (step plainDeps plainBlocks) (sampleService .empty)
      [.autonat (.reachable sampleAddress)]).map (fun s =>
        (exec (step plainDeps plainBlocks)
          (putCar plainDeps plainBlocks plainCar twoRootsCar 2 0 s).2
          [.deliver quietEnv, .deliver quietEnv]).map fun v =>
            (v.status, v.shared.published.length)) = some (some (.running, 1)) := by decide +kernel
  obtain ⟨s, run, facts⟩ := Option.map_eq_some_iff.mp evaluated
  rw [run, Option.map_some, Option.some.injEq] at published
  simp only [Prod.mk.injEq] at facts
  obtain ⟨t, returned⟩ := returned_of_outcome facts.1
  rw [returned] at facts published
  obtain ⟨v, continued, after⟩ := Option.map_eq_some_iff.mp published
  simp only [Prod.mk.injEq] at after
  have absent : sampleLeaf.1 ∉ t.history.enqueued := by
    rw [facts.2]
    decide +kernel
  refine ⟨s, t, v, run, returned, absent, ?_, continued, after.1, after.2⟩
  intro indexed
  exact absent (indexed.queued sampleLeaf.1 (by simp [twoRoots]))

end Ursa.Rpc

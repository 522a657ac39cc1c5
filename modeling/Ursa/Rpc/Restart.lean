/-
# Rpc.Restart — a node that is stopped and started again

`main` opens two databases, builds the node on them and runs it until it is interrupted or
killed, at any point.  An error or a panic of the service loop ends the loop alone: the process
goes on without it, and its provider and its RPC server still answer.  The next start opens the
same databases, with whatever the last turn had written to them.  Everything else is gone: the
head of the advertisement chain, the queue of roots, drafts, queries, calls that were waiting.

`promises_survive_restarts` says what does outlive the process: a file that a client was told
is stored, and an advertisement that an indexer could reach while the loop ran, whether the
node went on or not, and however often it was started again.
-/
import Ursa.Rpc.Http
import Ursa.IndexProvider.Interleaving

namespace Ursa.Rpc

set_option autoImplicit false

open Ursa.Theory (Outcome)
open Ursa.Theory.Run
open Ursa.Theory.LinkedChain
open Ursa.Network
open Ursa.IndexProvider

/-! ## Starting again -/

section Model

variable {K : Type} (deps : Deps K) (B : Blocks) (car : CarCodec)

/-- Objects that are written one after the other, each under its CID. -/
def writeObjects (objects : List Ipld) (blockstore : Cid → Option Ipld) : Cid → Option Ipld :=
  objects.foldl
    (fun blockstore object =>
      match deps.objCid object with
      | some cid => Function.update blockstore cid (some object)
      | none => blockstore)
    blockstore

/-- How the node is started again. -/
structure Boot (K : Type) where
  peerId : PeerId
  config : NetworkConfig
  indexProvider : Provider K
  /-- What a turn that was cut short had written to the provider's database. -/
  written : List Ipld

inductive LifeInput (K : Type) where
  | server (input : ServerInput)
  | restart (boot : Boot K)

namespace Server

def blockstore (s : Server K) : Cid → Option Ipld := s.node.service.shared.blockstore

/-- `main` on the databases of `s`. -/
def restart (s : Server K) (boot : Boot K) : Server K :=
  new (.new (.new boot.peerId boot.config s.store boot.indexProvider
    (writeObjects deps boot.written s.blockstore)))

def lifeStep (s : Server K) : LifeInput K → Option (Server K)
  | .server input => s.step deps B car input
  | .restart boot => some (s.restart deps boot)

/-- What is asked of the inputs of a life: genuine blocks, and keys that sign. -/
def LifeGenuine (is : Cid → Bytes → Prop) (s : Server K) : LifeInput K → Prop
  | .server input => Genuine car is s input
  | .restart boot => Lawful deps boot.indexProvider.keypair

end Server

end Model

/-! ## What is written stays -/

section Keeps

variable {K : Type} {deps : Deps K} {p : Provider K}

theorem keeps_writeObjects (collisionFree : CollisionFree deps.objCid) (objects : List Ipld)
    (blockstore : Cid → Option Ipld) :
    Keeps deps.objCid blockstore (writeObjects deps objects blockstore) := by
  induction objects generalizing blockstore with
  | nil => exact .refl
  | cons object rest ih =>
      rw [writeObjects, List.foldl_cons]
      cases own : deps.objCid object with
      | none => exact ih blockstore
      | some cid => exact (Keeps.put collisionFree own).trans (ih _)

/-- Whatever the provider does, what it has stored stays. -/
theorem along_keeps (collisionFree : CollisionFree deps.objCid) :
    Along deps p fun s t => Keeps deps.objCid s.blockstore t.blockstore where
  refl _ := .refl
  trans _ _ _ := Keeps.trans
  queue _ _ := .refl
  create _ _ _ := .refl
  addChunk := keeps_addChunk collisionFree
  publish := keeps_publish collisionFree

end Keeps

/-! ## What a step of the server is for the service -/

namespace Server

variable {K : Type} {deps : Deps K} {B : Blocks} {car : CarCodec} {is : Cid → Bytes → Prop}
  {s t : Server K}

/-- The service is left alone, takes a turn, or has a genuine block written to its store. -/
inductive ServiceStep (deps : Deps K) (B : Blocks) (is : Cid → Bytes → Prop)
    (u : UrsaService K) : UrsaService K → Prop where
  | same : ServiceStep deps B is u u
  | turn (input : Input) (v : UrsaService K) (genuine : input.Genuine is)
      (taken : u.step deps B input = some v) : ServiceStep deps B is u v
  | write (cid : Cid) (data : Bytes) (genuine : is cid data) :
      ServiceStep deps B is u { u with store := u.store.put cid data }

theorem serviceStep_node {n n' : Node K} {input : NodeInput} (genuine : input.Genuine is)
    (taken : n.step deps B input = some n') : ServiceStep deps B is n.service n'.service := by
  cases input with
  | service own =>
      have served : (n.service.step deps B own).map (fun service => { n with service }) =
          some n' := by
        cases own with
        | command command id => cases taken
        | _ => exact taken
      obtain ⟨service, moved, rfl⟩ := Option.map_eq_some_iff.mp served
      exact .turn own service genuine moved
  | take id =>
      simp only [Node.step] at taken
      split at taken
      · cases taken
      · rename_i command commands _
        obtain ⟨service, moved, rfl⟩ := Option.map_eq_some_iff.mp taken
        exact .turn (.command command id) service trivial moved
  | client command =>
      cases taken
      exact .same
  | insert cid data =>
      cases taken
      exact .write cid data genuine
  | get cid =>
      cases taken
      exact .same
  | resume i =>
      simp only [Node.step] at taken
      split at taken
      · obtain ⟨⟨stage, n₁⟩, proceeded, rfl⟩ := Option.map_eq_some_iff.mp taken
        rcases proceed_cases proceeded with rfl | rfl
        · exact .same
        · exact .same
      · cases taken

theorem serviceStep (inv : Inv car is s) {input : ServerInput} (genuine : Genuine car is s input)
    (taken : s.step deps B car input = some t) :
    ServiceStep deps B is s.node.service t.node.service := by
  cases input with
  | node input =>
      obtain ⟨node, moved, rfl⟩ := Option.map_eq_some_iff.mp taken
      exact serviceStep_node genuine moved
  | put file =>
      cases taken
      exact .same
  | resume i =>
      simp only [Server.step] at taken
      split at taken
      · rename_i call listed
        obtain ⟨⟨stage, node⟩, proceeded, rfl⟩ := Option.map_eq_some_iff.mp taken
        have progress := inv.puts call (List.mem_of_getElem? listed)
        unfold proceed at proceeded
        split at proceeded
        · rename_i b blocks loaded stands
          cases proceeded
          rw [stands] at progress
          exact .write b.1 b.2 (progress.2.1 b List.mem_cons_self)
        · cases proceeded
          exact .same
        · split at proceeded <;> cases proceeded <;> exact .same
        · split at proceeded
          · cases proceeded
            exact .same
          · split at proceeded <;> cases proceeded
            exact .same
        · cases proceeded
      · cases taken

/-! ## What outlives a process -/

/-- The databases of the later node have what those of the earlier one had. -/
structure Persists (deps : Deps K) (s t : Server K) : Prop where
  kept : ∀ cid data, s.store.get cid = some data → t.store.get cid = some data
  keeps : Keeps deps.objCid s.blockstore t.blockstore

theorem Persists.trans {u : Server K} (first : Persists deps s t) (second : Persists deps t u) :
    Persists deps s u where
  kept cid data stored := second.kept cid data (first.kept cid data stored)
  keeps := first.keeps.trans second.keeps

/-- What holds of a node in every state of its life. -/
structure LifeInv (deps : Deps K) (B : Blocks) (car : CarCodec) (is : Cid → Bytes → Prop)
    (s : Server K) : Prop where
  server : Inv car is s
  lawful : Lawful deps s.node.service.indexProvider.keypair
  catalogued : s.node.service.status = .running →
    UrsaService.Indexed deps s.node.service ∧ UrsaService.Catalogued deps B is s.node.service

/-- A node that has just been started on these databases. -/
theorem lifeInv_new (peerId : PeerId) (config : NetworkConfig) {store : Store}
    {indexProvider : Provider K} (blockstore : Cid → Option Ipld) (clean : Clean is store)
    (lawful : Lawful deps indexProvider.keypair) :
    LifeInv deps B car is
      (new (.new (.new peerId config store indexProvider blockstore)) : Server K) where
  server := ⟨clean, nofun, nofun, nofun⟩
  lawful := lawful
  catalogued _ := ⟨UrsaService.indexed_new _ _ _ _ _, UrsaService.catalogued_new _ _ _ _ clean⟩

/-- What a step of the service does to the provider's database, and to a catalogue. -/
theorem ServiceStep.keeps (collisionFree : CollisionFree deps.objCid) {u v : UrsaService K}
    (turned : ServiceStep deps B is u v) :
    v.indexProvider = u.indexProvider ∧ Keeps deps.objCid u.shared.blockstore v.shared.blockstore := by
  cases turned with
  | same => exact ⟨rfl, .refl⟩
  | turn input v genuine taken =>
      exact ⟨UrsaService.step_indexProvider taken, (along_keeps collisionFree).step taken⟩
  | write cid data genuine => exact ⟨rfl, .refl⟩

theorem ServiceStep.catalogued (single : Single is) {u v : UrsaService K}
    (turned : ServiceStep deps B is u v) (lawful : Lawful deps u.indexProvider.keypair)
    (before : u.status = .running →
      UrsaService.Indexed deps u ∧ UrsaService.Catalogued deps B is u)
    (running : v.status = .running) :
    UrsaService.Indexed deps v ∧ UrsaService.Catalogued deps B is v := by
  have onTurn (input : Input) (genuine : input.Genuine is) (taken : u.step deps B input = some v) :
      UrsaService.Indexed deps v ∧ UrsaService.Catalogued deps B is v := by
    obtain ⟨indexed, catalogued⟩ := before (UrsaService.running_of_step taken)
    exact ⟨indexed.step lawful.collisionFree taken running,
      catalogued.step single lawful indexed genuine taken running⟩
  cases turned with
  | same => exact before running
  | turn input v genuine taken => exact onTurn input genuine taken
  | write cid data genuine =>
      -- While the loop runs, a write is a turn of its own.
      have taken : u.step deps B (.insert cid data) =
          some { u with store := u.store.put cid data } := if_pos running
      exact onTurn (.insert cid data) genuine taken

theorem LifeInv.step (single : Single is) (inv : LifeInv deps B car is s) {input : LifeInput K}
    (genuine : LifeGenuine deps car is s input) (taken : s.lifeStep deps B car input = some t) :
    Persists deps s t ∧ LifeInv deps B car is t := by
  have collisionFree := inv.lawful.collisionFree
  cases input with
  | restart boot =>
      cases taken
      exact ⟨⟨fun _ _ => id, keeps_writeObjects collisionFree boot.written s.blockstore⟩,
        lifeInv_new boot.peerId boot.config _ inv.server.clean genuine⟩
  | server input =>
      obtain ⟨grows, server⟩ := inv.server.step single genuine taken
      have turned := serviceStep inv.server genuine taken
      obtain ⟨provider, keeps⟩ := turned.keeps collisionFree
      exact ⟨⟨grows.kept, keeps⟩, server, provider ▸ inv.lawful,
        turned.catalogued single inv.lawful inv.catalogued⟩

theorem LifeInv.run (single : Single is) (inv : LifeInv deps B car is s)
    {inputs : List (LifeInput K)} (taken : exec (lifeStep deps B car) s inputs = some t)
    (genuine : Meets (lifeStep deps B car) (LifeGenuine deps car is) s inputs) :
    Persists deps s t ∧ LifeInv deps B car is t := by
  refine exec_invariant
    (I := fun u : Server K => Persists deps s u ∧ LifeInv deps B car is u) ?_
    ⟨⟨fun _ _ => id, .refl⟩, inv⟩ genuine taken
  rintro u input v ⟨persists, inv⟩ genuine taken
  obtain ⟨further, inv'⟩ := inv.step single genuine taken
  exact ⟨persists.trans further, inv'⟩

/-- **Promises survive restarts.**  Take any life of a node in which blocks that are written
are what their CIDs stand for: turns, uploads and reads in any order, and any number of ends
and new starts, at any point.  A file that a client has been told is stored can be read back
whole and block by block at every later time, before and after any restart.  And as long as a
process's loop runs, what can be reached from its head is what this process has published,
which is what it was told to, but for what it has still queued; and each of these
advertisements offers its DAG at every later time, too. -/
theorem promises_survive_restarts (deps : Deps K) (B : Blocks) (car : CarCodec)
    (roundTrips : car.RoundTrips B) (peerId : PeerId) (config : NetworkConfig) (store : Store)
    (indexProvider : Provider K) (blockstore : Cid → Option Ipld)
    (lawful : Lawful deps indexProvider.keypair) (is : Cid → Bytes → Prop) (single : Single is)
    (clean : Clean is store) (before after : List (LifeInput K)) (s t : Server K)
    (life : exec (lifeStep deps B car)
      (new (.new (.new peerId config store indexProvider blockstore))) before = some s)
    (genuine : Meets (lifeStep deps B car) (LifeGenuine deps car is)
      (new (.new (.new peerId config store indexProvider blockstore))) before)
    (later : exec (lifeStep deps B car) s after = some t)
    (genuine' : Meets (lifeStep deps B car) (LifeGenuine deps car is) s after) :
    (∀ put ∈ s.puts, ∀ result, put.stage = .returned result → Acknowledged result →
      Retrievable B car put.file t.store) ∧
    (s.node.service.status = .running →
      Walk (Ipld.linkAt "PreviousID") s.blockstore s.node.service.shared.head
        s.node.service.shared.ads ∧
      ∃ roots, s.node.service.history.enqueued = roots ++ s.node.service.shared.rootCids ∧
        List.Forall₂ (Offers deps B t.store t.blockstore) s.node.service.shared.published.reverse
          roots) := by
  obtain ⟨-, inv⟩ := LifeInv.run single (lifeInv_new peerId config blockstore clean lawful) life genuine
  obtain ⟨persists, -⟩ := inv.run single later genuine'
  constructor
  · intro put member result returned acknowledged
    obtain ⟨cids, rfl⟩ := acknowledged.returned
    have progress := inv.server.puts put member
    rw [returned] at progress
    obtain ⟨⟨-, holds⟩, -⟩ := progress cids rfl
    exact retrievable_of_stored roundTrips fun b listed => persists.kept b.1 b.2 (holds b listed)
  · intro running
    obtain ⟨indexed, catalogued⟩ := inv.catalogued running
    obtain ⟨roots, enqueued, offers⟩ := catalogued.offers
    exact ⟨indexed.chain.chain, roots, enqueued,
      offers_keep offers indexed.addressed persists.kept persists.keeps⟩

/-! A file is uploaded and published; the node is stopped in the middle of another object, and
started again under a new identity. -/

def uploadAndPublish : List (LifeInput Unit) :=
  [.server (.put sampleFile), .server (.resume 0), .server (.resume 0), .server (.resume 0),
    .server (.node (.service (.autonat (.reachable UrsaService.sampleAddress)))),
    .server (.node (.take 0)), .server (.resume 0),
    .server (.node (.service (.deliver UrsaService.quietEnv))),
    .server (.node (.service (.deliver UrsaService.quietEnv)))]

def stopAndStart : List (LifeInput Unit) :=
  [.restart
    { peerId := ⟨"12D3KooWOther"⟩
      config :=
        { swarmAddr := [.ip4 "0.0.0.0", .tcp 6009], bootstrapNodes := [], autonat := true
          relayClient := false }
      indexProvider := sampleProvider
      written := [.string "leftover"] },
    .server (.put leafFile), .server (.resume 0)]

theorem genuine_uploadAndPublish (deps : Deps Unit) (s : Server Unit) :
    Meets (lifeStep deps plainBlocks plainCar) (LifeGenuine deps plainCar SampleBlock) s
      uploadAndPublish := by
  apply meets_of_forall
  intro input member s
  simp only [uploadAndPublish, List.mem_cons, List.not_mem_nil, or_false] at member
  rcases member with rfl | rfl | rfl | rfl | rfl | rfl | rfl | rfl | rfl
  · exact sampleBlock_of_file sampleFile (by simp)
  all_goals trivial

theorem genuine_stopAndStart {deps : Deps Unit} (lawful : Lawful deps ()) (s : Server Unit) :
    Meets (lifeStep deps plainBlocks plainCar) (LifeGenuine deps plainCar SampleBlock) s
      stopAndStart := by
  apply meets_of_forall
  intro input member s
  simp only [stopAndStart, List.mem_cons, List.not_mem_nil, or_false] at member
  rcases member with rfl | rfl | rfl
  · exact lawful
  · exact sampleBlock_of_file leafFile (by simp)
  · trivial

theorem promises_survive_restarts_sample :
    ∃ s t : Server Unit,
      exec (lifeStep plainDeps plainBlocks plainCar)
        (new (.new (UrsaService.sampleService .empty))) uploadAndPublish = some s ∧
      exec (lifeStep plainDeps plainBlocks plainCar) s stopAndStart = some t ∧
      t.node.service.shared.head = none ∧
      Retrievable plainBlocks plainCar sampleFile t.store ∧
      List.Forall₂ (Offers plainDeps plainBlocks t.store t.blockstore)
        s.node.service.shared.published.reverse [UrsaService.sampleRoot.1] := by
  have evaluated : (exec (lifeStep plainDeps plainBlocks plainCar)
      (new (.new (UrsaService.sampleService .empty))) uploadAndPublish).map (fun s =>
        (s.node.service.status, s.node.service.history.enqueued,
          s.node.service.shared.rootCids)) =
      some (.running, [UrsaService.sampleRoot.1], []) := by decide +kernel
  have uploaded : (exec (lifeStep plainDeps plainBlocks plainCar)
      (new (.new (UrsaService.sampleService .empty))) uploadAndPublish).bind (fun s =>
        s.puts[0]?.map fun put => (put.file, roots put)) =
      some (sampleFile, some [UrsaService.sampleRoot.1]) := by decide +kernel
  have restarted : (exec (lifeStep plainDeps plainBlocks plainCar)
      (new (.new (UrsaService.sampleService .empty))) (uploadAndPublish ++ stopAndStart)).map
        (fun t => t.node.service.shared.head) = some none := by decide +kernel
  obtain ⟨s, life, facts⟩ := Option.map_eq_some_iff.mp evaluated
  simp only [Prod.mk.injEq] at facts
  obtain ⟨running, enqueued, queue⟩ := facts
  rw [life, Option.bind_some, Option.map_eq_some_iff] at uploaded
  obtain ⟨put, listed, isPut⟩ := uploaded
  simp only [Prod.mk.injEq] at isPut
  obtain ⟨isFile, ended⟩ := isPut
  obtain ⟨t, whole, head⟩ := Option.map_eq_some_iff.mp restarted
  obtain ⟨s', life', later⟩ := (exec_append_iff _).mp whole
  obtain rfl : s = s' := Option.some.inj (life.symm.trans life')
  obtain ⟨stays, advertised⟩ := promises_survive_restarts plainDeps plainBlocks plainCar
    (plainCar_roundTrips plainBlocks) _ _ _ _ _ plainDeps_lawful _ sampleBlock_single
    sampleBlock_clean uploadAndPublish stopAndStart s t life (genuine_uploadAndPublish _ _) later
    (genuine_stopAndStart plainDeps_lawful s)
  obtain ⟨-, roots, all, offers⟩ := advertised running
  rw [enqueued, queue, List.append_nil] at all
  rw [← isFile, all]
  exact ⟨s, t, life, later, head, stays put (List.mem_of_getElem? listed) _ (returned_of_roots ended)
    (.rpc (fun _ => "") "" _ rfl), offers⟩

end Server

end Ursa.Rpc

/-
# Network.Indexing — uploads become advertisements, or stop the node

What the service loop does with the roots that `Index` commands put into the index
provider's queue, over whole runs of the loop.

As long as the loop runs, the advertisement chain is intact and no advertisement is
pending between two turns (`Indexed`), because a publish that fails ends the loop.
So a `StartPublish` event that finds every queued DAG complete publishes one
advertisement per root, in queue order (`startPublish_advertises_the_dags`).

A queued root whose DAG is not complete ends the loop: the error of the traversal is
passed on by `?`.  So does a write that the provider's blockstore refuses, which is
unwrapped, an announcement that gossip refuses while the indexer's URL cannot be parsed, and
a database that cannot be read, in a traversal or in the `Bitswap` arm (`LoopInput`).
`upload_survives_iff` says exactly what has to be there for the loop to go on.
-/
import Ursa.Network.Service

namespace Ursa.Network

set_option autoImplicit false

open Ursa.Theory (Outcome)
open Ursa.Theory.Run
open Ursa.Theory.LinkedChain
open Ursa.IndexProvider

namespace UrsaService

variable {K : Type} {deps : Deps K} {B : Blocks} {s t : UrsaService K} {input : Input}

/-! ## What a step does to the provider and to the loop -/

/-- The inputs that reach the index provider, or can end the loop without it. -/
inductive Touches (s : UrsaService K) : Input → Prop where
  | index (cids : List Cid) (sender : SenderId) (id : Nat) :
      Touches s (.command (.index cids sender) id)
  | sendResponse (requestId : RequestId) (response : UrsaExchangeResponse) (channel : SenderId)
      (id : Nat) : Touches s (.command (.sendResponse requestId response channel) id)
  | listen (env : DeliverEnv) (later : List BehaviourEvent)
      (first : s.behaviour.events = .natStatusChanged .unknown .behindNat :: later) :
      Touches s (.deliver env)
  | startPublish (env : DeliverEnv) (address : Multiaddr) (later : List BehaviourEvent)
      (first : s.behaviour.events = .startPublish address :: later) : Touches s (.deliver env)

/-- What leaves the provider as it is and the loop running. -/
def Untouched (s t : UrsaService K) : Prop :=
  t.shared = s.shared ∧ t.status = .running ∧ t.indexProvider = s.indexProvider

theorem onEvent_untouched {env : DeliverEnv} {event : BehaviourEvent}
    {later : List BehaviourEvent} (running : s.status = .running)
    (first : s.behaviour.events = event :: later)
    (taken : onEvent deps B { s with behaviour := { s.behaviour with events := later } } env event =
      some t) (other : ¬ Touches s (.deliver env)) : Untouched s t := by
  cases event with
  | bitswap info =>
      obtain ⟨_, _, _, rfl⟩ := onBitswap_frame taken
      exact ⟨rfl, running, rfl⟩
  | natStatusChanged old new =>
      cases taken
      cases old <;> cases new <;> first
        | exact ⟨rfl, running, rfl⟩
        | exact absurd (.listen env later first) other
  | startPublish address => exact absurd (.startPublish env address later first) other
  | gossipMessage peer topic message =>
      cases taken
      simp only [Untouched]
      split <;> exact ⟨rfl, running, rfl⟩
  | _ =>
      cases taken
      exact ⟨rfl, running, rfl⟩

/-- Every other step leaves the provider as it is and the loop running. -/
theorem step_untouched (taken : s.step deps B input = some t) (other : ¬ Touches s input) :
    Untouched s t := by
  have running := running_of_step taken
  cases turn_of_step taken with
  | command command id =>
      cases command with
      | getBitswap cid query sender =>
          simp only [onCommand]
          split <;> exact ⟨rfl, running, rfl⟩
      | index cids sender => exact absurd (.index cids sender id) other
      | sendResponse r response channel => exact absurd (.sendResponse r response channel id) other
      | _ => exact ⟨rfl, running, rfl⟩
  | deliver env event later _ first handled => exact onEvent_untouched running first handled other
  | _ => exact ⟨rfl, running, rfl⟩

/-- Delivering a NAT status. -/
theorem onNatStatusChanged_shared (env : DeliverEnv) (old new : NatStatus) :
    (s.onNatStatusChanged env old new).shared = s.shared ∧
      (s.onNatStatusChanged env old new).indexProvider = s.indexProvider := by
  rcases onNatStatusChanged_cases s env old new with ⟨_, -, same⟩ | ⟨-, _, _, same⟩
  · rw [same]
    exact ⟨rfl, rfl⟩
  · rw [same]
    exact ⟨rfl, rfl⟩

/-- The service keeps its own index provider. -/
theorem step_indexProvider (taken : s.step deps B input = some t) :
    t.indexProvider = s.indexProvider := by
  by_cases touches : Touches s input
  swap
  · exact (step_untouched taken touches).2.2
  have running := running_of_step taken
  cases touches with
  | index cids sender id =>
      simp only [step, running] at taken
      cases taken
      cases cids <;> rfl
  | sendResponse r response channel id =>
      simp only [step, running] at taken
      cases taken
      rfl
  | listen env later first =>
      rw [step_deliver env running first] at taken
      cases taken
      exact (onNatStatusChanged_shared env .unknown .behindNat).2
  | startPublish env address later first =>
      rw [step_deliver env running first] at taken
      obtain ⟨_, _, _, rfl⟩ := onStartPublish_frame taken
      rfl

/-! ## As long as the loop runs -/

/-- The advertisement chain is intact and no advertisement is pending. -/
structure Indexed (deps : Deps K) (s : UrsaService K) : Prop where
  chain : ChainInv deps s.shared
  idle : ∀ id, s.shared.tempAds id = none

theorem Indexed.of_shared (indexed : Indexed deps s) (same : t.shared = s.shared) :
    Indexed deps t := by
  constructor
  · rw [same]
    exact indexed.chain
  · rw [same]
    exact indexed.idle

/-- A step that leaves the loop running leaves nothing half-built: a publish that
fails ends the loop. -/
theorem Indexed.step (collisionFree : CollisionFree deps.objCid) (indexed : Indexed deps s)
    (taken : s.step deps B input = some t) (running : t.status = .running) : Indexed deps t := by
  by_cases touches : Touches s input
  swap
  · exact indexed.of_shared (step_untouched taken touches).1
  have before := running_of_step taken
  cases touches with
  | index cids sender id =>
      simp only [UrsaService.step, before] at taken
      cases taken
      cases cids with
      | nil => cases running
      | cons root cids => exact ⟨indexed.chain.setQueue _, indexed.idle⟩
  | sendResponse r response channel id =>
      simp only [UrsaService.step, before] at taken
      cases taken
      cases running
  | listen env later first =>
      rw [step_deliver env before first] at taken
      cases taken
      exact indexed.of_shared (onNatStatusChanged_shared env .unknown .behindNat).1
  | startPublish env address later first =>
      rw [step_deliver env before first] at taken
      simp only [onEvent, onStartPublish] at taken
      split at taken
      · rename_i published
        cases taken
        obtain ⟨chain, idle⟩ := publishQueue_keeps collisionFree (Prod.ext published rfl)
          indexed.chain indexed.idle
        exact ⟨chain, idle⟩
      · cases taken
        cases running
      · cases taken
        cases running
      · cases taken

theorem indexed_new (peerId : PeerId) (config : NetworkConfig) (store : Store)
    (indexProvider : Provider K) (blockstore : Cid → Option Ipld) :
    Indexed deps (new peerId config store indexProvider blockstore) :=
  ⟨ChainInv.start blockstore, fun _ => rfl⟩

/-- In every run, as long as the loop runs. -/
theorem indexed_of_run (collisionFree : CollisionFree deps.objCid) {start : UrsaService K}
    (indexed : Indexed deps start) {inputs : List Input}
    (run : exec (step deps B) start inputs = some s) (running : s.status = .running) :
    Indexed deps s := by
  refine exec_invariant (I := fun s : UrsaService K => s.status = .running → Indexed deps s) ?_
    (fun _ => indexed) (meets_of_forall (fun _ _ _ => trivial) _) run running
  intro s input t kept _ taken running
  exact (kept (running_of_step taken)).step collisionFree taken running

/-! ## What is advertised -/

/-- Handling `StartPublish` when every queued root is ready. -/
theorem onStartPublish_ok (lawful : Lawful deps s.indexProvider.keypair) (indexed : Indexed deps s)
    (address : Multiaddr) {env : DeliverEnv}
    (ready : ∀ i root, s.shared.rootCids[i]? = some root →
      RootReady deps B s.indexProvider s.peerId s.store (env.roots i) root) :
    ∃ t ads sent, s.onStartPublish deps B env address = some t ∧ t.status = s.status ∧
      t.history.announced = s.history.announced ++ sent ∧ ChainInv deps t.shared ∧
      PublishesAll deps B s.indexProvider s.peerId s.store (fun i => (env.roots i).order)
        s.shared.rootCids s.shared t.shared ads sent := by
  obtain ⟨shared, ads, sent, runs, chain, all⟩ :=
    publishQueue_ok s.peerId lawful (advertisedAddress address) s.shared.rootCids 0
      (by simpa only [Nat.zero_add] using ready) rfl indexed.chain indexed.idle s.history.announced
  simp only [Nat.zero_add] at all
  refine ⟨{ s with shared, history := { s.history with announced := s.history.announced ++ sent } },
    ads, sent, ?_, rfl, rfl, chain, all⟩
  simp only [onStartPublish, runs]

/-- **What is advertised is the DAG.**  In every run, when a `StartPublish` event is
handled while every queued DAG is complete, one advertisement per queued root is
published, in queue order, on top of the earlier ones; each advertises its root's DAG
exactly; each announcement names its own root's advertisement; and no two of all the
published advertisements share a CID.  The databases answer, and where gossip refuses an
announcement the indexer's URL is one. -/
theorem startPublish_advertises_the_dags (deps : Deps K) (B : Blocks) (peerId : PeerId)
    (config : NetworkConfig) (store : Store) (indexProvider : Provider K)
    (blockstore : Cid → Option Ipld) (inputs : List Input) (s : UrsaService K)
    (run : exec (step deps B) (new peerId config store indexProvider blockstore) inputs = some s)
    (running : s.status = .running) (lawful : Lawful deps s.indexProvider.keypair)
    (address : Multiaddr) (later : List BehaviourEvent)
    (first : s.behaviour.events = .startPublish address :: later)
    (complete : ∀ root ∈ s.shared.rootCids, Complete B s.store root)
    (env : DeliverEnv) (writes : ∀ n, (env.roots n).WritesSucceed)
    (reads : ∀ n, (env.roots n).ReadsSucceed)
    (announces : ∀ n, CanAnnounce deps s.indexProvider s.peerId (env.roots n)) :
    ∃ t ads sent, s.step deps B (.deliver env) = some t ∧ t.status = .running ∧
      t.history.announced = s.history.announced ++ sent ∧
      (t.shared.published.map Prod.fst).Nodup ∧
      PublishesAll deps B s.indexProvider s.peerId s.store (fun i => (env.roots i).order)
        s.shared.rootCids s.shared t.shared ads sent := by
  have indexed := indexed_of_run lawful.collisionFree
    (indexed_new peerId config store indexProvider blockstore) run running
  let s' : UrsaService K := { s with behaviour := { s.behaviour with events := later } }
  have ready : ∀ i root, s.shared.rootCids[i]? = some root →
      RootReady deps B s.indexProvider s.peerId s.store (env.roots i) root := by
    intro i root found
    exact (writes i).ready (reads i) (announces i) (complete root (List.mem_of_getElem? found))
  obtain ⟨t, ads, sent, taken, status, announced, chain, all⟩ :=
    onStartPublish_ok (s := s') (B := B) lawful ⟨indexed.chain, indexed.idle⟩ address ready
  refine ⟨t, ads, sent, ?_, status.trans running, announced, ?_, all⟩
  · rw [step_deliver env running first]
    exact taken
  · have distinct := chain.chain.nodup
    rw [Shared.ads, List.map_map] at distinct
    exact distinct

/-! ## Samples -/

def sampleLeaf : Cid × Bytes := twinLeaf

/-- A block with two links to the leaf. -/
def sampleRoot : Cid × Bytes := twinRoot

def sampleStore : Store :=
  (Store.empty.put sampleLeaf.1 sampleLeaf.2).put sampleRoot.1 sampleRoot.2

/-- A node with autonat and a given store. -/
def sampleService (store : Store) : UrsaService Unit :=
  new ⟨"12D3KooWSample"⟩
    { swarmAddr := [.ip4 "0.0.0.0", .tcp 6009], bootstrapNodes := [], autonat := true
      relayClient := false }
    store sampleProvider fun _ => none

/-- An environment in which every call succeeds. -/
def quietEnv : DeliverEnv :=
  { relay := 0
    listen := .ok ()
    roots := fun n =>
      { id := n, order := fun _ _ => 0, chunkFault := fun _ => none, publishFaults := .none
        readFault := fun _ => none, gossip := .ok (), put := fun _ => .ok 200 } }

def sampleAddress : Multiaddr := [.ip4 "203.0.113.7", .tcp 6009]

/-- The node becomes public and a root is uploaded; then the NAT event is handled. -/
def sampleUpload : List Input :=
  [.autonat (.reachable sampleAddress), .command (.index [sampleRoot.1] 1) 0, .deliver quietEnv]

theorem quietEnv_writes (n : Nat) : (quietEnv.roots n).WritesSucceed := ⟨fun _ => rfl, rfl⟩

theorem quietEnv_reads (n : Nat) : (quietEnv.roots n).ReadsSucceed := fun _ => rfl

theorem quietEnv_announces (deps : Deps K) (p : Provider K) (peerId : PeerId) (n : Nat) :
    CanAnnounce deps p peerId (quietEnv.roots n) := by
  intro address reason built refused
  cases refused

theorem startPublish_advertises_the_dags_sample :
    ∃ s t ads sent,
      exec (step plainDeps plainBlocks) (sampleService sampleStore) sampleUpload = some s ∧
      s.shared.rootCids = [sampleRoot.1] ∧
      s.step plainDeps plainBlocks (.deliver quietEnv) = some t ∧
      PublishesAll plainDeps plainBlocks s.indexProvider s.peerId s.store
        (fun i => (quietEnv.roots i).order) s.shared.rootCids s.shared t.shared ads sent := by
  have evaluated : (exec (step plainDeps plainBlocks) (sampleService sampleStore) sampleUpload).map
      (fun s => (s.status, s.behaviour.events, s.shared.rootCids)) =
      some (.running, [.startPublish sampleAddress, .startPublish sampleAddress],
        [sampleRoot.1]) := by decide +kernel
  have traversal : (exec (step plainDeps plainBlocks) (sampleService sampleStore)
      sampleUpload).map (fun s => dagTraversal plainBlocks (fun _ _ => 0) s.store sampleRoot.1) =
      some (.ok [sampleRoot, sampleLeaf]) := by decide +kernel
  obtain ⟨s, run, facts⟩ := Option.map_eq_some_iff.mp evaluated
  simp only [Prod.mk.injEq] at facts
  obtain ⟨running, first, queue⟩ := facts
  have traversed : dagTraversal plainBlocks (fun _ _ => 0) s.store sampleRoot.1 =
      .ok [sampleRoot, sampleLeaf] := by
    rw [run] at traversal
    exact Option.some.inj traversal
  have complete : ∀ root ∈ s.shared.rootCids, Complete plainBlocks s.store root := by
    intro root member
    rw [queue, List.mem_singleton] at member
    rw [member]
    exact (dagTraversal_ok_iff _).mp ⟨_, traversed⟩
  obtain ⟨t, ads, sent, taken, -, -, -, all⟩ :=
    startPublish_advertises_the_dags plainDeps plainBlocks _ _ _ _ _ sampleUpload s run running
      plainDeps_lawful sampleAddress _ first complete quietEnv quietEnv_writes quietEnv_reads
      (quietEnv_announces _ _ _)
  exact ⟨s, t, ads, sent, run, queue, taken, all⟩

/-! ## Uploads that stop the node -/

/-- The commands the RPC interface sends: block requests, and `Index` with the roots
of an accepted CAR file. -/
def FromInterface (_ : UrsaService K) : Input → Prop
  | .command (.getBitswap _ _ _) _ => True
  | .command (.index cids _) _ => cids ≠ []
  | .command _ _ => False
  | _ => True

/-- When the queue is published, every root in it has a complete DAG, can be read and
written, and its announcement can be sent. -/
def QueueReady (deps : Deps K) (B : Blocks) (s : UrsaService K) (env : DeliverEnv) : Prop :=
  ∀ address later, s.behaviour.events = .startPublish address :: later →
    ∀ i root, s.shared.rootCids[i]? = some root →
      RootReady deps B s.indexProvider s.peerId s.store (env.roots i) root

/-- When the node looks for a relay, the swarm can listen on it. -/
def RelayReady (s : UrsaService K) (env : DeliverEnv) : Prop :=
  ∀ later, s.behaviour.events = .natStatusChanged .unknown .behindNat :: later →
    s.behaviour.isRelayClientEnabled = true → s.behaviour.discovery.bootstrapAddrs ≠ [] →
      env.listen = .ok ()

/-- What a step needs in order to leave the loop running. -/
def Ready (deps : Deps K) (B : Blocks) (s : UrsaService K) : Input → Prop
  | .deliver env => QueueReady deps B s env ∧ RelayReady s env
  | _ => True

/-- The step leaves the loop running and no advertisement half-built, and publishing
the queue publishes all of it. -/
def Survives (deps : Deps K) (B : Blocks) (s : UrsaService K) (input : Input) : Prop :=
  ∀ t, s.step deps B input = some t →
    t.status = .running ∧ (∀ id, t.shared.tempAds id = none) ∧
      ∀ env address later, input = .deliver env →
        s.behaviour.events = .startPublish address :: later →
        t.shared.rootCids = [] ∧
          ∀ root ∈ s.shared.rootCids, ∃ e ∈ t.shared.published,
            e.2.contextID = .bytes root.toBytes

/-- A step that does not publish survives if the loop goes on with the same
advertisements pending. -/
theorem survives_of_unharmed (indexed : Indexed deps s)
    (other : ∀ env address later, input = .deliver env →
      s.behaviour.events ≠ .startPublish address :: later)
    (unharmed : ∀ t, s.step deps B input = some t →
      t.status = .running ∧ t.shared.tempAds = s.shared.tempAds) : Survives deps B s input := by
  intro t taken
  obtain ⟨running, same⟩ := unharmed t taken
  refine ⟨running, ?_, ?_⟩
  · intro id
    rw [same]
    exact indexed.idle id
  · intro env address later isDeliver first
    exact absurd first (other env address later isDeliver)

/-- Looking for a relay survives exactly when the swarm can listen on it. -/
theorem survives_listen_iff (running : s.status = .running) (indexed : Indexed deps s)
    {env : DeliverEnv} {later : List BehaviourEvent}
    (first : s.behaviour.events = .natStatusChanged .unknown .behindNat :: later) :
    Survives deps B s (.deliver env) ↔ RelayReady s env := by
  let s' : UrsaService K := { s with behaviour := { s.behaviour with events := later } }
  have taken : s.step deps B (.deliver env) = some (s'.onNatStatusChanged env .unknown .behindNat) :=
    step_deliver env running first
  constructor
  · intro survives _ _ client nodes
    have status := (survives _ taken).1
    cases listen : env.listen with
    | ok value => rfl
    | error reason =>
        -- A bootstrap node is drawn, and listening on it is unwrapped.
        have bound : env.relay % s.behaviour.discovery.bootstrapAddrs.length <
            s.behaviour.discovery.bootstrapAddrs.length :=
          Nat.mod_lt _ (List.length_pos_iff.mpr nodes)
        have client' : s'.behaviour.isRelayClientEnabled = true := client
        simp only [onNatStatusChanged, client', if_true, listen] at status
        rw [show s'.behaviour.discovery.bootstrapAddrs = s.behaviour.discovery.bootstrapAddrs from rfl,
          List.getElem?_eq_getElem bound] at status
        cases status
  · intro ready
    apply survives_of_unharmed indexed
    · intro _ address later' _ first'
      rw [first] at first'
      cases first'
    intro t stepped
    obtain rfl := Option.some.inj (taken.symm.trans stepped)
    refine ⟨?_, by rw [(onNatStatusChanged_shared env .unknown .behindNat).1]⟩
    simp only [onNatStatusChanged]
    split
    · rename_i client
      split
      · rename_i drawn
        have nodes : s.behaviour.discovery.bootstrapAddrs ≠ [] := by
          intro empty
          rw [show s'.behaviour.discovery.bootstrapAddrs = [] from empty] at drawn
          cases drawn
        rw [ready later first client nodes]
        exact running
      · exact running
    · exact running

/-- `StartPublish` survives exactly when every queued root is ready. -/
theorem survives_startPublish_iff (lawful : Lawful deps s.indexProvider.keypair)
    (running : s.status = .running) (indexed : Indexed deps s) {env : DeliverEnv}
    {address : Multiaddr} {later : List BehaviourEvent}
    (first : s.behaviour.events = .startPublish address :: later) :
    Survives deps B s (.deliver env) ↔ QueueReady deps B s env := by
  let s' : UrsaService K := { s with behaviour := { s.behaviour with events := later } }
  have taken : s.step deps B (.deliver env) = s'.onStartPublish deps B env address :=
    step_deliver env running first
  constructor
  · intro survives _ _ _
    have ends : (publishQueue deps B s.indexProvider s.peerId s.store (advertisedAddress address)
        env.roots 0 s.shared.rootCids s.shared s.history.announced).1 ≠ .diverge :=
      publishQueue_ends _ _ _ _ _ _ _
    unfold onStartPublish at taken
    dsimp only at taken
    split at taken
    · rename_i published
      have ready := publishQueue_ready (Prod.ext published rfl)
      simpa only [Nat.zero_add] using ready
    · cases (survives _ taken).1
    · cases (survives _ taken).1
    · rename_i diverged
      exact absurd diverged ends
  · intro ready t stepped
    obtain ⟨t', ads, sent, published, status, -, -, all⟩ :=
      onStartPublish_ok (s := s') (B := B) lawful ⟨indexed.chain, indexed.idle⟩ address
        (ready address later first)
    obtain rfl : t' = t := Option.some.inj (published.symm.trans (taken.symm.trans stepped))
    refine ⟨status.trans running, ?_, fun _ _ _ _ _ => ⟨all.rootCids, all.context⟩⟩
    intro id
    rw [all.tempAds]
    exact indexed.idle id

/-- A step of a command that the interface sends, or of anything else, survives exactly
when it has what it needs. -/
theorem survives_iff (lawful : Lawful deps s.indexProvider.keypair) (running : s.status = .running)
    (indexed : Indexed deps s) (interface : FromInterface s input) :
    Survives deps B s input ↔ Ready deps B s input := by
  by_cases touches : Touches s input
  · cases touches with
    | index cids sender id =>
        refine iff_of_true (survives_of_unharmed indexed nofun ?_) trivial
        intro t taken
        simp only [step, running] at taken
        cases taken
        cases cids with
        | nil => exact absurd rfl interface
        | cons root cids => exact ⟨running, rfl⟩
    | sendResponse r response channel id => exact interface.elim
    | listen env later first =>
        rw [survives_listen_iff running indexed first]
        refine ⟨fun ready => ⟨?_, ready⟩, And.right⟩
        intro address later' first'
        rw [first] at first'
        cases first'
    | startPublish env address later first =>
        rw [survives_startPublish_iff lawful running indexed first]
        refine ⟨fun ready => ⟨ready, ?_⟩, And.left⟩
        intro later' first'
        rw [first] at first'
        cases first'
  · apply iff_of_true
    · apply survives_of_unharmed indexed
      · rintro env address later rfl first
        exact touches (.startPublish env address later first)
      · intro t taken
        obtain ⟨shared, status, -⟩ := step_untouched taken touches
        exact ⟨status, by rw [shared]⟩
    · cases input with
      | deliver env =>
          refine ⟨?_, ?_⟩
          · intro address later first
            exact absurd (.startPublish env address later first) touches
          · intro later first
            exact absurd (.listen env later first) touches
      | _ => trivial

/-! ## A store that cannot be read -/

/-- The `Bitswap` arm looks at the store after it has answered so many of the senders: once
or more before the first of them if the block was found, and once for each. -/
def Looks (s : UrsaService K) (info : BitswapInfo) (chans : List SenderId) (answered : Nat) : Prop :=
  if info.blockFound then
    answered = 0 ∨ (s.store.contains (convertCid info.cid.toBytes) = true ∧ answered < chans.length)
  else answered < chans.length

instance (s : UrsaService K) (info : BitswapInfo) (chans : List SenderId) (answered : Nat) :
    Decidable (s.Looks info chans answered) := by
  unfold Looks
  infer_instance

/-- A `Bitswap` event is handled until a look at the store fails, which is unwrapped. -/
def onLookFails (s : UrsaService K) (answered : Nat) : Option (UrsaService K) :=
  match s.behaviour.poll with
  | (some (.bitswap info), behaviour) =>
      match s.responseChannels info.cid with
      | some chans =>
          if s.Looks info chans answered then
            let s := { s with
              behaviour := behaviour.cancel info.queryId
              responseChannels := Function.update s.responseChannels info.cid none
              history := { s.history with delivered := info :: s.history.delivered } }
            let s := s.track .bitswap (some ["cid", "query_id", "block_found"])
            some { answer info.cid (chans.take answered) s with
              status := .panicked "called `Result::unwrap()` on an `Err` value" }
          else none
      | none => none
  | _ => none

/-- What happens to a loop whose store may fail to answer. -/
inductive LoopInput where
  | turn (input : Input)
  /-- Handling a `Bitswap` event, the store fails when so many senders have been answered. -/
  | lookFails (answered : Nat)

def loopStep (deps : Deps K) (B : Blocks) (s : UrsaService K) : LoopInput → Option (UrsaService K)
  | .turn input => s.step deps B input
  | .lookFails answered => if s.status = .running then s.onLookFails answered else none

def LoopFromInterface (s : UrsaService K) : LoopInput → Prop
  | .turn input => FromInterface s input
  | .lookFails _ => True

/-- A look that is made does not fail. -/
def LoopReady (deps : Deps K) (B : Blocks) (s : UrsaService K) : LoopInput → Prop
  | .turn input => Ready deps B s input
  | .lookFails answered => ∀ info later chans, s.behaviour.events = .bitswap info :: later →
      s.responseChannels info.cid = some chans → ¬ s.Looks info chans answered

def LoopSurvives (deps : Deps K) (B : Blocks) (s : UrsaService K) : LoopInput → Prop
  | .turn input => Survives deps B s input
  | .lookFails answered => ∀ t, s.loopStep deps B (.lookFails answered) = some t →
      t.status = .running ∧ ∀ id, t.shared.tempAds id = none

/-- Where it happens, the arm looks at the store, and the loop ends. -/
theorem onLookFails_cases {answered : Nat} (taken : s.onLookFails answered = some t) :
    (∃ info later chans, s.behaviour.events = .bitswap info :: later ∧
      s.responseChannels info.cid = some chans ∧ s.Looks info chans answered) ∧
    t.status ≠ .running := by
  simp only [onLookFails, Behaviour.poll] at taken
  cases queued : s.behaviour.events with
  | nil =>
      rw [queued] at taken
      cases taken
  | cons event later =>
      rw [queued] at taken
      cases event with
      | bitswap info =>
          dsimp only at taken
          split at taken
          · rename_i chans waiting
            split at taken
            · rename_i looks
              cases taken
              exact ⟨⟨info, later, chans, rfl, waiting, looks⟩, by simp⟩
            · cases taken
          · cases taken
      | _ => cases taken

theorem loopSurvives_iff (lawful : Lawful deps s.indexProvider.keypair) (running : s.status = .running)
    (indexed : Indexed deps s) {input : LoopInput} (interface : LoopFromInterface s input) :
    LoopSurvives deps B s input ↔ LoopReady deps B s input := by
  cases input with
  | turn input => exact survives_iff lawful running indexed interface
  | lookFails answered =>
      have here : s.loopStep deps B (.lookFails answered) = s.onLookFails answered := by
        simp [loopStep, running]
      simp only [LoopSurvives, here]
      constructor
      · intro survives info later chans first waiting looks
        obtain ⟨t, taken⟩ : ∃ t, s.onLookFails answered = some t := by
          simp [onLookFails, Behaviour.poll, first, waiting, looks]
        exact (onLookFails_cases taken).2 (survives t taken).1
      · intro ready t taken
        obtain ⟨⟨info, later, chans, first, waiting, looks⟩, -⟩ := onLookFails_cases taken
        exact absurd looks (ready info later chans first waiting)

/-- **When an upload cannot stop the node.**  In a run whose commands come from the RPC
interface, no step returns from the loop or panics, no advertisement is left half-built
and every queued root is published, if and only if every `StartPublish` event finds all
queued DAGs complete, databases that answer and announcements that can be sent, no look at
the store fails, and the swarm can listen on a relay whenever the node looks for one. -/
theorem upload_survives_iff (deps : Deps K) (B : Blocks) (peerId : PeerId)
    (config : NetworkConfig) (store : Store) (indexProvider : Provider K)
    (blockstore : Cid → Option Ipld) (lawful : Lawful deps indexProvider.keypair)
    (inputs : List LoopInput)
    (interface : Meets (loopStep deps B) LoopFromInterface
      (new peerId config store indexProvider blockstore) inputs) :
    Meets (loopStep deps B) (LoopSurvives deps B)
        (new peerId config store indexProvider blockstore) inputs ↔
      Meets (loopStep deps B) (LoopReady deps B)
        (new peerId config store indexProvider blockstore) inputs := by
  have same : ∀ (s : UrsaService K) input,
      (s.status = .running ∧ Indexed deps s ∧ s.indexProvider = indexProvider) →
      LoopFromInterface s input → (LoopSurvives deps B s input ↔ LoopReady deps B s input) := by
    rintro s input ⟨running, indexed, own⟩ interface
    exact loopSurvives_iff (own ▸ lawful) running indexed interface
  refine Meets.congr ?_ same ⟨rfl, indexed_new _ _ _ _ _, rfl⟩ interface
  intro s input t good assumed ready taken
  have survives := (same s input good assumed).mpr ready
  cases input with
  | turn input =>
      have running := (survives t taken).1
      exact ⟨running, good.2.1.step lawful.collisionFree taken running,
        (step_indexProvider taken).trans good.2.2⟩
  | lookFails answered =>
      have here : s.onLookFails answered = some t := by
        rwa [loopStep, if_pos good.1] at taken
      exact absurd (survives t taken).1 (onLookFails_cases here).2

/-- The environment's calls all succeed. -/
def LibrariesSucceed (deps : Deps K) (s : UrsaService K) : Input → Prop
  | .deliver env => env.listen = .ok () ∧ ∀ n, (env.roots n).WritesSucceed ∧
      (env.roots n).ReadsSucceed ∧ CanAnnounce deps s.indexProvider s.peerId (env.roots n)
  | _ => True

/-- `Ready` in such an environment, by traversing the queued DAGs. -/
def queuedComplete (B : Blocks) (s : UrsaService K) : Input → Bool
  | .deliver _ =>
      match s.behaviour.events with
      | .startPublish _ :: _ =>
          s.shared.rootCids.all fun root => (dagTraversal B (fun _ _ => 0) s.store root).isOk
      | _ => true
  | _ => true

theorem ready_of_queuedComplete (deps : Deps K) (B : Blocks) (s : UrsaService K) (input : Input)
    (checked : LibrariesSucceed deps s input ∧ queuedComplete B s input = true) :
    Ready deps B s input := by
  cases input with
  | deliver env =>
      obtain ⟨⟨listens, calls⟩, complete⟩ := checked
      refine ⟨?_, fun _ _ _ _ => listens⟩
      intro address later first i root found
      simp only [queuedComplete, first, List.all_eq_true] at complete
      have traversed := complete root (List.mem_of_getElem? found)
      obtain ⟨writes, reads, announces⟩ := calls i
      exact writes.ready reads announces
        ((dagTraversal_ok_iff _).mp (Outcome.isOk_iff.mp traversed))
  | _ => trivial

/-- A run on a store that answers. -/
theorem meets_turns {cond : UrsaService K → Input → Prop} {cond' : UrsaService K → LoopInput → Prop}
    (same : ∀ s input, cond s input → cond' s (.turn input)) {s : UrsaService K} {inputs : List Input}
    (meets : Meets (step deps B) cond s inputs) :
    Meets (loopStep deps B) cond' s (inputs.map .turn) := by
  induction inputs generalizing s with
  | nil => trivial
  | cons input rest ih => exact ⟨same s input meets.1, fun t taken => ih (meets.2 t taken)⟩

theorem upload_survives_iff_sample :
    Meets (loopStep plainDeps plainBlocks) (LoopSurvives plainDeps plainBlocks)
      (sampleService sampleStore) ((sampleUpload ++ [Input.deliver quietEnv]).map .turn) := by
  refine (upload_survives_iff plainDeps plainBlocks _ _ _ _ _ plainDeps_lawful _ ?_).mpr ?_
  · have commands : Meets (step plainDeps plainBlocks) FromInterface (sampleService sampleStore)
        (sampleUpload ++ [.deliver quietEnv]) := by
      apply meets_of_forall
      intro input member s
      simp only [sampleUpload, List.cons_append, List.nil_append, List.mem_cons] at member
      rcases member with rfl | rfl | rfl | rfl | impossible
      · trivial
      · exact List.cons_ne_nil _ _
      · trivial
      · trivial
      · cases impossible
    exact meets_turns (fun _ _ => id) commands
  · have succeed : Meets (step plainDeps plainBlocks) (LibrariesSucceed plainDeps)
        (sampleService sampleStore) (sampleUpload ++ [.deliver quietEnv]) := by
      have quiet : ∀ s : UrsaService Unit, LibrariesSucceed plainDeps s (.deliver quietEnv) :=
        fun _ => ⟨rfl, fun n => ⟨quietEnv_writes n, quietEnv_reads n, quietEnv_announces _ _ _ n⟩⟩
      apply meets_of_forall
      intro input member s
      simp only [sampleUpload, List.cons_append, List.nil_append, List.mem_cons] at member
      rcases member with rfl | rfl | rfl | rfl | impossible
      · trivial
      · trivial
      · exact quiet s
      · exact quiet s
      · cases impossible
    have complete : Meets (step plainDeps plainBlocks)
        (fun s input => queuedComplete plainBlocks s input = true) (sampleService sampleStore)
        (sampleUpload ++ [.deliver quietEnv]) :=
      meets_of_passes (fun _ _ => id)
        (show passes (step plainDeps plainBlocks) (queuedComplete plainBlocks)
          (sampleService sampleStore) (sampleUpload ++ [.deliver quietEnv]) = true by decide +kernel)
    exact meets_turns (fun _ _ => id)
      ((succeed.and complete).mono (ready_of_queuedComplete plainDeps plainBlocks))

/-- An upload whose blocks are missing is acknowledged, and stops the node when the
queue is published: the loop returns an error and the advertisement stays half-built. -/
theorem incomplete_upload_stops_the_node :
    ∃ s t, exec (loopStep plainDeps plainBlocks) (sampleService .empty)
        (sampleUpload.map .turn) = some s ∧
      s.status = .running ∧ s.history.indexed = [(1, [sampleRoot.1])] ∧
      s.loopStep plainDeps plainBlocks (.turn (.deliver quietEnv)) = some t ∧
      t.status = .returned (.traversal (.missing sampleRoot.1)) ∧
      (t.shared.tempAds 0).isSome = true ∧
      ¬ LoopSurvives plainDeps plainBlocks s (.turn (.deliver quietEnv)) := by
  have evaluated : (exec (loopStep plainDeps plainBlocks) (sampleService .empty)
      (sampleUpload.map .turn)).map
      (fun s => (s.status, s.history.indexed,
        (s.loopStep plainDeps plainBlocks (.turn (.deliver quietEnv))).map fun t =>
          (t.status, (t.shared.tempAds 0).isSome))) =
      some (.running, [(1, [sampleRoot.1])],
        some (.returned (.traversal (.missing sampleRoot.1)), true)) := by decide +kernel
  obtain ⟨s, run, facts⟩ := Option.map_eq_some_iff.mp evaluated
  simp only [Prod.mk.injEq] at facts
  obtain ⟨running, indexed, stepped⟩ := facts
  obtain ⟨t, taken, facts⟩ := Option.map_eq_some_iff.mp stepped
  simp only [Prod.mk.injEq] at facts
  refine ⟨s, t, run, running, indexed, taken, facts.1, facts.2, ?_⟩
  intro survives
  have survived := (survives t taken).1
  rw [facts.1] at survived
  cases survived

end UrsaService

end Ursa.Network

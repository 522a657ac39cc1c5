/-
# Network.Service — the service loop

`ursa-network/src/service.rs`.  `UrsaService` is the state of the task that runs
`UrsaService::start`, with everything it shares with others: the block store, the
index provider, the swarm's connections.  One input is one turn of the loop
(a command, or the first queued behaviour event), or something that happens to the
swarm or to the store between two turns.

* A command that starts a bitswap query or a peer request carries the id the library
  hands out for it.
* Delivering a `Bitswap` event for a found block waits until the store has the block.
  The turn cannot be taken before that (`deliver` is `none`).
* autonat reports a change of its status by an event, but for two: it takes over another
  public address, or drops one that has expired, without telling anybody (`autonatSilent`).
* A turn that returns an error or panics ends the task: `status` says how, and no
  further input is taken.

`History` is what an observer of the task has seen; the code never reads it.
-/
import Ursa.Network.Behaviour
import Ursa.Network.Publish
import Ursa.Metrics.Events

namespace Ursa.Network

set_option autoImplicit false

open Ursa.Theory (Outcome)
open Ursa.IndexProvider

/-! ## Commands and events -/

inductive BitswapType where
  | get
  | sync
  deriving DecidableEq, Repr

inductive UrsaCommand where
  | getBitswap (cid : Cid) (query : BitswapType) (sender : SenderId)
  | put (cid : Cid) (sender : SenderId)
  | getPeers (sender : SenderId)
  | index (cids : List Cid) (sender : SenderId)
  | sendRequest (peer : PeerId) (request : UrsaExchangeRequest) (channel : SenderId)
  | sendResponse (requestId : RequestId) (response : UrsaExchangeResponse) (channel : SenderId)
  | gossipsubMessage (topic : String) (message : GossipsubMessage)

inductive UrsaEvent where
  | peerConnected (peer : PeerId)
  | peerDisconnected (peer : PeerId)
  | gossipsubMessage (message : GossipsubMessage)
  | requestMessage (request : UrsaExchangeRequest) (channel : SenderId)
  deriving DecidableEq, Repr

/-- What a `GetBitswap` command can be refused with. -/
inductive BlockError where
  /-- "There were no peers provided and the block does not exist in local store" -/
  | noPeers
  /-- "The requested block with cid .. is not found with any peers" -/
  | notFound (cid : Cid)
  deriving DecidableEq, Repr

inductive Status where
  | running
  | returned (error : PublishError)
  | panicked (message : String)
  deriving DecidableEq, Repr

/-! ## History -/

/-- A `GetBitswap` command, with the peers there were and the query it started. -/
structure Request where
  sender : SenderId
  cid : Cid
  query : BitswapType
  peers : Finset PeerId
  queryId : Option QueryId

/-- A reply to a `GetBitswap` command, with the store and the completed queries at
that moment. -/
structure Reply where
  sender : SenderId
  result : Except BlockError Unit
  store : Store
  completed : List BitswapInfo

structure History where
  requests : List Request
  /-- Completed queries, newest first. -/
  completed : List BitswapInfo
  /-- Delivered `Bitswap` events, newest first. -/
  delivered : List BitswapInfo
  replies : List Reply
  /-- Roots put into the provider's queue, oldest first. -/
  enqueued : List Cid
  indexed : List (SenderId × List Cid)
  peersSent : List (SenderId × Finset PeerId)
  responses : List (SenderId × Except String UrsaExchangeResponse)
  /-- Attempted announcements, oldest first. -/
  announced : List Announcement
  /-- Addresses the swarm was told to listen on, oldest first. -/
  listening : List Multiaddr
  events : List UrsaEvent
  updates : List Metrics.Update

def History.empty : History :=
  { requests := [], completed := [], delivered := [], replies := [], enqueued := [], indexed := []
    peersSent := [], responses := [], announced := [], listening := [], events := [], updates := [] }

/-! ## The state -/

structure UrsaService (K : Type) where
  status : Status
  peerId : PeerId
  store : Store
  /-- The swarm: open connections and the connection ids handed out. -/
  opened : List Connection
  used : List ConnectionId
  behaviour : Behaviour
  responseChannels : Cid → Option (List SenderId)
  indexProvider : Provider K
  /-- What all clones of the index provider share. -/
  shared : Shared
  history : History

/-- What the environment answers while one event is handled. -/
structure DeliverEnv where
  /-- Which bootstrap node is drawn as relay. -/
  relay : Nat
  /-- Whether the swarm can listen on the relay. -/
  listen : Except String Unit
  roots : Nat → RootEnv

inductive Input where
  /-- A command; `id` is the id of the query or request it starts, if any. -/
  | command (command : UrsaCommand) (id : Nat)
  /-- The first queued behaviour event. -/
  | deliver (env : DeliverEnv)
  | bitswap (event : BitswapEvent)
  | autonat (new : NatStatus)
  /-- autonat leaves its public address for another one or for none, without an event. -/
  | autonatSilent (new : NatStatus)
  | relayServer (event : RelayServerEvent)
  | gossipsub (event : GossipsubEvent)
  | requestResponse (event : RequestResponseEvent)
  | connection (event : ConnectionEvent)
  | pollDiscovery
  /-- Bitswap or an upload writes a block. -/
  | insert (cid : Cid) (data : Bytes)

namespace UrsaService

variable {K : Type}

/-- `UrsaService::new`, with an index provider that has published nothing.  It unwraps
`listen_on(swarm_addr)` and the dials to the bootstrap nodes: a node for which one of these
fails does not start. -/
def new (peerId : PeerId) (config : NetworkConfig) (store : Store) (indexProvider : Provider K)
    (blockstore : Cid → Option Ipld) : UrsaService K :=
  { status := .running
    peerId, store
    opened := [], used := []
    behaviour := .new config
    responseChannels := fun _ => none
    indexProvider
    shared := .new blockstore
    history := { History.empty with listening := [config.swarmAddr] } }

/-! ## What one turn does to the outside -/

def track (s : UrsaService K) (event : Metrics.MetricEvent) (labels : Option (List String)) :
    UrsaService K :=
  { s with history := { s.history with
      updates := s.history.updates ++ (Metrics.track event labels none).toList } }

def sendEvent (s : UrsaService K) (event : UrsaEvent) : UrsaService K :=
  { s with history := { s.history with events := s.history.events ++ [event] } }

/-- Send a reply to the sender of a `GetBitswap` command. -/
def reply (s : UrsaService K) (sender : SenderId) (result : Except BlockError Unit) :
    UrsaService K :=
  { s with history := { s.history with
      replies := { sender, result, store := s.store, completed := s.history.completed } ::
        s.history.replies } }

def swarm (s : UrsaService K) : Swarm :=
  { opened := s.opened, used := s.used, discovery := s.behaviour.discovery }

def isConnected (s : UrsaService K) (peer : PeerId) : Bool := 0 < s.swarm.established peer

/-! ## Commands -/

def onCommand (s : UrsaService K) (id : Nat) : UrsaCommand → UrsaService K
  | .getBitswap cid query sender =>
      let peers := s.behaviour.peers
      if peers = ∅ then
        { s with history := { s.history with
            requests := { sender, cid, query, peers, queryId := none } :: s.history.requests } }
          |>.reply sender (.error .noPeers)
      else
        let chans := match s.responseChannels cid with
          | some chans => chans ++ [sender]
          | none => [sender]
        { s with
          responseChannels := Function.update s.responseChannels cid (some chans)
          behaviour := match query with
            | .get => s.behaviour.getBlock id cid
            | .sync => s.behaviour.syncBlock id cid
          history := { s.history with
            requests := { sender, cid, query, peers, queryId := some id } :: s.history.requests } }
  | .put _ _ => s
  | .getPeers sender =>
      { s with history := { s.history with
          peersSent := s.history.peersSent ++ [(sender, s.behaviour.peers)] } }
  | .index [] _ =>
      { s with status := .panicked "index out of bounds: the len is 0 but the index is 0" }
  | .index (rootCid :: cids) sender =>
      { s with
        shared := { s.shared with rootCids := s.shared.rootCids ++ [rootCid] }
        behaviour := match s.behaviour.publicAddress with
          | some publicAddress => s.behaviour.publishAd publicAddress
          | none => s.behaviour
        history := { s.history with
          enqueued := s.history.enqueued ++ [rootCid]
          indexed := s.history.indexed ++ [(sender, rootCid :: cids)] } }
  | .sendRequest _ _ channel => { s with behaviour := s.behaviour.sendRequest id channel }
  | .sendResponse _ _ _ => { s with status := .panicked "not yet implemented" }
  -- a message that cannot be published is only logged
  | .gossipsubMessage _ _ => s

/-! ## Behaviour events -/

/-- Answer the senders that wait for a block, each after its own look at the store. -/
def answer (cid : Cid) : List SenderId → UrsaService K → UrsaService K
  | [], s => s
  | chan :: rest, s =>
      answer cid rest <|
        if s.store.contains (convertCid cid.toBytes) then s.reply chan (.ok ())
        else s.reply chan (.error (.notFound cid))

/-- The `Bitswap` arm; `none` while the loop waits for the block. -/
def onBitswap (s : UrsaService K) (info : BitswapInfo) : Option (UrsaService K) :=
  let s := { s with
    behaviour := s.behaviour.cancel info.queryId
    history := { s.history with delivered := info :: s.history.delivered } }
  let s := s.track .bitswap (some ["cid", "query_id", "block_found"])
  match s.responseChannels info.cid with
  | some chans =>
      let s := { s with responseChannels := Function.update s.responseChannels info.cid none }
      match info.blockFound, s.store.contains (convertCid info.cid.toBytes) with
      | true, false => none
      | _, _ => some (answer info.cid chans s)
  | none => some s

def onNatStatusChanged (s : UrsaService K) (env : DeliverEnv) :
    NatStatus → NatStatus → UrsaService K
  | .unknown, .behindNat =>
      let nodes := s.behaviour.discovery.bootstrapAddrs
      if s.behaviour.isRelayClientEnabled then
        match nodes[env.relay % nodes.length]? with
        | some (relayPeer, relayAddr) =>
            let addr := relayAddr ++ [.p2p relayPeer, .p2pCircuit]
            match env.listen with
            | .ok _ =>
                { s with history := { s.history with listening := s.history.listening ++ [addr] } }
            | .error _ => { s with status := .panicked "failed to listen on relay" }
        | none => s
      else s
  | _, .reachable addr => { s with behaviour := s.behaviour.publishAd addr }
  | _, _ => s

variable (deps : Deps K) (B : Blocks)

/-- The `StartPublish` arm: an error of the loop over the queue is returned by `start`. -/
def onStartPublish (s : UrsaService K) (env : DeliverEnv) (publicAddress : Multiaddr) :
    Option (UrsaService K) :=
  let address := advertisedAddress publicAddress
  match publishQueue deps B s.indexProvider s.peerId s.store address env.roots 0
      s.shared.rootCids s.shared s.history.announced with
  | (outcome, shared, announced) =>
      let s := { s with shared, history := { s.history with announced } }
      match outcome with
      | .ok () => some s
      | .err e => some { s with status := .returned e }
      | .panic m => some { s with status := .panicked m }
      | .diverge => none

def onEvent (s : UrsaService K) (env : DeliverEnv) : BehaviourEvent → Option (UrsaService K)
  | .bitswap info => s.onBitswap info
  | .gossipMessage peer _ message =>
      let s := s.track .gossipMessage (some ["peer", "topic", "message"])
      some (if s.isConnected peer then s.sendEvent (.gossipsubMessage message) else s)
  | .requestMessage _ request channel =>
      some ((s.track .requestMessage (some ["peer", "request", "channel"])).sendEvent
        (.requestMessage request channel))
  | .peerConnected peer => some ((s.track .peerConnected none).sendEvent (.peerConnected peer))
  | .peerDisconnected peer =>
      some ((s.track .peerDisconnected none).sendEvent (.peerDisconnected peer))
  | .natStatusChanged old new => some (s.onNatStatusChanged env old new)
  | .relayReservationOpened _ => some (s.track .relayReservationOpened none)
  | .relayReservationClosed _ => some (s.track .relayReservationClosed none)
  | .relayCircuitOpened => some (s.track .relayCircuitOpened none)
  | .relayCircuitClosed => some (s.track .relayCircuitClosed none)
  | .startPublish publicAddress => s.onStartPublish deps B env publicAddress

def deliver (s : UrsaService K) (env : DeliverEnv) : Option (UrsaService K) :=
  match s.behaviour.poll with
  | (some event, behaviour) => onEvent deps B { s with behaviour } env event
  | (none, _) => none

/-! ## The swarm between two turns -/

def onBitswapEvent (s : UrsaService K) (event : BitswapEvent) : UrsaService K :=
  { s with
    behaviour := s.behaviour.handleBitswap event
    history := { s.history with
      completed := match event with
        | .complete id result =>
            match s.behaviour.queries id with
            | some info => { info with blockFound := result.isOk } :: s.history.completed
            | none => s.history.completed
        | .progress _ _ => s.history.completed } }

def onRequestResponse (s : UrsaService K) (event : RequestResponseEvent) : UrsaService K :=
  let (behaviour, answered) := s.behaviour.handleRequestResponse event
  { s with
    behaviour
    history := { s.history with responses := s.history.responses ++ answered.toList } }

def onConnection (s : UrsaService K) (event : ConnectionEvent) : Option (UrsaService K) :=
  (s.swarm.step event).map fun swarm =>
    { s with
      opened := swarm.opened
      used := swarm.used
      behaviour := { s.behaviour with discovery := swarm.discovery } }

def onPollDiscovery (s : UrsaService K) : Option (UrsaService K) :=
  match s.behaviour.discovery.poll with
  | (some event, discovery) =>
      some { s with behaviour := .handleDiscovery { s.behaviour with discovery } event }
  | (none, _) => none

def onAutonat (s : UrsaService K) (new : NatStatus) : Option (UrsaService K) :=
  s.behaviour.autonat.map fun old =>
    { s with behaviour :=
        .handleAutonat { s.behaviour with autonat := some new } (.statusChanged old new) }

def onAutonatSilent (s : UrsaService K) (new : NatStatus) : Option (UrsaService K) :=
  match s.behaviour.autonat, new with
  | some (.reachable _), .behindNat => none
  | some (.reachable _), new => some { s with behaviour := { s.behaviour with autonat := some new } }
  | _, _ => none

/-! ## Steps -/

def step (s : UrsaService K) (input : Input) : Option (UrsaService K) :=
  if s.status = .running then
    match input with
    | .command command id => some (s.onCommand id command)
    | .deliver env => s.deliver deps B env
    | .bitswap event => some (s.onBitswapEvent event)
    | .autonat new => s.onAutonat new
    | .autonatSilent new => s.onAutonatSilent new
    | .relayServer event => some { s with behaviour := s.behaviour.handleRelayServer event }
    | .gossipsub event => some { s with behaviour := s.behaviour.handleGossipsub event }
    | .requestResponse event => some (s.onRequestResponse event)
    | .connection event => s.onConnection event
    | .pollDiscovery => s.onPollDiscovery
    | .insert cid data => some { s with store := s.store.put cid data }
  else none

variable {deps B} {s t : UrsaService K} {input : Input}

theorem running_of_step (taken : s.step deps B input = some t) : s.status = .running := by
  unfold step at taken
  split at taken
  · assumption
  · cases taken

/-- Delivering the first queued event. -/
theorem step_deliver (env : DeliverEnv) {event : BehaviourEvent} {later : List BehaviourEvent}
    (running : s.status = .running) (first : s.behaviour.events = event :: later) :
    s.step deps B (.deliver env) =
      onEvent deps B { s with behaviour := { s.behaviour with events := later } } env event := by
  simp [step, running, deliver, Behaviour.poll, first]

/-- A delivery handles the first queued event. -/
theorem deliver_cases {env : DeliverEnv} (taken : s.deliver deps B env = some t) :
    ∃ event later, s.behaviour.events = event :: later ∧
      onEvent deps B { s with behaviour := { s.behaviour with events := later } } env event =
        some t := by
  simp only [deliver, Behaviour.poll] at taken
  cases queued : s.behaviour.events with
  | nil =>
      rw [queued] at taken
      cases taken
  | cons event later =>
      rw [queued] at taken
      exact ⟨event, later, rfl, taken⟩

/-! ## What a turn changes -/

/-- Answering the senders that wait changes nothing but the replies. -/
theorem answer_frame (cid : Cid) (chans : List SenderId) (s : UrsaService K) :
    ∃ replies, answer cid chans s = { s with history := { s.history with replies } } := by
  induction chans generalizing s with
  | nil => exact ⟨s.history.replies, rfl⟩
  | cons chan rest ih =>
      simp only [answer]
      split
      · obtain ⟨replies, same⟩ := ih (s.reply chan (.ok ()))
        exact ⟨replies, same⟩
      · obtain ⟨replies, same⟩ := ih (s.reply chan (.error (.notFound cid)))
        exact ⟨replies, same⟩

theorem onBitswap_frame {info : BitswapInfo} (taken : s.onBitswap info = some t) :
    ∃ responseChannels delivered replies, t = { s with
      behaviour := s.behaviour.cancel info.queryId
      responseChannels
      history := { s.history with
        delivered, replies
        updates := s.history.updates ++
          (Metrics.track .bitswap (some ["cid", "query_id", "block_found"]) none).toList } } := by
  simp only [onBitswap, track] at taken
  split at taken
  · split at taken
    · cases taken
    · cases taken
      obtain ⟨replies, same⟩ := answer_frame info.cid _ _
      rw [same]
      exact ⟨_, _, replies, rfl⟩
  · cases taken
    exact ⟨_, _, _, rfl⟩

/-- A NAT status that became public queues an event; any other has at most a relay
listened on, or the loop ended. -/
theorem onNatStatusChanged_cases (s : UrsaService K) (env : DeliverEnv) (old new : NatStatus) :
    (∃ address, new = .reachable address ∧ s.onNatStatusChanged env old new =
      { s with behaviour := s.behaviour.publishAd address }) ∨
    ((∀ address, new ≠ .reachable address) ∧ ∃ status listening, s.onNatStatusChanged env old new =
      { s with status, history := { s.history with listening } }) := by
  unfold onNatStatusChanged
  split
  · refine .inr ⟨by simp, ?_⟩
    dsimp only
    split
    · split
      · split
        · exact ⟨_, _, rfl⟩
        · exact ⟨_, _, rfl⟩
      · exact ⟨_, _, rfl⟩
    · exact ⟨_, _, rfl⟩
  · exact .inl ⟨_, rfl, rfl⟩
  · rename_i other _
    exact .inr ⟨fun address isPublic => other address isPublic, _, _, rfl⟩

/-- autonat changes its status without an event only from a public address. -/
theorem onAutonatSilent_cases {new : NatStatus} (taken : s.onAutonatSilent new = some t) :
    ∃ address, s.behaviour.autonat = some (.reachable address) ∧ new ≠ .behindNat ∧
      t = { s with behaviour := { s.behaviour with autonat := some new } } := by
  unfold onAutonatSilent at taken
  split at taken
  · cases taken
  · rename_i address known other
    cases taken
    exact ⟨address, known, fun same => other same, rfl⟩
  · cases taken

theorem onStartPublish_frame {env : DeliverEnv} {address : Multiaddr}
    (taken : s.onStartPublish deps B env address = some t) :
    ∃ status shared announced,
      t = { s with status, shared, history := { s.history with announced } } := by
  simp only [onStartPublish] at taken
  split at taken <;> cases taken <;> exact ⟨_, _, _, rfl⟩

end UrsaService

/-- The events that connections, relays and gossip raise. -/
def BehaviourEvent.fromSwarm : BehaviourEvent → Bool
  | .peerConnected _ => true
  | .peerDisconnected _ => true
  | .relayReservationOpened _ => true
  | .relayReservationClosed _ => true
  | .relayCircuitOpened => true
  | .relayCircuitClosed => true
  | .gossipMessage _ _ _ => true
  | _ => false

/-- What happens to connections, relays and gossip. -/
def Input.ofSwarm : Input → Bool
  | .relayServer _ => true
  | .gossipsub _ => true
  | .connection _ => true
  | .pollDiscovery => true
  | _ => false

namespace UrsaService

/-- **What a step can be.** -/
inductive Turn {K : Type} (deps : Deps K) (B : Blocks) (s : UrsaService K) :
    Input → UrsaService K → Prop where
  | command (command : UrsaCommand) (id : Nat) :
      Turn deps B s (.command command id) (s.onCommand id command)
  | deliver (env : DeliverEnv) (event : BehaviourEvent) (later : List BehaviourEvent)
      (t : UrsaService K) (first : s.behaviour.events = event :: later)
      (handled : onEvent deps B { s with behaviour := { s.behaviour with events := later } } env
        event = some t) : Turn deps B s (.deliver env) t
  | bitswap (event : BitswapEvent) : Turn deps B s (.bitswap event) (s.onBitswapEvent event)
  | requestResponse (event : RequestResponseEvent) :
      Turn deps B s (.requestResponse event) (s.onRequestResponse event)
  | autonat (old new : NatStatus) (known : s.behaviour.autonat = some old) :
      Turn deps B s (.autonat new)
        { s with behaviour :=
            .handleAutonat { s.behaviour with autonat := some new } (.statusChanged old new) }
  | autonatSilent (address : Multiaddr) (new : NatStatus)
      (known : s.behaviour.autonat = some (.reachable address)) (changes : new ≠ .behindNat) :
      Turn deps B s (.autonatSilent new)
        { s with behaviour := { s.behaviour with autonat := some new } }
  | insert (cid : Cid) (data : Bytes) :
      Turn deps B s (.insert cid data) { s with store := s.store.put cid data }
  | swarm (input : Input) (isSwarm : input.ofSwarm = true) (opened : List Connection)
      (used : List ConnectionId) (discovery : DiscoveryBehaviour) (pushed : List BehaviourEvent)
      (raised : ∀ event ∈ pushed, event.fromSwarm = true) :
      Turn deps B s input
        { s with opened, used
                 behaviour := { s.behaviour with discovery, events := s.behaviour.events ++ pushed } }

section Turns

variable {K : Type} {deps : Deps K} {B : Blocks} {s t : UrsaService K} {input : Input}

theorem Turn.quiet (isSwarm : input.ofSwarm = true) (opened : List Connection)
    (used : List ConnectionId) (discovery : DiscoveryBehaviour) :
    Turn deps B s input { s with opened, used, behaviour := { s.behaviour with discovery } } := by
  have turn : Turn deps B s input
      { s with opened, used
               behaviour := { s.behaviour with discovery, events := s.behaviour.events ++ [] } } :=
    .swarm input isSwarm opened used discovery [] (by simp)
  rwa [List.append_nil] at turn

theorem Turn.push (isSwarm : input.ofSwarm = true) {event : BehaviourEvent}
    (raised : event.fromSwarm = true) (discovery : DiscoveryBehaviour) :
    Turn deps B s input
      { s with behaviour := Behaviour.pushEvent { s.behaviour with discovery } event } :=
  .swarm input isSwarm s.opened s.used discovery [event] (by simpa using raised)

theorem turn_of_step (taken : s.step deps B input = some t) : Turn deps B s input t := by
  have running := running_of_step taken
  unfold step at taken
  rw [if_pos running] at taken
  cases input with
  | command command id =>
      cases taken
      exact .command command id
  | deliver env =>
      obtain ⟨event, later, first, handled⟩ := deliver_cases taken
      exact .deliver env event later t first handled
  | bitswap event =>
      cases taken
      exact .bitswap event
  | requestResponse event =>
      cases taken
      exact .requestResponse event
  | autonat new =>
      obtain ⟨old, known, rfl⟩ := Option.map_eq_some_iff.mp taken
      exact .autonat old new known
  | autonatSilent new =>
      obtain ⟨address, known, changes, rfl⟩ := onAutonatSilent_cases taken
      exact .autonatSilent address new known changes
  | insert cid data =>
      cases taken
      exact .insert cid data
  | relayServer event =>
      cases taken
      cases event with
      | reservationReqAccepted peer renewed =>
          simp only [Behaviour.handleRelayServer]
          split
          · exact .quiet rfl _ _ _
          · exact .push rfl rfl _
      | otherEvent => exact .quiet rfl _ _ _
      | _ => exact .push rfl rfl _
  | gossipsub event =>
      cases taken
      cases event with
      | message source message => exact .push rfl rfl _
      | _ => exact .quiet rfl _ _ _
  | connection event =>
      obtain ⟨swarm, -, rfl⟩ := Option.map_eq_some_iff.mp taken
      exact .quiet rfl swarm.opened swarm.used swarm.discovery
  | pollDiscovery =>
      simp only [onPollDiscovery] at taken
      split at taken
      · rename_i event discovery polled
        cases taken
        cases event with
        | connected peer => exact .push rfl rfl discovery
        | disconnected peer => exact .push rfl rfl discovery
      · cases taken

end Turns

end UrsaService

end Ursa.Network

/-
# Network.Peers — connect and disconnect notifications

`DiscoveryBehaviour` changes its set of peers in two callbacks and queues an event for
every change.  The event goes through two queues before the service loop passes it on:
`DiscoveryBehaviour.events`, then `Behaviour.events`.  The queues are drained on their own
schedules and the second one holds all kinds of events.

`notices` is what has been said of peers, in order: what the loop has passed on, then what
waits in the second queue, then what waits in the first.  Draining a queue does not change
it; a callback appends one announcement to it exactly when it changes the set.  So it
follows the set (`Theory.Toggle`), and what has been passed on is a beginning of it.

The callbacks are taken as they come (`PeerInput`): any connection ids, counts and order,
also those no swarm would produce.
-/
import Ursa.Theory.Toggle
import Ursa.Network.Indexing

namespace Ursa.Network

set_option autoImplicit false

open Ursa.Theory.Run
open Ursa.Theory.Toggle
open Ursa.IndexProvider

/-! ## Notices -/

def DiscoveryEvent.notice : DiscoveryEvent → PeerId × Bool
  | .connected peer => (peer, true)
  | .disconnected peer => (peer, false)

def BehaviourEvent.notice : BehaviourEvent → Option (PeerId × Bool)
  | .peerConnected peer => some (peer, true)
  | .peerDisconnected peer => some (peer, false)
  | _ => none

def UrsaEvent.notice : UrsaEvent → Option (PeerId × Bool)
  | .peerConnected peer => some (peer, true)
  | .peerDisconnected peer => some (peer, false)
  | _ => none

/-- A callback of the swarm, or an input of the loop. -/
inductive PeerInput where
  | established (peer : PeerId) (connection : ConnectionId) (endpoint : ConnectedPoint)
      (failedAddresses : Option (List Multiaddr)) (otherEstablished : Nat)
  | closed (peer : PeerId) (connection : ConnectionId) (endpoint : ConnectedPoint)
      (remainingEstablished : Nat)
  | service (input : Input)

namespace UrsaService

variable {K : Type}

/-- What the loop has passed on. -/
def delivered (s : UrsaService K) : List (PeerId × Bool) := s.history.events.filterMap UrsaEvent.notice

/-- What waits in `Behaviour.events`. -/
def queued (s : UrsaService K) : List (PeerId × Bool) :=
  s.behaviour.events.filterMap BehaviourEvent.notice

/-- What waits in `DiscoveryBehaviour.events`. -/
def raised (s : UrsaService K) : List (PeerId × Bool) :=
  s.behaviour.discovery.events.map DiscoveryEvent.notice

def notices (s : UrsaService K) : List (PeerId × Bool) := s.delivered ++ (s.queued ++ s.raised)

variable (deps : Deps K) (B : Blocks)

def peerStep (s : UrsaService K) : PeerInput → Option (UrsaService K)
  | .established peer connection endpoint failed other =>
      if s.status = .running then
        some { s with behaviour := { s.behaviour with
          discovery := s.behaviour.discovery.injectConnectionEstablished peer connection endpoint
            failed other } }
      else none
  | .closed peer connection endpoint remaining =>
      if s.status = .running then
        some { s with behaviour := { s.behaviour with
          discovery := s.behaviour.discovery.injectConnectionClosed peer connection endpoint
            remaining } }
      else none
  | .service input => s.step deps B input

variable {deps B} {s t : UrsaService K} {input : Input}

/-- The notices follow the set of peers. -/
def Told (s : UrsaService K) : Prop := Follows s.notices s.behaviour.discovery.peers

/-! ## Steps that say nothing of peers -/

/-- Queued events and events passed on are added, and none of them is about peers. -/
structure Silent (s t : UrsaService K) : Prop where
  delivered : t.delivered = s.delivered
  queued : ∃ pushed, t.behaviour.events = s.behaviour.events ++ pushed ∧
    ∀ event ∈ pushed, event.notice = none
  discovery : t.behaviour.discovery = s.behaviour.discovery

theorem Silent.of_same (delivered : t.delivered = s.delivered)
    (events : t.behaviour.events = s.behaviour.events)
    (discovery : t.behaviour.discovery = s.behaviour.discovery) : Silent s t :=
  ⟨delivered, ⟨[], by rw [events, List.append_nil], by simp⟩, discovery⟩

theorem Silent.of_push (delivered : t.delivered = s.delivered) {event : BehaviourEvent}
    (behaviour : t.behaviour.events = s.behaviour.events ++ [event]) (silent : event.notice = none)
    (discovery : t.behaviour.discovery = s.behaviour.discovery) : Silent s t :=
  ⟨delivered, ⟨[event], behaviour, by simpa using silent⟩, discovery⟩

theorem Silent.notices (silent : Silent s t) : t.notices = s.notices := by
  obtain ⟨pushed, events, nothing⟩ := silent.queued
  have none : pushed.filterMap BehaviourEvent.notice = [] := by
    rw [List.filterMap_eq_nil_iff]
    exact nothing
  have queued : t.queued = s.queued := by
    rw [UrsaService.queued, events, List.filterMap_append, none, List.append_nil]
    rfl
  simp only [UrsaService.notices, silent.delivered, queued, raised, silent.discovery]

theorem Told.silent (told : s.Told) (silent : Silent s t) : t.Told := by
  unfold Told at told ⊢
  rw [silent.notices, silent.discovery]
  exact told

theorem onCommand_silent (command : UrsaCommand) (id : Nat) : Silent s (s.onCommand id command) := by
  cases command with
  | getBitswap cid query sender =>
      simp only [onCommand]
      split
      · exact .of_same rfl rfl rfl
      · cases query <;> exact .of_same rfl rfl rfl
  | index cids sender =>
      cases cids with
      | nil => exact .of_same rfl rfl rfl
      | cons root cids =>
          simp only [onCommand]
          split
          · exact .of_push rfl rfl rfl rfl
          · exact .of_same rfl rfl rfl
  | _ => exact .of_same rfl rfl rfl

theorem handleRelayServer_silent (event : RelayServerEvent) :
    Silent s { s with behaviour := s.behaviour.handleRelayServer event } := by
  cases event with
  | reservationReqAccepted peer renewed =>
      simp only [Behaviour.handleRelayServer]
      split
      · exact .of_same rfl rfl rfl
      · exact .of_push rfl rfl rfl rfl
  | otherEvent => exact .of_same rfl rfl rfl
  | _ => exact .of_push rfl rfl rfl rfl

theorem handleGossipsub_silent (event : GossipsubEvent) :
    Silent s { s with behaviour := s.behaviour.handleGossipsub event } := by
  cases event with
  | message source message => exact .of_push rfl rfl rfl rfl
  | _ => exact .of_same rfl rfl rfl

theorem onBitswapEvent_silent (event : BitswapEvent) : Silent s (s.onBitswapEvent event) := by
  cases event with
  | progress id missing => exact .of_same rfl rfl rfl
  | complete id result =>
      simp only [onBitswapEvent, Behaviour.handleBitswap]
      split
      · exact .of_push rfl rfl rfl rfl
      · exact .of_same rfl rfl rfl

theorem onRequestResponse_silent (event : RequestResponseEvent) :
    Silent s (s.onRequestResponse event) := by
  have answered : ∀ id answer, (s.behaviour.answerPending id answer).1.events = s.behaviour.events ∧
      (s.behaviour.answerPending id answer).1.discovery = s.behaviour.discovery := by
    intro id answer
    unfold Behaviour.answerPending
    split <;> exact ⟨rfl, rfl⟩
  cases event with
  | request peer id request channel => exact .of_push rfl rfl rfl rfl
  | response peer id response =>
      exact .of_same rfl (answered id (.ok response)).1 (answered id (.ok response)).2
  | outboundFailure peer id error =>
      exact .of_same rfl (answered id (.error error)).1 (answered id (.error error)).2
  | _ => exact .of_same rfl rfl rfl

/-- The events of the loop that are not about peers. -/
theorem onEvent_silent {env : DeliverEnv} {event : BehaviourEvent} (silent : event.notice = none)
    (taken : onEvent deps B s env event = some t) : Silent s t := by
  cases event with
  | peerConnected peer => cases silent
  | peerDisconnected peer => cases silent
  | bitswap info =>
      obtain ⟨_, _, _, rfl⟩ := onBitswap_frame taken
      exact .of_same rfl rfl rfl
  | startPublish address =>
      obtain ⟨_, _, _, rfl⟩ := onStartPublish_frame taken
      exact .of_same rfl rfl rfl
  | natStatusChanged old new =>
      cases taken
      rcases onNatStatusChanged_cases s env old new with ⟨_, -, same⟩ | ⟨-, _, _, same⟩
      · rw [same]
        exact .of_push rfl rfl rfl rfl
      · rw [same]
        exact .of_same rfl rfl rfl
  | gossipMessage peer topic message =>
      cases taken
      split
      · refine .of_same ?_ rfl rfl
        simp [delivered, sendEvent, track, UrsaEvent.notice]
      · exact .of_same rfl rfl rfl
  | requestMessage peer request channel =>
      cases taken
      refine .of_same ?_ rfl rfl
      simp [delivered, sendEvent, track, UrsaEvent.notice]
  | _ =>
      cases taken
      exact .of_same rfl rfl rfl

/-! ## Steps that move a notice on -/

/-- A delivered event leaves the queue; if it is about a peer it is passed on. -/
theorem deliver_notices {env : DeliverEnv} {event : BehaviourEvent} {later : List BehaviourEvent}
    (first : s.behaviour.events = event :: later)
    (handled : onEvent deps B { s with behaviour := { s.behaviour with events := later } } env
      event = some t) :
    t.notices = s.notices ∧ t.behaviour.discovery = s.behaviour.discovery := by
  cases notice : event.notice with
  | none =>
      have silent := onEvent_silent notice handled
      refine ⟨?_, silent.discovery⟩
      rw [silent.notices]
      simp [notices, delivered, queued, raised, first, notice]
  | some said =>
      cases event with
      | peerConnected peer =>
          cases handled
          refine ⟨?_, rfl⟩
          simp [notices, delivered, queued, raised, first, sendEvent, track, UrsaEvent.notice,
            BehaviourEvent.notice]
      | peerDisconnected peer =>
          cases handled
          refine ⟨?_, rfl⟩
          simp [notices, delivered, queued, raised, first, sendEvent, track, UrsaEvent.notice,
            BehaviourEvent.notice]
      | _ => cases notice

/-- Polling the discovery behaviour moves its first event to the other queue. -/
theorem onPollDiscovery_notices (taken : s.onPollDiscovery = some t) :
    t.notices = s.notices ∧
      t.behaviour.discovery.peers = s.behaviour.discovery.peers := by
  simp only [onPollDiscovery, DiscoveryBehaviour.poll] at taken
  cases raisedEvents : s.behaviour.discovery.events with
  | nil =>
      rw [raisedEvents] at taken
      cases taken
  | cons event rest =>
      rw [raisedEvents] at taken
      cases taken
      cases event with
      | connected peer =>
          refine ⟨?_, rfl⟩
          simp [notices, delivered, queued, raised, raisedEvents, Behaviour.handleDiscovery,
            Behaviour.pushEvent, BehaviourEvent.notice, DiscoveryEvent.notice]
      | disconnected peer =>
          refine ⟨?_, rfl⟩
          simp [notices, delivered, queued, raised, raisedEvents, Behaviour.handleDiscovery,
            Behaviour.pushEvent, BehaviourEvent.notice, DiscoveryEvent.notice]

/-! ## Callbacks -/

theorem Told.established (told : s.Told) (peer : PeerId) (connection : ConnectionId)
    (endpoint : ConnectedPoint) (failed : Option (List Multiaddr)) (other : Nat)
    (opened : List Connection) (used : List ConnectionId) :
    ({ s with opened, used, behaviour := { s.behaviour with
      discovery := s.behaviour.discovery.injectConnectionEstablished peer connection endpoint
        failed other } } : UrsaService K).Told := by
  unfold DiscoveryBehaviour.injectConnectionEstablished
  split
  · rename_i new
    have follows := Follows.insert told new
    simpa [Told, notices, delivered, queued, raised, DiscoveryEvent.notice] using follows
  · exact told

theorem Told.closed (told : s.Told) (peer : PeerId) (connection : ConnectionId)
    (endpoint : ConnectedPoint) (remaining : Nat) (opened : List Connection)
    (used : List ConnectionId) :
    ({ s with opened, used, behaviour := { s.behaviour with
      discovery := s.behaviour.discovery.injectConnectionClosed peer connection endpoint
        remaining } } : UrsaService K).Told := by
  unfold DiscoveryBehaviour.injectConnectionClosed
  split
  · rename_i known
    have follows := Follows.erase told known
    simpa [Told, notices, delivered, queued, raised, DiscoveryEvent.notice] using follows
  · exact told

/-- The callbacks of a swarm are callbacks. -/
theorem Told.connection (told : s.Told) {event : ConnectionEvent}
    (taken : s.onConnection event = some t) : t.Told := by
  obtain ⟨swarm, stepped, rfl⟩ := Option.map_eq_some_iff.mp taken
  cases event with
  | established c failed =>
      simp only [Swarm.step] at stepped
      split at stepped
      · cases stepped
      · cases stepped
        exact told.established _ _ _ _ _ _ _
  | closed id =>
      simp only [Swarm.step] at stepped
      split at stepped
      · cases stepped
      · cases stepped
        exact told.closed _ _ _ _ _ _

/-! ## Runs -/

theorem Told.step (told : s.Told) (taken : s.step deps B input = some t) : t.Told := by
  have running := running_of_step taken
  unfold UrsaService.step at taken
  rw [if_pos running] at taken
  cases input with
  | connection event => exact told.connection taken
  | pollDiscovery =>
      obtain ⟨notices, peers⟩ := onPollDiscovery_notices taken
      rw [Told, notices, peers]
      exact told
  | deliver env =>
      obtain ⟨event, later, first, handled⟩ := deliver_cases taken
      obtain ⟨notices, discovery⟩ := deliver_notices first handled
      rw [Told, notices, discovery]
      exact told
  | relayServer event =>
      cases taken
      exact told.silent (handleRelayServer_silent event)
  | gossipsub event =>
      cases taken
      exact told.silent (handleGossipsub_silent event)
  | command command id =>
      cases taken
      exact told.silent (onCommand_silent command id)
  | bitswap event =>
      cases taken
      exact told.silent (onBitswapEvent_silent event)
  | requestResponse event =>
      cases taken
      exact told.silent (onRequestResponse_silent event)
  | autonat new =>
      obtain ⟨old, -, rfl⟩ := Option.map_eq_some_iff.mp taken
      exact told.silent (.of_push rfl rfl rfl rfl)
  | autonatSilent new =>
      obtain ⟨_, -, -, rfl⟩ := onAutonatSilent_cases taken
      exact told
  | insert cid data =>
      cases taken
      exact told

theorem Told.peerStep {input : PeerInput} (told : s.Told) (taken : s.peerStep deps B input = some t) :
    t.Told := by
  cases input with
  | service input => exact told.step taken
  | established peer connection endpoint failed other =>
      simp only [UrsaService.peerStep] at taken
      split at taken
      · cases taken
        exact told.established peer connection endpoint failed other s.opened s.used
      · cases taken
  | closed peer connection endpoint remaining =>
      simp only [UrsaService.peerStep] at taken
      split at taken
      · cases taken
        exact told.closed peer connection endpoint remaining s.opened s.used
      · cases taken

theorem told_new (peerId : PeerId) (config : NetworkConfig) (store : Store)
    (indexProvider : Provider K) (blockstore : Cid → Option Ipld) :
    (new peerId config store indexProvider blockstore).Told :=
  follows_nil

/-- **Notifications alternate and none is lost.**  In every run of callbacks, polls and turns
of the loop, and for every peer: what the loop has passed on alternates, a connection first;
and together with what waits in the two queues it ends with a connection exactly if the peer
is in the set. -/
theorem notifications_alternate (deps : Deps K) (B : Blocks) (peerId : PeerId)
    (config : NetworkConfig) (store : Store) (indexProvider : Provider K)
    (blockstore : Cid → Option Ipld) (inputs : List PeerInput) (s : UrsaService K)
    (run : exec (peerStep deps B) (new peerId config store indexProvider blockstore) inputs = some s)
    (peer : PeerId) :
    Alternates true (marks peer s.delivered) ∧
      ((marks peer s.delivered ++ (marks peer s.queued ++ marks peer s.raised)).getLast? = some true ↔
        peer ∈ s.behaviour.discovery.peers) := by
  have told : s.Told := exec_invariant (fun _ _ _ told _ taken => Told.peerStep told taken)
    (told_new peerId config store indexProvider blockstore)
    (meets_of_forall (fun _ _ _ => trivial) _) run
  have alternates := told.alternates peer
  have last := told.last peer
  rw [notices, marks_append, marks_append] at alternates last
  exact ⟨alternates.of_append, last⟩

/-- A peer opens two connections and closes both.  The first close is polled and delivered,
the second one changes nothing. -/
def twoConnections : List PeerInput :=
  [.established ⟨"12D3KooWA"⟩ 1 (.dialer []) none 0, .service .pollDiscovery,
    .established ⟨"12D3KooWA"⟩ 2 (.dialer []) none 1, .closed ⟨"12D3KooWA"⟩ 1 (.dialer []) 1,
    .service (.deliver quietEnv), .service .pollDiscovery, .closed ⟨"12D3KooWA"⟩ 2 (.dialer []) 0]

theorem notifications_alternate_sample :
    ∃ s, exec (peerStep plainDeps plainBlocks) (sampleService .empty) twoConnections = some s ∧
      s.delivered = [(⟨"12D3KooWA"⟩, true)] ∧ s.queued = [(⟨"12D3KooWA"⟩, false)] ∧
      Alternates true (marks ⟨"12D3KooWA"⟩ s.delivered) := by
  have evaluated : (exec (peerStep plainDeps plainBlocks) (sampleService .empty) twoConnections).map
      (fun s => (s.delivered, s.queued)) =
        some ([(⟨"12D3KooWA"⟩, true)], [(⟨"12D3KooWA"⟩, false)]) := by decide +kernel
  obtain ⟨s, run, streams⟩ := Option.map_eq_some_iff.mp evaluated
  simp only [Prod.mk.injEq] at streams
  refine ⟨s, run, streams.1, streams.2, ?_⟩
  exact (notifications_alternate plainDeps plainBlocks _ _ _ _ _ twoConnections s run _).1

end UrsaService

end Ursa.Network

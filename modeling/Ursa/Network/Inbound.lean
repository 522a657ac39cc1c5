/-
# Network.Inbound — what comes in from the network is passed on

Requests and gossip from other peers take the long way: a protocol hands them to its handler,
the handler queues them in `Behaviour.events` among everything else, and the loop passes them on
to whoever holds the receiving end of `event_sender`, one turn for one event.

What a step does to the queue and to what was passed on is said once (`Flow`): `raises` goes in
at the end, `passed` comes out; and what it can raise is said once, too (`Raise`).  The events of
one sort are then a stream (`stream`): those passed on, and those that wait.

A request is always passed on.  Gossip is not: the loop asks whether the peer it came from is
still connected at the moment of delivery (`FromConnected`).
-/
import Ursa.Network.Indexing

namespace Ursa.Network

set_option autoImplicit false

open Ursa.Theory.Run
open Ursa.IndexProvider

/-! ## What goes into the queue and what comes out -/

def DiscoveryEvent.raises : DiscoveryEvent → BehaviourEvent
  | .connected peer => .peerConnected peer
  | .disconnected peer => .peerDisconnected peer

def RelayServerEvent.raises : RelayServerEvent → List BehaviourEvent
  | .reservationReqAccepted peer renewed => if renewed then [] else [.relayReservationOpened peer]
  | .reservationTimedOut peer => [.relayReservationClosed peer]
  | .circuitReqAccepted _ _ => [.relayCircuitOpened]
  | .circuitClosed _ _ => [.relayCircuitClosed]
  | .otherEvent => []

/-- What an event is to the receiver, if it is passed on. -/
def BehaviourEvent.becomes : BehaviourEvent → Option UrsaEvent
  | .gossipMessage _ _ message => some (.gossipsubMessage message)
  | .requestMessage _ request channel => some (.requestMessage request channel)
  | .peerConnected peer => some (.peerConnected peer)
  | .peerDisconnected peer => some (.peerDisconnected peer)
  | _ => none

theorem becomes_cons (event : BehaviourEvent) (later : List BehaviourEvent) :
    (event :: later).filterMap BehaviourEvent.becomes =
      event.becomes.toList ++ later.filterMap BehaviourEvent.becomes := by
  cases became : event.becomes <;> simp [became]

/-- The public address an event carries. -/
def BehaviourEvent.publicAddress : BehaviourEvent → Option Multiaddr
  | .startPublish address => some address
  | .natStatusChanged _ (.reachable address) => some address
  | _ => none

/-- A change of the NAT status. -/
def BehaviourEvent.asChange : BehaviourEvent → Option (NatStatus × NatStatus)
  | .natStatusChanged old new => some (old, new)
  | _ => none

/-- What a protocol hands in. -/
def Input.inbound : Input → List UrsaEvent
  | .gossipsub (.message _ message) => [.gossipsubMessage message]
  | .requestResponse (.request _ _ request channel) => [.requestMessage request channel]
  | _ => []

/-- What autonat reports by an event. -/
def Input.reports : Input → List NatStatus
  | .autonat new => [new]
  | _ => []

/-- What autonat's status becomes, reported or not. -/
def Input.statuses : Input → List NatStatus
  | .autonat new => [new]
  | .autonatSilent new => [new]
  | _ => []

/-- What handling an event queues in turn. -/
def BehaviourEvent.followUp : BehaviourEvent → List BehaviourEvent
  | .natStatusChanged _ (.reachable address) => [.startPublish address]
  | _ => []

/-- What the behaviour knows of the outside: autonat's status, and the configuration. -/
structure Settings where
  autonat : Option NatStatus
  relayClient : Bool
  bootstrapNodes : List (PeerId × Multiaddr)

def Behaviour.settings (b : Behaviour) : Settings :=
  { autonat := b.autonat
    relayClient := b.relayClient
    bootstrapNodes := b.discovery.bootstrapNodes }

theorem bootstrapNodes_of_swarm {s t : Swarm} {event : ConnectionEvent}
    (stepped : s.step event = some t) :
    t.discovery.bootstrapNodes = s.discovery.bootstrapNodes := by
  cases event with
  | established c failed =>
      simp only [Swarm.step] at stepped
      split at stepped
      · cases stepped
      · cases stepped
        simp only [DiscoveryBehaviour.injectConnectionEstablished]
        split <;> rfl
  | closed id =>
      simp only [Swarm.step] at stepped
      split at stepped
      · cases stepped
      · cases stepped
        simp only [DiscoveryBehaviour.injectConnectionClosed]
        split <;> rfl

namespace UrsaService

variable {K : Type}

/-- The events a step queues. -/
def raises (s : UrsaService K) : Input → List BehaviourEvent
  | .command (.index (_ :: _) _) _ => (s.behaviour.publicAddress.map .startPublish).toList
  | .deliver _ => (s.behaviour.events.head?.map BehaviourEvent.followUp).getD []
  | .bitswap (.complete id result) =>
      ((s.behaviour.queries id).map fun info =>
        .bitswap { info with blockFound := info.blockFound || result.isOk }).toList
  | .autonat new => (s.behaviour.autonat.map fun old => .natStatusChanged old new).toList
  | .relayServer event => event.raises
  | .gossipsub (.message source message) => [.gossipMessage source message.topic message]
  | .requestResponse (.request peer _ request channel) => [.requestMessage peer request channel]
  | .pollDiscovery => (s.behaviour.discovery.events.head?.map DiscoveryEvent.raises).toList
  | _ => []

/-- What is left of the queue before anything is added. -/
def remaining (s : UrsaService K) : Input → List BehaviourEvent
  | .deliver _ => s.behaviour.events.tail
  | _ => s.behaviour.events

/-- What handling an event passes on. -/
def handed (s : UrsaService K) : BehaviourEvent → List UrsaEvent
  | .gossipMessage peer _ message => if s.isConnected peer then [.gossipsubMessage message] else []
  | event => event.becomes.toList

/-- What a step passes on. -/
def passed (s : UrsaService K) : Input → List UrsaEvent
  | .deliver _ => (s.behaviour.events.head?.map s.handed).getD []
  | _ => []

variable {deps : Deps K} {B : Blocks} {s t : UrsaService K} {input : Input}

/-- The status autonat has after a step. -/
def statusAfter (s : UrsaService K) : Input → Option NatStatus
  | .autonat new => some new
  | .autonatSilent new => some new
  | _ => s.behaviour.autonat

theorem untouched {α : Type} (l : List α) : l = l ++ [] := (List.append_nil l).symm

/-- What handling an event does to the queue, to what was passed on, to the settings and to the
addresses listened on. -/
structure Handled (s : UrsaService K) (event : BehaviourEvent) (t : UrsaService K) : Prop where
  events : t.behaviour.events = s.behaviour.events ++ event.followUp
  passed : t.history.events = s.history.events ++ s.handed event
  settings : t.behaviour.settings = s.behaviour.settings
  listening : event ≠ .natStatusChanged .unknown .behindNat →
    t.history.listening = s.history.listening

theorem handled_of_onEvent {env : DeliverEnv} {event : BehaviourEvent}
    (handled : onEvent deps B s env event = some t) : Handled s event t := by
  cases event with
  | bitswap info =>
      obtain ⟨_, _, _, rfl⟩ := onBitswap_frame handled
      exact ⟨untouched _, untouched _, rfl, fun _ => rfl⟩
  | startPublish address =>
      obtain ⟨_, _, _, rfl⟩ := onStartPublish_frame handled
      exact ⟨untouched _, untouched _, rfl, fun _ => rfl⟩
  | natStatusChanged old new =>
      cases handled
      cases new with
      | reachable address => cases old <;> exact ⟨rfl, untouched _, rfl, fun _ => rfl⟩
      | unknown => cases old <;> exact ⟨untouched _, untouched _, rfl, fun _ => rfl⟩
      | behindNat =>
          cases old with
          | unknown =>
              rcases onNatStatusChanged_cases s env .unknown .behindNat with
                ⟨_, isPublic, -⟩ | ⟨-, _, _, same⟩
              · cases isPublic
              · rw [same]
                exact ⟨untouched _, untouched _, rfl, fun other => absurd rfl other⟩
          | _ => exact ⟨untouched _, untouched _, rfl, fun _ => rfl⟩
  | gossipMessage peer topic message =>
      cases handled
      split
      · rename_i connected
        have still : s.isConnected peer = true := connected
        refine ⟨untouched _, ?_, rfl, fun _ => rfl⟩
        rw [handed, if_pos still]
        rfl
      · rename_i gone
        have still : ¬ s.isConnected peer = true := gone
        refine ⟨untouched _, ?_, rfl, fun _ => rfl⟩
        rw [handed, if_neg still]
        exact untouched _
  | relayReservationOpened peer =>
      cases handled
      exact ⟨untouched _, untouched _, rfl, fun _ => rfl⟩
  | relayReservationClosed peer =>
      cases handled
      exact ⟨untouched _, untouched _, rfl, fun _ => rfl⟩
  | relayCircuitOpened =>
      cases handled
      exact ⟨untouched _, untouched _, rfl, fun _ => rfl⟩
  | relayCircuitClosed =>
      cases handled
      exact ⟨untouched _, untouched _, rfl, fun _ => rfl⟩
  | _ =>
      cases handled
      exact ⟨untouched _, rfl, rfl, fun _ => rfl⟩

/-- **What a step does to the queue, to what was passed on and to the settings.**  A delivery
takes the first event out, and what a step raises goes in at the end; only deliveries pass
anything on; the settings are read-only, and autonat's status is the one it took last. -/
structure Flow (s : UrsaService K) (input : Input) (t : UrsaService K) : Prop where
  events : t.behaviour.events = s.remaining input ++ s.raises input
  passed : t.history.events = s.history.events ++ s.passed input
  settings : t.behaviour.settings =
    { s.behaviour.settings with autonat := s.statusAfter input }

theorem Flow.autonat (flow : Flow s input t) : t.behaviour.autonat = s.statusAfter input :=
  congrArg Settings.autonat flow.settings

theorem Flow.relayClient (flow : Flow s input t) :
    t.behaviour.relayClient = s.behaviour.relayClient :=
  congrArg Settings.relayClient flow.settings

theorem Flow.bootstrapNodes (flow : Flow s input t) :
    t.behaviour.discovery.bootstrapNodes = s.behaviour.discovery.bootstrapNodes :=
  congrArg Settings.bootstrapNodes flow.settings

theorem flow_of_step (taken : s.step deps B input = some t) : Flow s input t := by
  have running := running_of_step taken
  unfold step at taken
  rw [if_pos running] at taken
  cases input with
  | deliver env =>
      obtain ⟨event, later, first, handled⟩ := deliver_cases taken
      have done := handled_of_onEvent handled
      have passed : t.history.events = s.history.events ++ s.handed event := done.passed
      refine ⟨?_, ?_, done.settings⟩
      · simpa [remaining, raises, first] using done.events
      · simpa [UrsaService.passed, first] using passed
  | command command id =>
      cases taken
      cases command with
      | getBitswap cid query sender =>
          simp only [onCommand]
          split
          · exact ⟨untouched _, untouched _, rfl⟩
          · cases query <;> exact ⟨untouched _, untouched _, rfl⟩
      | index cids sender =>
          cases cids with
          | nil => exact ⟨untouched _, untouched _, rfl⟩
          | cons root cids =>
              simp only [onCommand]
              cases known : s.behaviour.publicAddress with
              | none => exact ⟨by simp [remaining, raises, known], untouched _, rfl⟩
              | some address =>
                  refine ⟨?_, untouched _, rfl⟩
                  simp [remaining, raises, known, Behaviour.publishAd, Behaviour.pushEvent]
      | _ => exact ⟨untouched _, untouched _, rfl⟩
  | bitswap event =>
      cases taken
      cases event with
      | progress id missing => exact ⟨untouched _, untouched _, rfl⟩
      | complete id result =>
          simp only [onBitswapEvent, Behaviour.handleBitswap]
          cases waiting : s.behaviour.queries id with
          | none => exact ⟨by simp [remaining, raises, waiting], untouched _, rfl⟩
          | some info =>
              refine ⟨?_, untouched _, rfl⟩
              cases result <;>
                simp [remaining, raises, waiting, Behaviour.pushEvent, Behaviour.cancel, Except.isOk,
                  Except.toBool]
  | autonat new =>
      obtain ⟨old, known, rfl⟩ := Option.map_eq_some_iff.mp taken
      refine ⟨?_, untouched _, rfl⟩
      simp [remaining, raises, known, Behaviour.handleAutonat, Behaviour.pushEvent]
  | autonatSilent new =>
      obtain ⟨_, -, -, rfl⟩ := onAutonatSilent_cases taken
      exact ⟨untouched _, untouched _, rfl⟩
  | relayServer event =>
      cases taken
      cases event with
      | reservationReqAccepted peer renewed =>
          cases renewed
          · exact ⟨rfl, untouched _, rfl⟩
          · exact ⟨untouched _, untouched _, rfl⟩
      | otherEvent => exact ⟨untouched _, untouched _, rfl⟩
      | _ => exact ⟨rfl, untouched _, rfl⟩
  | gossipsub event =>
      cases taken
      cases event with
      | message source message => exact ⟨rfl, untouched _, rfl⟩
      | _ => exact ⟨untouched _, untouched _, rfl⟩
  | requestResponse event =>
      cases taken
      have answered : ∀ id answer,
          (s.behaviour.answerPending id answer).1.events = s.behaviour.events ++ [] ∧
          (s.behaviour.answerPending id answer).1.settings = s.behaviour.settings := by
        intro id answer
        unfold Behaviour.answerPending
        split <;> exact ⟨untouched _, rfl⟩
      cases event with
      | request peer id request channel => exact ⟨rfl, untouched _, rfl⟩
      | response peer id response =>
          obtain ⟨events, settings⟩ := answered id (.ok response)
          exact ⟨events, untouched _, settings⟩
      | outboundFailure peer id error =>
          obtain ⟨events, settings⟩ := answered id (.error error)
          exact ⟨events, untouched _, settings⟩
      | _ => exact ⟨untouched _, untouched _, rfl⟩
  | connection event =>
      obtain ⟨swarm, stepped, rfl⟩ := Option.map_eq_some_iff.mp taken
      refine ⟨untouched _, untouched _, ?_⟩
      have nodes := bootstrapNodes_of_swarm stepped
      simp only [Behaviour.settings, statusAfter, nodes]
      rfl
  | pollDiscovery =>
      simp only [onPollDiscovery, DiscoveryBehaviour.poll] at taken
      cases waiting : s.behaviour.discovery.events with
      | nil =>
          rw [waiting] at taken
          cases taken
      | cons event rest =>
          rw [waiting] at taken
          cases taken
          cases event <;> refine ⟨?_, untouched _, rfl⟩ <;>
            simp [remaining, raises, waiting, DiscoveryEvent.raises, Behaviour.handleDiscovery,
              Behaviour.pushEvent]
  | insert cid data =>
      cases taken
      exact ⟨untouched _, untouched _, rfl⟩

/-- The node takes `address` for its own: it is the status, or waits in an event. -/
def Knows (s : UrsaService K) (address : Multiaddr) : Prop :=
  s.behaviour.publicAddress = some address ∨
    ∃ event ∈ s.behaviour.events, event.publicAddress = some address

/-- **What a step can raise.** -/
inductive Raise (s : UrsaService K) : Input → List BehaviourEvent → Prop where
  | nothing {input : Input} (silent : input.inbound = [])
      (unreported : input.reports = [] ∨ s.behaviour.autonat = none) : Raise s input []
  | publish {input : Input} (address : Multiaddr) (known : s.Knows address)
      (silent : input.inbound = []) (unreported : input.reports = []) :
      Raise s input [.startPublish address]
  | nat (old new : NatStatus) (status : s.behaviour.autonat = some old) :
      Raise s (.autonat new) [.natStatusChanged old new]
  | gossip (source : PeerId) (message : GossipsubMessage) :
      Raise s (.gossipsub (.message source message)) [.gossipMessage source message.topic message]
  | request (peer : PeerId) (id : RequestId) (request : UrsaExchangeRequest) (channel : SenderId) :
      Raise s (.requestResponse (.request peer id request channel))
        [.requestMessage peer request channel]
  | peer (said : DiscoveryEvent) : Raise s .pollDiscovery [said.raises]
  | other {input : Input} (event : BehaviourEvent) (silent : input.inbound = [])
      (unreported : input.reports = []) (own : event.becomes = none)
      (noAddress : event.publicAddress = none) (noChange : event.asChange = none) :
      Raise s input [event]

theorem raise_of (s : UrsaService K) (input : Input) : Raise s input (s.raises input) := by
  cases input with
  | command command id =>
      cases command with
      | index cids sender =>
          cases cids with
          | nil => exact .nothing rfl (.inl rfl)
          | cons root cids =>
              simp only [raises]
              cases known : s.behaviour.publicAddress with
              | none => exact .nothing rfl (.inl rfl)
              | some address => exact .publish address (.inl known) rfl rfl
      | _ => exact .nothing rfl (.inl rfl)
  | deliver env =>
      simp only [raises]
      cases waiting : s.behaviour.events.head? with
      | none => exact .nothing rfl (.inl rfl)
      | some event =>
          have queued := List.mem_of_head? waiting
          cases event with
          | natStatusChanged old new =>
              cases new with
              | reachable address => exact .publish address (.inr ⟨_, queued, rfl⟩) rfl rfl
              | _ => exact .nothing rfl (.inl rfl)
          | _ => exact .nothing rfl (.inl rfl)
  | bitswap event =>
      cases event with
      | progress id missing => exact .nothing rfl (.inl rfl)
      | complete id result =>
          simp only [raises]
          cases s.behaviour.queries id with
          | none => exact .nothing rfl (.inl rfl)
          | some info => exact .other _ rfl rfl rfl rfl rfl
  | autonat new =>
      simp only [raises]
      cases status : s.behaviour.autonat with
      | none => exact .nothing rfl (.inr status)
      | some old => exact .nat old new status
  | relayServer event =>
      cases event with
      | reservationReqAccepted peer renewed =>
          cases renewed with
          | false => exact .other _ rfl rfl rfl rfl rfl
          | true => exact .nothing rfl (.inl rfl)
      | otherEvent => exact .nothing rfl (.inl rfl)
      | _ => exact .other _ rfl rfl rfl rfl rfl
  | gossipsub event =>
      cases event with
      | message source message => exact .gossip source message
      | _ => exact .nothing rfl (.inl rfl)
  | requestResponse event =>
      cases event with
      | request peer id request channel => exact .request peer id request channel
      | _ => exact .nothing rfl (.inl rfl)
  | pollDiscovery =>
      simp only [raises]
      cases s.behaviour.discovery.events.head? with
      | none => exact .nothing rfl (.inl rfl)
      | some said => exact .peer said
  | _ => exact .nothing rfl (.inl rfl)

end UrsaService

/-! ## Streams -/

/-- What another peer sent. -/
def UrsaEvent.isInbound : UrsaEvent → Bool
  | .gossipsubMessage _ => true
  | .requestMessage _ _ => true
  | _ => false

def UrsaEvent.isRequest : UrsaEvent → Bool
  | .requestMessage _ _ => true
  | _ => false

namespace UrsaService

variable {K : Type} {deps : Deps K} {B : Blocks} {s t : UrsaService K} {input : Input}
  {keep : UrsaEvent → Bool}

/-- The events of one sort: those passed on, then those that wait. -/
def stream (keep : UrsaEvent → Bool) (s : UrsaService K) : List UrsaEvent :=
  s.history.events.filter keep ++ (s.behaviour.events.filterMap BehaviourEvent.becomes).filter keep

/-- The input does not deliver gossip of a peer that is gone. -/
def FromConnected (s : UrsaService K) : Input → Prop
  | .deliver _ => ∀ peer topic message later,
      s.behaviour.events = .gossipMessage peer topic message :: later → s.isConnected peer = true
  | _ => True

/-- Of what other peers send, a step raises what its input hands in. -/
theorem Raise.inbound {raised : List BehaviourEvent} (raise : Raise s input raised)
    (inbound : ∀ event, keep event = true → event.isInbound = true) :
    (raised.filterMap BehaviourEvent.becomes).filter keep = input.inbound.filter keep := by
  cases raise with
  | nothing silent unreported => rw [silent, List.filterMap_nil]
  | publish address known silent unreported => rw [silent]; rfl
  | nat old new status => rfl
  | gossip source message => rfl
  | request peer id request channel => rfl
  | peer said =>
      have other : ∀ event : UrsaEvent, event.isInbound = false → keep event = false :=
        fun event outside => Bool.eq_false_iff.mpr fun kept => by
          rw [inbound event kept] at outside
          cases outside
      cases said with
      | connected peer => exact List.filter_cons_of_neg (by rw [other _ rfl]; simp)
      | disconnected peer => exact List.filter_cons_of_neg (by rw [other _ rfl]; simp)
  | other event silent unreported own => rw [silent, List.filterMap_cons_none own]; rfl

/-- Handling an event passes on what it becomes, or nothing. -/
theorem handed_sublist (s : UrsaService K) (event : BehaviourEvent) :
    (s.handed event).Sublist event.becomes.toList := by
  cases event with
  | gossipMessage peer topic message =>
      simp only [handed]
      split
      · exact .refl _
      · exact List.nil_sublist _
  | _ => exact .refl _

theorem stream_step (inbound : ∀ event, keep event = true → event.isInbound = true)
    (taken : s.step deps B input = some t) :
    t.stream keep = s.history.events.filter keep ++
      ((s.passed input).filter keep ++
        ((s.remaining input).filterMap BehaviourEvent.becomes).filter keep) ++
      input.inbound.filter keep := by
  have flow := flow_of_step taken
  rw [stream, flow.passed, flow.events, ← (raise_of s input).inbound inbound]
  simp

/-- What a step takes out of the queue it passes on, or loses. -/
theorem taken_sublist (keep : UrsaEvent → Bool) (s : UrsaService K) (input : Input) :
    ((s.passed input).filter keep ++
      ((s.remaining input).filterMap BehaviourEvent.becomes).filter keep).Sublist
        ((s.behaviour.events.filterMap BehaviourEvent.becomes).filter keep) := by
  rw [← List.filter_append]
  apply List.Sublist.filter
  cases input with
  | deliver env =>
      cases waiting : s.behaviour.events with
      | nil => simp [passed, remaining, waiting]
      | cons event later =>
          rw [becomes_cons]
          simpa [passed, remaining, waiting] using (handed_sublist s event).append_right
            (later.filterMap BehaviourEvent.becomes)
  | _ => exact .refl _

theorem stream_sublist (inbound : ∀ event, keep event = true → event.isInbound = true)
    (taken : s.step deps B input = some t) :
    (t.stream keep).Sublist (s.stream keep ++ input.inbound.filter keep) := by
  rw [stream_step inbound taken]
  exact ((taken_sublist keep s input).append_left _).append_right _

/-- A step loses nothing exactly if what it takes out is passed on. -/
theorem stream_eq_iff (inbound : ∀ event, keep event = true → event.isInbound = true)
    (taken : s.step deps B input = some t) :
    t.stream keep = s.stream keep ++ input.inbound.filter keep ↔
      ∀ env event later, input = .deliver env → s.behaviour.events = event :: later →
        (s.handed event).filter keep = event.becomes.toList.filter keep := by
  rw [stream_step inbound taken, stream, List.append_left_inj, List.append_right_inj]
  cases input with
  | deliver env =>
      cases waiting : s.behaviour.events with
      | nil => simp [passed, remaining, waiting]
      | cons event later =>
          rw [becomes_cons]
          simp [passed, remaining, waiting]
  | _ => simp [passed, remaining]

/-- A sort of events is whole again after a delivery exactly if the first event was passed on;
for gossip that means that its peer was still connected. -/
theorem stream_connected_iff (inbound : ∀ event, keep event = true → event.isInbound = true)
    (gossip : ∀ message, keep (.gossipsubMessage message) = true)
    (taken : s.step deps B input = some t) :
    t.stream keep = s.stream keep ++ input.inbound.filter keep ↔ s.FromConnected input := by
  rw [stream_eq_iff inbound taken]
  cases input with
  | deliver env =>
      constructor
      · intro exact peer topic message later first
        have whole := exact env _ later rfl first
        by_contra gone
        rw [handed, if_neg gone] at whole
        simp [BehaviourEvent.becomes, gossip] at whole
      · intro connected env' event later _ first
        cases event with
        | gossipMessage peer topic message =>
            rw [handed, if_pos (connected peer topic message later first)]
            rfl
        | _ => rfl
  | _ => simp [FromConnected]

theorem stream_requests (taken : s.step deps B input = some t) :
    t.stream UrsaEvent.isRequest =
      s.stream UrsaEvent.isRequest ++ input.inbound.filter UrsaEvent.isRequest := by
  have inbound : ∀ event : UrsaEvent, event.isRequest = true → event.isInbound = true := by
    intro event request
    cases event with
    | requestMessage request channel => rfl
    | _ => cases request
  rw [stream_eq_iff inbound taken]
  intro env event later _ _
  cases event with
  | gossipMessage peer topic message =>
      simp only [handed]
      split <;> rfl
  | _ => rfl

/-- **What other peers send is passed on, once and in order.**  In every run of the loop, of the
requests and the gossip that the protocols have handed in: what was passed on, then what waits,
is what came in, in the same order and nothing twice.  No request is ever lost; and nothing at
all is lost if and only if each time gossip was delivered its peer was connected. -/
theorem inbound_is_passed_on (deps : Deps K) (B : Blocks) (peerId : PeerId)
    (config : NetworkConfig) (store : Store) (indexProvider : Provider K)
    (blockstore : Cid → Option Ipld) (inputs : List Input) (s : UrsaService K)
    (run : exec (step deps B) (new peerId config store indexProvider blockstore) inputs = some s) :
    s.stream UrsaEvent.isRequest = (inputs.flatMap Input.inbound).filter UrsaEvent.isRequest ∧
    (s.stream UrsaEvent.isInbound).Sublist (inputs.flatMap Input.inbound) ∧
    (s.stream UrsaEvent.isInbound = inputs.flatMap Input.inbound ↔
      Meets (step deps B) FromConnected (new peerId config store indexProvider blockstore) inputs) := by
  have inbound : ∀ event, UrsaEvent.isInbound event = true → event.isInbound = true := fun _ => id
  have whole : ∀ input : Input, input.inbound.filter UrsaEvent.isInbound = input.inbound := by
    intro input
    cases input with
    | gossipsub event => cases event <;> rfl
    | requestResponse event => cases event <;> rfl
    | _ => rfl
  have adds : ∀ (s : UrsaService K) input t, s.step deps B input = some t →
      (t.stream UrsaEvent.isInbound).Sublist (s.stream UrsaEvent.isInbound ++ input.inbound) := by
    intro s input t taken
    rw [← whole input]
    exact stream_sublist inbound taken
  refine ⟨?_, exec_sublog adds run, ?_⟩
  · rw [List.filter_flatMap]
    exact exec_log (fun _ _ _ taken => stream_requests taken) run
  · refine exec_log_iff adds ?_ run
    intro s input t taken
    rw [← stream_connected_iff inbound (fun _ => rfl) taken, whole]

/-- A peer sends a message, a request and another message, and is gone before the last one is
delivered. -/
def lateGossip : List Input :=
  [.connection (.established ⟨1, ⟨"12D3KooWA"⟩, .dialer []⟩ none),
    .gossipsub (.message ⟨"12D3KooWA"⟩ ⟨none, [1], none, "topic"⟩),
    .requestResponse (.request ⟨"12D3KooWA"⟩ 1 ⟨.carRequest "bafy"⟩ 7),
    .gossipsub (.message ⟨"12D3KooWA"⟩ ⟨none, [2], none, "topic"⟩),
    .deliver quietEnv, .connection (.closed 1), .deliver quietEnv, .deliver quietEnv]

theorem inbound_is_passed_on_sample :
    ∃ s, exec (step plainDeps plainBlocks) (sampleService .empty) lateGossip = some s ∧
      s.stream UrsaEvent.isInbound =
        [.gossipsubMessage ⟨none, [1], none, "topic"⟩, .requestMessage ⟨.carRequest "bafy"⟩ 7] ∧
      ¬ Meets (step plainDeps plainBlocks) FromConnected (sampleService .empty) lateGossip := by
  have evaluated : (exec (step plainDeps plainBlocks) (sampleService .empty) lateGossip).map
      (stream UrsaEvent.isInbound) = some
        [.gossipsubMessage ⟨none, [1], none, "topic"⟩, .requestMessage ⟨.carRequest "bafy"⟩ 7] := by
    decide +kernel
  obtain ⟨s, run, left⟩ := Option.map_eq_some_iff.mp evaluated
  refine ⟨s, run, left, ?_⟩
  intro connected
  have whole := (inbound_is_passed_on plainDeps plainBlocks _ _ _ _ _ lateGossip s run).2.2.mpr
    connected
  rw [left] at whole
  revert whole
  decide

end UrsaService

end Ursa.Network

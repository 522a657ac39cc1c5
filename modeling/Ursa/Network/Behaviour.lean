/-
# Network.Behaviour — the node's network behaviour and its event queue

`ursa-network/src/behaviour.rs`.  Every protocol hands its events to a handler; a
handler updates the behaviour's own maps and queues what the service loop has to
see (`events`, first in first out).

* `queries` holds the bitswap queries that have been started and not yet completed.
  A completion moves the entry into the queue (`handleBitswap`); a completion of a
  query that is not there is dropped.
* `pendingResponses` holds the channels of requests sent to peers.

The protocols themselves are third-party code.  What the node asks of them comes in
as an argument: the query id bitswap hands out, the request id, the NAT status.
Ping, identify, relay-client and hole-punching events only write to the log, or into
third-party address books.
-/
import Ursa.Network.Discovery
import Mathlib.Logic.Function.Basic

namespace Ursa.Network

set_option autoImplicit false

abbrev QueryId := Nat

abbrev RequestId := Nat

/-- The sending half of a one-shot channel. -/
abbrev SenderId := Nat

structure BitswapInfo where
  cid : Cid
  queryId : QueryId
  blockFound : Bool
  deriving DecidableEq, Repr

inductive NatStatus where
  | unknown
  | behindNat
  | reachable (address : Multiaddr)
  deriving DecidableEq, Repr

structure GossipsubMessage where
  source : Option PeerId
  data : Bytes
  sequenceNumber : Option Nat
  topic : String
  deriving DecidableEq, Repr

/-! ## Requests between peers -/

inductive RequestType where
  | carRequest (cid : String)
  deriving DecidableEq, Repr

structure UrsaExchangeRequest where
  request : RequestType
  deriving DecidableEq, Repr

structure CarResponse where
  cid : String
  data : Bytes
  deriving DecidableEq, Repr

inductive ResponseType where
  | carResponse (response : CarResponse)
  deriving DecidableEq, Repr

structure UrsaExchangeResponse where
  response : ResponseType
  deriving DecidableEq, Repr

/-! ## Events -/

inductive BehaviourEvent where
  | natStatusChanged (old new : NatStatus)
  | peerConnected (peer : PeerId)
  | peerDisconnected (peer : PeerId)
  | relayReservationOpened (peer : PeerId)
  | relayReservationClosed (peer : PeerId)
  | relayCircuitOpened
  | relayCircuitClosed
  | bitswap (info : BitswapInfo)
  | gossipMessage (peer : PeerId) (topic : String) (message : GossipsubMessage)
  | requestMessage (peer : PeerId) (request : UrsaExchangeRequest) (channel : SenderId)
  | startPublish (publicAddress : Multiaddr)
  deriving DecidableEq, Repr

inductive AutonatEvent where
  | statusChanged (old new : NatStatus)
  | outboundProbe
  | inboundProbe

inductive RelayServerEvent where
  | reservationReqAccepted (srcPeerId : PeerId) (renewed : Bool)
  | reservationTimedOut (srcPeerId : PeerId)
  | circuitReqAccepted (srcPeerId dstPeerId : PeerId)
  | circuitClosed (srcPeerId dstPeerId : PeerId)
  /-- The variants for denied and failed requests. -/
  | otherEvent

inductive BitswapEvent where
  | progress (id : QueryId) (missing : Nat)
  | complete (id : QueryId) (result : Except String Unit)

inductive GossipsubEvent where
  | message (propagationSource : PeerId) (message : GossipsubMessage)
  | subscribed (peer : PeerId) (topic : String)
  | unsubscribed (peer : PeerId) (topic : String)
  | notSupported (peer : PeerId)

inductive RequestResponseEvent where
  | request (peer : PeerId) (id : RequestId) (request : UrsaExchangeRequest) (channel : SenderId)
  | response (peer : PeerId) (id : RequestId) (response : UrsaExchangeResponse)
  | outboundFailure (peer : PeerId) (id : RequestId) (error : String)
  | inboundFailure (peer : PeerId) (id : RequestId) (error : String)
  | responseSent (peer : PeerId) (id : RequestId)

/-! ## The behaviour -/

/-- What the node's configuration says about its network. -/
structure NetworkConfig where
  /-- The address the swarm listens on from the start. -/
  swarmAddr : Multiaddr
  bootstrapNodes : List Multiaddr
  autonat : Bool
  relayClient : Bool

structure Behaviour where
  /-- The status autonat has; `none` when autonat is off. -/
  autonat : Option NatStatus
  relayClient : Bool
  discovery : DiscoveryBehaviour
  events : List BehaviourEvent
  pendingResponses : RequestId → Option SenderId
  queries : QueryId → Option BitswapInfo

namespace Behaviour

def new (config : NetworkConfig) : Behaviour :=
  { autonat := if config.autonat then some .unknown else none
    relayClient := config.relayClient
    discovery := .new config.bootstrapNodes
    events := []
    pendingResponses := fun _ => none
    queries := fun _ => none }

def publicAddress (b : Behaviour) : Option Multiaddr :=
  match b.autonat with
  | some (.reachable address) => some address
  | _ => none

def peers (b : Behaviour) : Finset PeerId := b.discovery.peers

def isRelayClientEnabled (b : Behaviour) : Bool := b.relayClient

def pushEvent (b : Behaviour) (event : BehaviourEvent) : Behaviour :=
  { b with events := b.events ++ [event] }

def publishAd (b : Behaviour) (publicAddress : Multiaddr) : Behaviour :=
  b.pushEvent (.startPublish publicAddress)

/-- `send_request`: `id` is the id the request gets. -/
def sendRequest (b : Behaviour) (id : RequestId) (sender : SenderId) : Behaviour :=
  { b with pendingResponses := Function.update b.pendingResponses id (some sender) }

/-- The entry for a query that bitswap started under `id`. -/
def startQuery (b : Behaviour) (id : QueryId) (cid : Cid) : Behaviour :=
  { b with queries :=
      Function.update b.queries id (some { queryId := id, cid, blockFound := false }) }

def getBlock (b : Behaviour) (id : QueryId) (cid : Cid) : Behaviour := b.startQuery id cid

def syncBlock (b : Behaviour) (id : QueryId) (cid : Cid) : Behaviour := b.startQuery id cid

def cancel (b : Behaviour) (id : QueryId) : Behaviour :=
  { b with queries := Function.update b.queries id none }

def poll (b : Behaviour) : Option BehaviourEvent × Behaviour :=
  match b.events with
  | [] => (none, b)
  | event :: rest => (some event, { b with events := rest })

/-! ## Handlers -/

def handleAutonat (b : Behaviour) : AutonatEvent → Behaviour
  | .statusChanged old new => b.pushEvent (.natStatusChanged old new)
  | .outboundProbe => b
  | .inboundProbe => b

def handleRelayServer (b : Behaviour) : RelayServerEvent → Behaviour
  | .reservationReqAccepted peer renewed =>
      if renewed then b else b.pushEvent (.relayReservationOpened peer)
  | .reservationTimedOut peer => b.pushEvent (.relayReservationClosed peer)
  | .circuitReqAccepted _ _ => b.pushEvent .relayCircuitOpened
  | .circuitClosed _ _ => b.pushEvent .relayCircuitClosed
  | .otherEvent => b

def handleBitswap (b : Behaviour) : BitswapEvent → Behaviour
  | .progress _ _ => b
  | .complete id result =>
      match b.queries id with
      | some info =>
          let info := match result with
            | .error _ => info
            | .ok _ => { info with blockFound := true }
          (b.cancel id).pushEvent (.bitswap info)
      | none => b

def handleGossipsub (b : Behaviour) : GossipsubEvent → Behaviour
  | .message source message => b.pushEvent (.gossipMessage source message.topic message)
  | .subscribed _ _ => b
  | .unsubscribed _ _ => b
  | .notSupported _ => b

def handleDiscovery (b : Behaviour) : DiscoveryEvent → Behaviour
  | .connected peer => b.pushEvent (.peerConnected peer)
  | .disconnected peer => b.pushEvent (.peerDisconnected peer)

/-- A response or a failure takes the waiting channel out and answers it. -/
def answerPending (b : Behaviour) (id : RequestId) (answer : Except String UrsaExchangeResponse) :
    Behaviour × Option (SenderId × Except String UrsaExchangeResponse) :=
  match b.pendingResponses id with
  | some sender =>
      ({ b with pendingResponses := Function.update b.pendingResponses id none },
        some (sender, answer))
  | none => (b, none)

def handleRequestResponse (b : Behaviour) :
    RequestResponseEvent → Behaviour × Option (SenderId × Except String UrsaExchangeResponse)
  | .request peer _ request channel => (b.pushEvent (.requestMessage peer request channel), none)
  | .response _ id response => b.answerPending id (.ok response)
  | .outboundFailure _ id error => b.answerPending id (.error error)
  | .inboundFailure _ _ _ => (b, none)
  | .responseSent _ _ => (b, none)

end Behaviour

end Ursa.Network

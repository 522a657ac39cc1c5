/-
# Metrics.Events — what the node records for an event

`ursa-metrics/src/events.rs`.  `track` turns an event into at most one update of a
named metric; an event that comes with the wrong kind of labels is only logged.  Of
the labels it looks at nothing but their presence, so a label is its key here.
-/

namespace Ursa.Metrics

set_option autoImplicit false

inductive MetricEvent where
  | peerConnected
  | peerDisconnected
  | relayReservationOpened
  | relayReservationClosed
  | relayCircuitOpened
  | relayCircuitClosed
  | bitswap
  | gossipMessage
  | requestMessage
  | rpcRequestReceived
  | rpcResponseSent
  deriving DecidableEq, Repr

inductive Metric where
  | activeConnectedPeers
  | activeRelayReservations
  | activeRelayCircuits
  | httpRpcRequests
  | nodeBitswapOperations
  | nodeGossipMessages
  | nodeRequestMessages
  | nodeResponseInfo
  | unknown (name : String)
  deriving DecidableEq, Repr

/-- The name a metric is recorded under. -/
def Metric.toString : Metric → String
  | .activeConnectedPeers => "active_connected_peers"
  | .activeRelayReservations => "active_relay_reservations"
  | .activeRelayCircuits => "active_relay_circuits"
  | .httpRpcRequests => "http_rpc_requests"
  | .nodeBitswapOperations => "node_bitswap_operations"
  | .nodeGossipMessages => "node_gossip_messages"
  | .nodeRequestMessages => "node_request_messages"
  | .nodeResponseInfo => "node_response_info"
  | .unknown name => name

/-- One call of the recorder; a latency is the 64 bits of its float. -/
inductive Update where
  | incrementCounter (name : String)
  | incrementGauge (name : String)
  | decrementGauge (name : String)
  | histogram (name : String) (value : UInt64)
  deriving DecidableEq, Repr

def track (event : MetricEvent) (labels : Option (List String)) (value : Option UInt64) :
    Option Update :=
  match labels with
  | some _ =>
      match event with
      | .bitswap => some (.incrementCounter Metric.nodeBitswapOperations.toString)
      | .gossipMessage => some (.incrementCounter Metric.nodeGossipMessages.toString)
      | .requestMessage => some (.incrementCounter Metric.nodeRequestMessages.toString)
      | .rpcResponseSent => value.map (.histogram Metric.nodeResponseInfo.toString)
      | _ => none
  | none =>
      match event with
      | .peerConnected => some (.incrementGauge Metric.activeConnectedPeers.toString)
      | .peerDisconnected => some (.decrementGauge Metric.activeConnectedPeers.toString)
      | .rpcRequestReceived => some (.incrementCounter Metric.activeConnectedPeers.toString)
      | .relayReservationOpened => some (.incrementGauge Metric.activeRelayReservations.toString)
      | .relayReservationClosed => some (.decrementGauge Metric.activeRelayReservations.toString)
      | .relayCircuitOpened => some (.incrementGauge Metric.activeRelayCircuits.toString)
      | .relayCircuitClosed => some (.decrementGauge Metric.activeRelayCircuits.toString)
      | _ => none

end Ursa.Metrics

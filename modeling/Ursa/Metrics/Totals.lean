/-
# Metrics.Totals — what the updates of a metric add up to

`track` is called by the service loop and by the middleware of the RPC server
(`ursa-metrics/src/middleware.rs`), in any order.  `TrackCall` has one constructor for each
call site, so a list of them is what one process issues; `total` adds up what is recorded
under one name.

A received RPC request is recorded under the name of the connected peers: `total_peers` and
`total_rpcRequests` say what becomes of the two metrics, and `totals_follow_events_iff` when
all four follow their events.  The calls of the loop alone are such a list
(`connected_peers_follow_notices`).
-/
import Ursa.Metrics.Events
import Ursa.Network.Peers
import Mathlib.Algebra.Ring.Int.Defs

namespace Ursa.Metrics

set_option autoImplicit false

/-! ## Calls -/

/-- A call of `track`, by call site. -/
inductive TrackCall where
  | bitswap (labels : List String)
  | gossipMessage (labels : List String)
  | requestMessage (labels : List String)
  | peerConnected
  | peerDisconnected
  | relayReservationOpened
  | relayReservationClosed
  | relayCircuitOpened
  | relayCircuitClosed
  /-- The middleware, once the response is there. -/
  | rpcRequestReceived
  | rpcResponseSent (labels : List String) (latency : UInt64)
  deriving DecidableEq, Repr

/-- What the call records. -/
def TrackCall.track : TrackCall → Option Update
  | .bitswap labels => Metrics.track .bitswap (some labels) none
  | .gossipMessage labels => Metrics.track .gossipMessage (some labels) none
  | .requestMessage labels => Metrics.track .requestMessage (some labels) none
  | .peerConnected => Metrics.track .peerConnected none none
  | .peerDisconnected => Metrics.track .peerDisconnected none none
  | .relayReservationOpened => Metrics.track .relayReservationOpened none none
  | .relayReservationClosed => Metrics.track .relayReservationClosed none none
  | .relayCircuitOpened => Metrics.track .relayCircuitOpened none none
  | .relayCircuitClosed => Metrics.track .relayCircuitClosed none none
  | .rpcRequestReceived => Metrics.track .rpcRequestReceived none none
  | .rpcResponseSent labels latency => Metrics.track .rpcResponseSent (some labels) (some latency)

/-- `track_metrics`: the calls for one request. -/
def trackMetrics (latency : UInt64) : List TrackCall :=
  [.rpcRequestReceived, .rpcResponseSent ["method", "path", "status", "latency"] latency]

def recorded (calls : List TrackCall) : List Update := calls.filterMap TrackCall.track

/-! ## Totals -/

def Update.name : Update → String
  | .incrementCounter name => name
  | .incrementGauge name => name
  | .decrementGauge name => name
  | .histogram name _ => name

/-- What an update adds; an observation of a histogram adds nothing. -/
def Update.amount : Update → Int
  | .incrementCounter _ => 1
  | .incrementGauge _ => 1
  | .decrementGauge _ => -1
  | .histogram _ _ => 0

/-- The sum of the updates recorded under a metric's name. -/
def total (metric : Metric) (updates : List Update) : Int :=
  ((updates.filter fun u => u.name = metric.toString).map Update.amount).sum

/-- What one update adds to a metric. -/
def Update.adds (metric : Metric) (u : Update) : Int :=
  if u.name = metric.toString then u.amount else 0

@[simp] theorem total_nil (metric : Metric) : total metric [] = 0 := rfl

@[simp] theorem total_cons (metric : Metric) (u : Update) (updates : List Update) :
    total metric (u :: updates) = u.adds metric + total metric updates := by
  by_cases named : u.name = metric.toString
  · simp [total, Update.adds, named]
  · simp [total, Update.adds, named]

/-- What one call adds to a metric. -/
def TrackCall.adds (metric : Metric) (call : TrackCall) : Int :=
  (call.track.map (Update.adds metric)).getD 0

theorem total_recorded (metric : Metric) (calls : List TrackCall) :
    total metric (recorded calls) = (calls.map (TrackCall.adds metric)).sum := by
  induction calls with
  | nil => rfl
  | cons call calls ih =>
      cases tracked : call.track with
      | none =>
          have rest : recorded (call :: calls) = recorded calls := by simp [recorded, tracked]
          simp [rest, ih, TrackCall.adds, tracked]
      | some u =>
          have rest : recorded (call :: calls) = u :: recorded calls := by simp [recorded, tracked]
          simp [rest, ih, TrackCall.adds, tracked]

/-- The number of calls of one kind. -/
def times (call : TrackCall) (calls : List TrackCall) : Int := calls.count call

theorem times_cons (c call : TrackCall) (calls : List TrackCall) :
    times c (call :: calls) = times c calls + if c = call then 1 else 0 := by
  by_cases same : c = call
  · simp [times, same]
  · simp [times, same, List.count_cons_of_ne (Ne.symm same)]

/-- A metric to which each call adds its weight, if it has one, totals the weighted numbers
of calls, whatever their order and whatever comes between them. -/
theorem total_of_weights {metric : Metric} (weights : List (TrackCall × Int))
    (adds : ∀ call : TrackCall,
      call.adds metric = (weights.map fun w => w.2 * if w.1 = call then 1 else 0).sum)
    (calls : List TrackCall) :
    total metric (recorded calls) = (weights.map fun w => w.2 * times w.1 calls).sum := by
  rw [total_recorded]
  induction calls with
  | nil => simp [times]
  | cons call calls ih =>
      simp only [List.map_cons, List.sum_cons, ih, adds, times_cons, Int.mul_add,
        List.sum_map_add]
      exact Int.add_comm _ _

/-! ## The four metrics -/

section Four

variable (calls : List TrackCall)

theorem total_peers :
    total .activeConnectedPeers (recorded calls) =
      times .peerConnected calls - times .peerDisconnected calls +
        times .rpcRequestReceived calls := by
  rw [total_of_weights [(.peerConnected, 1), (.peerDisconnected, -1), (.rpcRequestReceived, 1)]
    (fun call => by cases call <;> rfl)]
  simp
  omega

theorem total_reservations :
    total .activeRelayReservations (recorded calls) =
      times .relayReservationOpened calls - times .relayReservationClosed calls := by
  rw [total_of_weights [(.relayReservationOpened, 1), (.relayReservationClosed, -1)]
    (fun call => by cases call <;> rfl)]
  simp
  omega

theorem total_circuits :
    total .activeRelayCircuits (recorded calls) =
      times .relayCircuitOpened calls - times .relayCircuitClosed calls := by
  rw [total_of_weights [(.relayCircuitOpened, 1), (.relayCircuitClosed, -1)]
    (fun call => by cases call <;> rfl)]
  simp
  omega

/-- Nothing is recorded under the name of the RPC requests. -/
theorem total_rpcRequests : total .httpRpcRequests (recorded calls) = 0 :=
  total_of_weights [] (fun call => by cases call <;> rfl) calls

end Four

/-- The totals are what the events say. -/
structure FollowsEvents (calls : List TrackCall) : Prop where
  peers : total .activeConnectedPeers (recorded calls) =
    times .peerConnected calls - times .peerDisconnected calls
  reservations : total .activeRelayReservations (recorded calls) =
    times .relayReservationOpened calls - times .relayReservationClosed calls
  circuits : total .activeRelayCircuits (recorded calls) =
    times .relayCircuitOpened calls - times .relayCircuitClosed calls
  rpcRequests : total .httpRpcRequests (recorded calls) = times .rpcRequestReceived calls

/-- **When the totals follow the events.**  Exactly when no RPC request was received: it is
counted under the name of the connected peers, and not as a request. -/
theorem totals_follow_events_iff (calls : List TrackCall) :
    FollowsEvents calls ↔ .rpcRequestReceived ∉ calls := by
  rw [← List.count_eq_zero]
  constructor
  · intro follows
    have requests := follows.rpcRequests
    rw [total_rpcRequests, times] at requests
    omega
  · intro none
    have never : times .rpcRequestReceived calls = 0 := by simp [times, none]
    exact
      { peers := by rw [total_peers, never, Int.add_zero]
        reservations := total_reservations calls
        circuits := total_circuits calls
        rpcRequests := by rw [total_rpcRequests, never] }

/-- One request: the name of the connected peers stands at one, that of the requests at zero. -/
theorem a_request_counts_as_a_peer :
    total .activeConnectedPeers (recorded (trackMetrics 0)) = 1 ∧
      total .httpRpcRequests (recorded (trackMetrics 0)) = 0 ∧ ¬ FollowsEvents (trackMetrics 0) := by
  refine ⟨by decide, by decide, ?_⟩
  intro follows
  have requests := follows.rpcRequests
  simp [total_rpcRequests, times, trackMetrics] at requests

/-! ## The loop -/

open Ursa.Theory.Run
open Ursa.Network
open Ursa.Network.UrsaService
open Ursa.IndexProvider (Deps Provider)

/-- The calls in the arm of an event. -/
def callsOf : BehaviourEvent → List TrackCall
  | .bitswap _ => [.bitswap ["cid", "query_id", "block_found"]]
  | .gossipMessage _ _ _ => [.gossipMessage ["peer", "topic", "message"]]
  | .requestMessage _ _ _ => [.requestMessage ["peer", "request", "channel"]]
  | .peerConnected _ => [.peerConnected]
  | .peerDisconnected _ => [.peerDisconnected]
  | .relayReservationOpened _ => [.relayReservationOpened]
  | .relayReservationClosed _ => [.relayReservationClosed]
  | .relayCircuitOpened => [.relayCircuitOpened]
  | .relayCircuitClosed => [.relayCircuitClosed]
  | .natStatusChanged _ _ => []
  | .startPublish _ => []

section Loop

variable {K : Type} {deps : Deps K} {B : Blocks} {s t : UrsaService K} {input : Input}

theorem onEvent_updates {env : DeliverEnv} {event : BehaviourEvent}
    (handled : onEvent deps B s env event = some t) :
    t.history.updates = s.history.updates ++ recorded (callsOf event) := by
  cases event with
  | bitswap info =>
      obtain ⟨_, _, _, rfl⟩ := onBitswap_frame handled
      rfl
  | startPublish address =>
      obtain ⟨_, _, _, rfl⟩ := onStartPublish_frame handled
      exact (List.append_nil _).symm
  | natStatusChanged old new =>
      cases handled
      rcases onNatStatusChanged_cases s env old new with ⟨_, -, same⟩ | ⟨-, _, _, same⟩
      all_goals
        rw [same]
        exact (List.append_nil _).symm
  | gossipMessage peer topic message =>
      cases handled
      split <;> rfl
  | _ =>
      cases handled
      rfl

theorem onEvent_delivered {env : DeliverEnv} {event : BehaviourEvent}
    (handled : onEvent deps B s env event = some t) :
    t.delivered = s.delivered ++ event.notice.toList := by
  cases notice : event.notice with
  | none => simpa using (onEvent_silent notice handled).delivered
  | some said =>
      cases event with
      | peerConnected peer =>
          cases handled
          cases notice
          simp [delivered, sendEvent, UrsaService.track, UrsaEvent.notice]
      | peerDisconnected peer =>
          cases handled
          cases notice
          simp [delivered, sendEvent, UrsaService.track, UrsaEvent.notice]
      | _ => cases notice

theorem onCommand_updates (command : UrsaCommand) (id : Nat) :
    (s.onCommand id command).history.updates = s.history.updates := by
  cases command with
  | getBitswap cid query sender =>
      simp only [onCommand]
      split <;> rfl
  | index cids sender => cases cids <;> rfl
  | _ => rfl

/-- The updates are those of calls of the loop, and its peer calls are the notices that it has
passed on. -/
def Metered (s : UrsaService K) : Prop :=
  ∃ calls : List TrackCall, s.history.updates = recorded calls ∧ .rpcRequestReceived ∉ calls ∧
    times .peerConnected calls = s.delivered.countP (·.2) ∧
    times .peerDisconnected calls = s.delivered.countP (!·.2)

theorem Metered.of_same (metered : Metered s) (updates : t.history.updates = s.history.updates)
    (delivered : t.delivered = s.delivered) : Metered t := by
  unfold Metered
  rw [updates, delivered]
  exact metered

theorem times_append (call : TrackCall) (calls calls' : List TrackCall) :
    times call (calls ++ calls') = times call calls + times call calls' := by
  simp [times]

theorem Metered.deliver (metered : Metered s) {event : BehaviourEvent}
    (updates : t.history.updates = s.history.updates ++ recorded (callsOf event))
    (delivered : t.delivered = s.delivered ++ event.notice.toList) : Metered t := by
  obtain ⟨calls, recordedCalls, noRequest, connected, disconnected⟩ := metered
  refine ⟨calls ++ callsOf event, ?_, ?_, ?_, ?_⟩
  · simp [updates, recordedCalls, recorded]
  · cases event <;> simp [callsOf, noRequest]
  · rw [times_append, delivered, List.countP_append, connected]
    cases event <;> simp [callsOf, times, BehaviourEvent.notice]
  · rw [times_append, delivered, List.countP_append, disconnected]
    cases event <;> simp [callsOf, times, BehaviourEvent.notice]

theorem Metered.step (metered : Metered s) (taken : s.step deps B input = some t) : Metered t := by
  cases turn_of_step taken with
  | command command id =>
      exact metered.of_same (onCommand_updates command id) (onCommand_silent command id).delivered
  | deliver env event later t first handled =>
      have popped : Metered { s with behaviour := { s.behaviour with events := later } } :=
        metered.of_same rfl rfl
      exact popped.deliver (onEvent_updates handled) (onEvent_delivered handled)
  | bitswap event => exact metered.of_same rfl rfl
  | requestResponse event => exact metered.of_same rfl rfl
  | autonat old new known => exact metered.of_same rfl rfl
  | autonatSilent address new known changes => exact metered.of_same rfl rfl
  | insert cid data => exact metered.of_same rfl rfl
  | swarm isSwarm opened used discovery pushed raised => exact metered.of_same rfl rfl

theorem metered_new (peerId : PeerId) (config : NetworkConfig) (store : Store)
    (indexProvider : Provider K) (blockstore : Cid → Option Ipld) :
    Metered (.new peerId config store indexProvider blockstore : UrsaService K) :=
  ⟨[], rfl, List.not_mem_nil, rfl, rfl⟩

theorem Metered.total_peers (metered : Metered s) :
    total .activeConnectedPeers s.history.updates =
      s.delivered.countP (·.2) - s.delivered.countP (!·.2) := by
  obtain ⟨calls, updates, noRequest, connected, disconnected⟩ := metered
  have never : times .rpcRequestReceived calls = 0 := by
    simp [times, List.count_eq_zero_of_not_mem noRequest]
  rw [updates, Metrics.total_peers, connected, disconnected, never, Int.add_zero]

/-- **In a loop on its own the total follows the notices.**  In every run of the loop the
updates of `active_connected_peers` add up to the connections passed on less the
disconnections. -/
theorem connected_peers_follow_notices (deps : Deps K) (B : Blocks) (peerId : PeerId)
    (config : NetworkConfig) (store : Store) (indexProvider : Provider K)
    (blockstore : Cid → Option Ipld) (inputs : List Input) (s : UrsaService K)
    (run : exec (UrsaService.step deps B) (.new peerId config store indexProvider blockstore)
      inputs = some s) :
    total .activeConnectedPeers s.history.updates =
      s.delivered.countP (·.2) - s.delivered.countP (!·.2) := by
  have metered : Metered s :=
    exec_invariant (fun _ _ _ metered _ taken => Metered.step metered taken)
      (metered_new peerId config store indexProvider blockstore)
      (meets_of_forall (fun _ _ _ => trivial) _) run
  exact metered.total_peers

end Loop

end Ursa.Metrics

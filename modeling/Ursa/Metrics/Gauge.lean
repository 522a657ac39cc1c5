/-
# Metrics.Gauge — what `active_connected_peers` shows

The service loop and the tasks of the RPC server write to one recorder.  A `Process` is the
loop with that recorder; a request of the RPC server is recorded in two calls, and anything
may come between them.

To the recorder a gauge and a counter are metrics apart, also under one name (`gauge`,
`counter`); `Metrics.Totals` adds up both.  Peers move the gauge `active_connected_peers`, and
a request increments the counter of that name.  `gauge_shows_the_peers` says what the two
stand at, at any time: the gauge at the number of peers in the set, corrected by the notices
that the loop has not passed on yet, whatever was requested meanwhile; the counter at the
number of requests.
-/
import Ursa.Metrics.Totals

namespace Ursa.Metrics

set_option autoImplicit false

open Ursa.Theory.Run
open Ursa.Network
open Ursa.Network.UrsaService
open Ursa.IndexProvider (Deps Provider plainDeps)

structure Process (K : Type) where
  service : UrsaService K
  recorder : List Update
  /-- History: how many requests have been recorded. -/
  requests : Nat

inductive ProcessInput where
  /-- A callback of the swarm, or an input of the loop. -/
  | peer (input : PeerInput)
  /-- The two calls of `track_metrics`. -/
  | received
  | responded (labels : List String) (latency : UInt64)

namespace Process

variable {K : Type}

def new (service : UrsaService K) : Process K :=
  { service, recorder := service.history.updates, requests := 0 }

def step (deps : Deps K) (B : Blocks) (p : Process K) : ProcessInput → Option (Process K)
  | .peer input =>
      -- the loop appends what it records to what was recorded meanwhile
      (p.service.peerStep deps B input).map fun service =>
        { p with
          service
          recorder := p.recorder ++ service.history.updates.drop p.service.history.updates.length }
  | .received =>
      some { p with
        recorder := p.recorder ++ recorded [.rpcRequestReceived], requests := p.requests + 1 }
  | .responded labels latency =>
      some { p with recorder := p.recorder ++ recorded [.rpcResponseSent labels latency] }

end Process

section Gauge

variable {K : Type} {deps : Deps K} {B : Blocks}

/-- The gauge of a name: its increments less its decrements. -/
def gauge (metric : Metric) (updates : List Update) : Int :=
  updates.count (.incrementGauge metric.toString) - updates.count (.decrementGauge metric.toString)

/-- The counter of a name. -/
def counter (metric : Metric) (updates : List Update) : Nat :=
  updates.count (.incrementCounter metric.toString)

theorem gauge_append (metric : Metric) (first second : List Update) :
    gauge metric (first ++ second) = gauge metric first + gauge metric second := by
  simp only [gauge, List.count_append]
  push_cast
  omega

theorem counter_append (metric : Metric) (first second : List Update) :
    counter metric (first ++ second) = counter metric first + counter metric second :=
  List.count_append

/-- An update that one kind of call makes, and no other, is recorded as often as that call. -/
theorem count_recorded {u : Update} {call : TrackCall} (own : ∀ c, c.track = some u ↔ c = call)
    (calls : List TrackCall) : (recorded calls).count u = calls.count call := by
  induction calls with
  | nil => rfl
  | cons c rest ih =>
      have rest' : (recorded (c :: rest)).count u =
          (recorded rest).count u + if c.track = some u then 1 else 0 := by
        cases tracked : c.track with
        | none => simp [recorded, tracked]
        | some v => simp [recorded, tracked, List.count_cons]
      rw [rest', ih, List.count_cons]
      simp only [own, beq_iff_eq]

/-! Under the name of the connected peers, peers move the gauge and requests the counter. -/

theorem track_eq_incrementGauge (c : TrackCall) :
    c.track = some (.incrementGauge Metric.activeConnectedPeers.toString) ↔ c = .peerConnected := by
  cases c <;> simp [TrackCall.track, Metrics.track, Metric.toString]

theorem track_eq_decrementGauge (c : TrackCall) :
    c.track = some (.decrementGauge Metric.activeConnectedPeers.toString) ↔
      c = .peerDisconnected := by
  cases c <;> simp [TrackCall.track, Metrics.track, Metric.toString]

theorem track_eq_incrementCounter (c : TrackCall) :
    c.track = some (.incrementCounter Metric.activeConnectedPeers.toString) ↔
      c = .rpcRequestReceived := by
  cases c <;> simp [TrackCall.track, Metrics.track, Metric.toString]

theorem gauge_peers (calls : List TrackCall) :
    gauge .activeConnectedPeers (recorded calls) =
      times .peerConnected calls - times .peerDisconnected calls := by
  rw [gauge, count_recorded track_eq_incrementGauge, count_recorded track_eq_decrementGauge]
  rfl

theorem counter_peers (calls : List TrackCall) :
    counter .activeConnectedPeers (recorded calls) = calls.count .rpcRequestReceived :=
  count_recorded track_eq_incrementCounter calls

/-! ## The loop -/

section Loop

variable {s t : UrsaService K}

/-- The loop only adds to what it has recorded. -/
theorem updates_step {input : Input} (taken : s.step deps B input = some t) :
    s.history.updates <+: t.history.updates := by
  cases turn_of_step taken with
  | command command id => rw [onCommand_updates]
  | deliver env event later t first handled =>
      rw [onEvent_updates handled]
      exact List.prefix_append _ _
  | bitswap event => exact List.prefix_rfl
  | requestResponse event => exact List.prefix_rfl
  | autonat old new known => exact List.prefix_rfl
  | autonatSilent address new known changes => exact List.prefix_rfl
  | insert cid data => exact List.prefix_rfl
  | swarm isSwarm opened used discovery pushed raised => exact List.prefix_rfl

/-- The callbacks record nothing, and pass nothing on. -/
theorem peerStep_cases {input : PeerInput} (taken : s.peerStep deps B input = some t) :
    (∃ own, input = .service own ∧ s.step deps B own = some t) ∨ t.history = s.history := by
  cases input with
  | service own => exact .inl ⟨own, rfl, taken⟩
  | established peer connection endpoint failed other =>
      simp only [UrsaService.peerStep] at taken
      split at taken
      · cases taken
        exact .inr rfl
      · cases taken
  | closed peer connection endpoint remaining =>
      simp only [UrsaService.peerStep] at taken
      split at taken
      · cases taken
        exact .inr rfl
      · cases taken

theorem updates_peerStep {input : PeerInput} (taken : s.peerStep deps B input = some t) :
    s.history.updates <+: t.history.updates := by
  rcases peerStep_cases taken with ⟨own, -, stepped⟩ | same
  · exact updates_step stepped
  · rw [same]

theorem Metered.peerStep {input : PeerInput} (metered : Metered s)
    (taken : s.peerStep deps B input = some t) : Metered t := by
  rcases peerStep_cases taken with ⟨own, -, stepped⟩ | same
  · exact metered.step stepped
  · exact metered.of_same (congrArg History.updates same) (by simp [delivered, same])

/-- The loop's own gauge, and a counter that it never touches. -/
theorem Metered.gauge_peers (metered : Metered s) :
    gauge .activeConnectedPeers s.history.updates =
        s.delivered.countP (·.2) - s.delivered.countP (!·.2) ∧
      counter .activeConnectedPeers s.history.updates = 0 := by
  obtain ⟨calls, updates, noRequest, connected, disconnected⟩ := metered
  rw [updates, Metrics.gauge_peers, counter_peers, connected, disconnected]
  exact ⟨rfl, List.count_eq_zero_of_not_mem noRequest⟩

end Loop

/-! ## The process -/

namespace Process

variable {p q : Process K}

/-- The loop's notices can be trusted, it records what it passes on, and the recorder has this
and the requests. -/
structure Consistent (p : Process K) : Prop where
  told : p.service.Told
  metered : Metered p.service
  shown : gauge .activeConnectedPeers p.recorder =
    gauge .activeConnectedPeers p.service.history.updates
  counted : counter .activeConnectedPeers p.recorder =
    counter .activeConnectedPeers p.service.history.updates + p.requests

theorem Consistent.step {input : ProcessInput} (consistent : p.Consistent)
    (taken : p.step deps B input = some q) : q.Consistent := by
  cases input with
  | peer input =>
      obtain ⟨service, stepped, rfl⟩ := Option.map_eq_some_iff.mp taken
      obtain ⟨added, updates⟩ := updates_peerStep stepped
      refine ⟨consistent.told.peerStep stepped, consistent.metered.peerStep stepped, ?_, ?_⟩
      · rw [← updates, List.drop_left, gauge_append, gauge_append, consistent.shown]
      · rw [← updates, List.drop_left, counter_append, counter_append, consistent.counted]
        exact Nat.add_right_comm _ _ _
  | received =>
      cases taken
      refine ⟨consistent.told, consistent.metered, ?_, ?_⟩
      · have still : gauge .activeConnectedPeers (recorded [.rpcRequestReceived]) = 0 := by decide
        rw [gauge_append, still, Int.add_zero, consistent.shown]
      · have one : counter .activeConnectedPeers (recorded [.rpcRequestReceived]) = 1 := by decide
        rw [counter_append, one, consistent.counted]
        exact Nat.add_assoc _ _ _
  | responded labels latency =>
      cases taken
      refine ⟨consistent.told, consistent.metered, ?_, ?_⟩
      · have still : gauge .activeConnectedPeers (recorded [.rpcResponseSent labels latency]) = 0 :=
          rfl
        rw [gauge_append, still, Int.add_zero, consistent.shown]
      · have still : counter .activeConnectedPeers (recorded [.rpcResponseSent labels latency]) = 0 :=
          rfl
        rw [counter_append, still, Nat.add_zero, consistent.counted]

/-- **What `active_connected_peers` shows.**  In every run of the loop, with callbacks and
requests of the RPC server at any point, the gauge stands at the number of peers in the set,
less the connections and plus the disconnections that wait in the two queues; the counter of
the same name stands at the number of requests. -/
theorem gauge_shows_the_peers (deps : Deps K) (B : Blocks) (peerId : PeerId)
    (config : NetworkConfig) (store : Store) (indexProvider : Provider K)
    (blockstore : Cid → Option Ipld) (inputs : List ProcessInput) (p : Process K)
    (run : exec (Process.step deps B) (.new (.new peerId config store indexProvider blockstore))
      inputs = some p) :
    let waiting := p.service.queued ++ p.service.raised
    gauge .activeConnectedPeers p.recorder =
        p.service.behaviour.discovery.peers.card - waiting.countP (·.2) + waiting.countP (!·.2) ∧
      counter .activeConnectedPeers p.recorder = p.requests := by
  have start : (Process.new (.new peerId config store indexProvider blockstore) :
      Process K).Consistent :=
    { told := told_new peerId config store indexProvider blockstore
      metered := metered_new peerId config store indexProvider blockstore
      shown := rfl
      counted := rfl }
  have consistent : p.Consistent :=
    exec_invariant (fun _ _ _ consistent _ taken => Consistent.step consistent taken) start
      (meets_of_forall (fun _ _ _ => trivial) _) run
  have members := consistent.told.card
  obtain ⟨shown, untouched⟩ := consistent.metered.gauge_peers
  intro waiting
  constructor
  · rw [consistent.shown, shown]
    simp only [notices, waiting, List.countP_append] at members ⊢
    push_cast at members ⊢
    omega
  · rw [consistent.counted, untouched, Nat.zero_add]

/-- One of two connections of a peer is announced, the other peer's waits, and a request is
recorded between two turns. -/
def requestBetween : List ProcessInput :=
  [.peer (.established ⟨"12D3KooWA"⟩ 1 (.dialer []) none 0), .peer (.service .pollDiscovery),
    .received, .peer (.service (.deliver quietEnv)), .responded ["GET", "/:cid"] 0,
    .peer (.established ⟨"12D3KooWB"⟩ 2 (.dialer []) none 0)]

theorem gauge_shows_the_peers_sample :
    ∃ p, exec (Process.step plainDeps plainBlocks) (.new (sampleService .empty)) requestBetween =
        some p ∧
      p.service.behaviour.discovery.peers.card = 2 ∧
      p.service.queued ++ p.service.raised = [(⟨"12D3KooWB"⟩, true)] ∧
      gauge .activeConnectedPeers p.recorder = 1 ∧
      counter .activeConnectedPeers p.recorder = 1 := by
  have evaluated : (exec (Process.step plainDeps plainBlocks) (.new (sampleService .empty))
      requestBetween).map (fun p => (p.service.behaviour.discovery.peers.card,
        p.service.queued ++ p.service.raised, p.requests)) =
      some (2, [(⟨"12D3KooWB"⟩, true)], 1) := by decide +kernel
  obtain ⟨p, run, counts⟩ := Option.map_eq_some_iff.mp evaluated
  simp only [Prod.mk.injEq] at counts
  obtain ⟨peers, waiting, requests⟩ := counts
  obtain ⟨shown, counted⟩ :=
    gauge_shows_the_peers plainDeps plainBlocks _ _ _ _ _ requestBetween p run
  simp only [waiting, peers] at shown
  exact ⟨p, run, peers, waiting, shown.trans (by decide), counted.trans requests⟩

end Process

end Gauge

end Ursa.Metrics

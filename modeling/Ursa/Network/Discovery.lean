/-
# Network.Discovery — the set of connected peers

`ursa-network/src/discovery.rs`.  `DiscoveryBehaviour` keeps a set of peers and is
told by the swarm of every connection that opens and closes.  Both callbacks look
only at whether the peer id was new to the set or still in it; the counts the swarm
passes (`other_established`, `remaining_established`) are handed on to Kademlia and
not read.

`Swarm` is the environment: it opens connections under ids it never uses twice,
closes each at most once, and reports the true counts.  A peer may have several
connections at once.

So a connection that closes removes its peer even while another one is open:
`peers_are_the_connected_iff` says exactly in which runs the set is right.
-/
import Ursa.Theory.Run
import Ursa.Types
import Mathlib.Data.Finset.Basic
import Mathlib.Data.List.Nodup

namespace Ursa.Network

set_option autoImplicit false

open Ursa.Theory.Run

abbrev ConnectionId := Nat

/-- The two ends of a connection. -/
inductive ConnectedPoint where
  | dialer (address : Multiaddr)
  | listener (localAddr sendBackAddr : Multiaddr)
  deriving DecidableEq, Repr

inductive DiscoveryEvent where
  | connected (peer : PeerId)
  | disconnected (peer : PeerId)
  deriving DecidableEq, Repr

/-- A callback forwarded to Kademlia. -/
inductive KademliaCall where
  | connectionEstablished (peer : PeerId) (connection : ConnectionId) (endpoint : ConnectedPoint)
      (failedAddresses : Option (List Multiaddr)) (otherEstablished : Nat)
  | connectionClosed (peer : PeerId) (connection : ConnectionId) (endpoint : ConnectedPoint)
      (remainingEstablished : Nat)
  deriving DecidableEq, Repr

structure DiscoveryBehaviour where
  bootstrapNodes : List (PeerId × Multiaddr)
  /-- Connected peers. -/
  peers : Finset PeerId
  events : List DiscoveryEvent
  /-- History: what Kademlia has been told. -/
  kademlia : List KademliaCall

namespace DiscoveryBehaviour

/-- A bootstrap address whose last component names the peer. -/
def bootstrapNode (multiaddr : Multiaddr) : Option (PeerId × Multiaddr) :=
  match multiaddr.getLast? with
  | some (.p2p peer) => some (peer, multiaddr.dropLast)
  | _ => none

/-- `DiscoveryBehaviour::new`: addresses that cannot be parsed are left out. -/
def new (bootstrapNodes : List Multiaddr) : DiscoveryBehaviour :=
  { bootstrapNodes := bootstrapNodes.filterMap bootstrapNode
    peers := ∅, events := [], kademlia := [] }

def bootstrapAddrs (d : DiscoveryBehaviour) : List (PeerId × Multiaddr) := d.bootstrapNodes

def injectConnectionEstablished (d : DiscoveryBehaviour) (peer : PeerId)
    (connection : ConnectionId) (endpoint : ConnectedPoint)
    (failedAddresses : Option (List Multiaddr)) (otherEstablished : Nat) : DiscoveryBehaviour :=
  -- `HashSet::insert` is true when the peer was not in the set
  if peer ∉ d.peers then
    { d with
      peers := insert peer d.peers
      kademlia := d.kademlia ++
        [.connectionEstablished peer connection endpoint failedAddresses otherEstablished]
      events := d.events ++ [.connected peer] }
  else d

def injectConnectionClosed (d : DiscoveryBehaviour) (peer : PeerId) (connection : ConnectionId)
    (endpoint : ConnectedPoint) (remainingEstablished : Nat) : DiscoveryBehaviour :=
  -- `HashSet::remove` is true when the peer was in the set
  if peer ∈ d.peers then
    { d with
      peers := d.peers.erase peer
      kademlia := d.kademlia ++ [.connectionClosed peer connection endpoint remainingEstablished]
      events := d.events ++ [.disconnected peer] }
  else d

/-- `poll`, as far as the behaviour's own events go. -/
def poll (d : DiscoveryBehaviour) : Option DiscoveryEvent × DiscoveryBehaviour :=
  match d.events with
  | [] => (none, d)
  | e :: rest => (some e, { d with events := rest })

@[simp] theorem mem_peers_established (d : DiscoveryBehaviour) (peer : PeerId)
    (connection : ConnectionId) (endpoint : ConnectedPoint) (failed : Option (List Multiaddr))
    (other : Nat) (q : PeerId) :
    q ∈ (d.injectConnectionEstablished peer connection endpoint failed other).peers ↔
      q = peer ∨ q ∈ d.peers := by
  unfold injectConnectionEstablished
  split
  · simp
  · rename_i known
    have : peer ∈ d.peers := not_not.mp known
    refine ⟨Or.inr, ?_⟩
    rintro (rfl | member)
    · exact this
    · exact member

@[simp] theorem mem_peers_closed (d : DiscoveryBehaviour) (peer : PeerId)
    (connection : ConnectionId) (endpoint : ConnectedPoint) (remaining : Nat) (q : PeerId) :
    q ∈ (d.injectConnectionClosed peer connection endpoint remaining).peers ↔
      q ≠ peer ∧ q ∈ d.peers := by
  unfold injectConnectionClosed
  split
  · simp
  · rename_i absent
    refine ⟨fun member => ⟨?_, member⟩, And.right⟩
    rintro rfl
    exact absent member

end DiscoveryBehaviour

/-! ## The swarm -/

structure Connection where
  id : ConnectionId
  peer : PeerId
  endpoint : ConnectedPoint
  deriving DecidableEq, Repr

structure Swarm where
  /-- The open connections. -/
  opened : List Connection
  /-- Every connection id handed out so far. -/
  used : List ConnectionId
  discovery : DiscoveryBehaviour

def Swarm.new (bootstrapNodes : List Multiaddr) : Swarm :=
  { opened := [], used := [], discovery := .new bootstrapNodes }

/-- How many connections to `peer` are open. -/
def Swarm.established (s : Swarm) (peer : PeerId) : Nat :=
  s.opened.countP fun c => c.peer = peer

inductive ConnectionEvent where
  | established (connection : Connection) (failedAddresses : Option (List Multiaddr))
  | closed (id : ConnectionId)

def Swarm.step (s : Swarm) : ConnectionEvent → Option Swarm
  | .established c failed =>
      if c.id ∈ s.used then none
      else some
        { opened := c :: s.opened
          used := c.id :: s.used
          discovery := s.discovery.injectConnectionEstablished c.peer c.id c.endpoint failed
            (s.established c.peer) }
  | .closed id =>
      match s.opened.find? (fun c => c.id = id) with
      | none => none
      | some c =>
          let after := { s with opened := s.opened.filter fun c => c.id ≠ id }
          some { after with
            discovery := s.discovery.injectConnectionClosed c.peer c.id c.endpoint
              (after.established c.peer) }

/-- A peer is in the set exactly when it has an open connection. -/
def Swarm.PeersExact (s : Swarm) : Prop :=
  ∀ peer, peer ∈ s.discovery.peers ↔ ∃ c ∈ s.opened, c.peer = peer

/-- Connection ids are distinct, and all of them have been handed out. -/
structure Swarm.Fresh (s : Swarm) : Prop where
  nodup : (s.opened.map Connection.id).Nodup
  used : ∀ c ∈ s.opened, c.id ∈ s.used

/-- No connection closes while its peer has another one open: `remaining_established`
is zero in every closing callback. -/
def Swarm.ClosesLast (s : Swarm) : ConnectionEvent → Prop
  | .established _ _ => True
  | .closed id =>
      ∀ c ∈ s.opened, c.id = id →
        { s with opened := s.opened.filter fun c => c.id ≠ id }.established c.peer = 0

namespace Swarm

variable {s t : Swarm}

theorem Fresh.step {e : ConnectionEvent} (fresh : s.Fresh) (taken : s.step e = some t) :
    t.Fresh := by
  cases e with
  | established c failed =>
      simp only [Swarm.step] at taken
      split at taken
      · cases taken
      · rename_i unused
        cases taken
        refine ⟨?_, ?_⟩
        · rw [List.map_cons, List.nodup_cons]
          refine ⟨?_, fresh.nodup⟩
          intro member
          obtain ⟨c', open', same⟩ := List.mem_map.mp member
          exact unused (same ▸ fresh.used c' open')
        · intro c' member
          rcases List.mem_cons.mp member with rfl | member
          · exact List.mem_cons_self
          · exact List.mem_cons_of_mem _ (fresh.used c' member)
  | closed id =>
      simp only [Swarm.step] at taken
      split at taken
      · cases taken
      · cases taken
        have fewer : (s.opened.filter fun c => c.id ≠ id).Sublist s.opened := List.filter_sublist
        exact ⟨fresh.nodup.sublist (fewer.map _), fun c member => fresh.used c (fewer.subset member)⟩

/-- Ids are distinct, so the connection found under an id is the one that has it. -/
theorem Fresh.eq_of_id_eq {c c' : Connection} (fresh : s.Fresh) (member : c ∈ s.opened)
    (member' : c' ∈ s.opened) (same : c.id = c'.id) : c = c' :=
  List.inj_on_of_nodup_map fresh.nodup member member' same

theorem Fresh.find_eq {c : Connection} (fresh : s.Fresh) (member : c ∈ s.opened) :
    s.opened.find? (fun x => x.id = c.id) = some c := by
  cases lookup : s.opened.find? (fun x => x.id = c.id) with
  | none =>
      have := List.find?_eq_none.mp lookup c member
      simp at this
  | some x =>
      have own : x.id = c.id := by simpa using List.find?_some lookup
      rw [fresh.eq_of_id_eq (List.mem_of_find?_eq_some lookup) member own]

theorem established_eq_zero_iff (peer : PeerId) :
    s.established peer = 0 ↔ ∀ c ∈ s.opened, c.peer ≠ peer := by
  simp [Swarm.established, List.countP_eq_zero]

/-- From a state with the right peers, a step leads to one with the right peers
exactly if it does not close one of several connections of a peer. -/
theorem closesLast_iff (fresh : s.Fresh) (good : s.PeersExact) (e : ConnectionEvent) :
    s.ClosesLast e ↔ ∀ t, s.step e = some t → t.PeersExact := by
  cases e with
  | established c failed =>
      refine ⟨?_, fun _ => trivial⟩
      intro _ t taken
      simp only [Swarm.step] at taken
      split at taken
      · cases taken
      · cases taken
        intro peer
        simp only [DiscoveryBehaviour.mem_peers_established, good peer, List.mem_cons,
          exists_eq_or_imp]
        exact or_congr_left eq_comm
  | closed id =>
      constructor
      · intro last t taken
        simp only [Swarm.step] at taken
        split at taken
        · cases taken
        · rename_i c found
          cases taken
          have open' := List.mem_of_find?_eq_some found
          have own : c.id = id := by simpa using List.find?_some found
          have none := (established_eq_zero_iff _).mp (last c open' own)
          intro peer
          simp only [DiscoveryBehaviour.mem_peers_closed, good peer]
          constructor
          · rintro ⟨different, c', member, rfl⟩
            refine ⟨c', List.mem_filter.mpr ⟨member, ?_⟩, rfl⟩
            have : c' ≠ c := fun same => different (by rw [same])
            simpa using fun same => this (fresh.eq_of_id_eq member open' (same.trans own.symm))
          · rintro ⟨c', member, rfl⟩
            exact ⟨none c' member, c', List.mem_of_mem_filter member, rfl⟩
      · intro exact c open' own
        rw [established_eq_zero_iff]
        intro c' member same
        -- The peer of the closed connection leaves the set although `c'` is open.
        subst own
        simp only [Swarm.step, fresh.find_eq open'] at exact
        have after := exact _ rfl
        have inSet := (after c.peer).mpr ⟨c', member, same⟩
        simp at inSet

/-- **When the peer set is the set of connected peers.**  Over any sequence of
connections a swarm can open and close, the set is right in every state if and only
if no connection closes while its peer has another one open. -/
theorem peers_are_the_connected_iff (bootstrapNodes : List Multiaddr)
    (events : List ConnectionEvent) :
    Always Swarm.step Swarm.PeersExact (Swarm.new bootstrapNodes) events ↔
      Meets Swarm.step Swarm.ClosesLast (Swarm.new bootstrapNodes) events :=
  always_iff_meets (I := Swarm.Fresh) (fun _ _ _ fresh _ taken => fresh.step taken)
    (fun _ e fresh good _ => closesLast_iff fresh good e)
    ⟨List.nodup_nil, by simp [Swarm.new]⟩
    (by simp [Swarm.PeersExact, Swarm.new, DiscoveryBehaviour.new])
    (meets_of_forall (fun _ _ _ => trivial) _)

/-- A peer opens two connections and closes the first. -/
def overlapping : List ConnectionEvent :=
  [.established ⟨1, ⟨"12D3KooW"⟩, .dialer []⟩ none,
    .established ⟨2, ⟨"12D3KooW"⟩, .dialer []⟩ none, .closed 1]

/-- After it the peer is still connected and no longer in the set. -/
theorem closing_one_of_two_drops_the_peer :
    ∃ s, exec Swarm.step (Swarm.new []) overlapping = some s ∧
      s.opened.map Connection.peer = [⟨"12D3KooW"⟩] ∧ s.discovery.peers = ∅ ∧ ¬ s.PeersExact := by
  refine ⟨_, rfl, by decide, by decide, ?_⟩
  intro exact
  have inSet := (exact ⟨"12D3KooW"⟩).mpr ⟨⟨2, ⟨"12D3KooW"⟩, .dialer []⟩, by decide, rfl⟩
  revert inSet
  decide

end Swarm

end Ursa.Network

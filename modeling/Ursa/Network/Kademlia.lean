/-
# Network.Kademlia — which connections Kademlia is told of

The swarm tells `DiscoveryBehaviour` of every connection; `DiscoveryBehaviour` passes a
callback on to Kademlia only if the peer was new to its set, or still in it.  `Watched` is a
swarm together with the callbacks it has made.

Kademlia lags behind for good once a callback is held back: what it is told is a part of what
the swarm says (`Sound`), and the two lists agree only as long as every callback is passed on.
A second connection of a peer is held back when it opens; with one connection for each peer
nothing is.  So Kademlia sees matched events exactly in the runs where no peer opens a
connection while it has one (`kademlia_is_matched_iff`).
-/
import Ursa.Network.Discovery

namespace Ursa.Network

set_option autoImplicit false

open Ursa.Theory.Run

/-! ## Callbacks -/

/-- The connection that is said to open. -/
def KademliaCall.opening : KademliaCall → Option ConnectionId
  | .connectionEstablished _ connection _ _ _ => some connection
  | .connectionClosed _ _ _ _ => none

/-- The connection that is said to close. -/
def KademliaCall.closing : KademliaCall → Option ConnectionId
  | .connectionEstablished _ _ _ _ _ => none
  | .connectionClosed _ connection _ _ => some connection

namespace DiscoveryBehaviour

theorem kademlia_established (d : DiscoveryBehaviour) (peer : PeerId) (connection : ConnectionId)
    (endpoint : ConnectedPoint) (failed : Option (List Multiaddr)) (other : Nat) :
    (d.injectConnectionEstablished peer connection endpoint failed other).kademlia =
      if peer ∉ d.peers then
        d.kademlia ++ [.connectionEstablished peer connection endpoint failed other]
      else d.kademlia := by
  unfold injectConnectionEstablished
  split <;> rfl

theorem kademlia_closed (d : DiscoveryBehaviour) (peer : PeerId) (connection : ConnectionId)
    (endpoint : ConnectedPoint) (remaining : Nat) :
    (d.injectConnectionClosed peer connection endpoint remaining).kademlia =
      if peer ∈ d.peers then
        d.kademlia ++ [.connectionClosed peer connection endpoint remaining]
      else d.kademlia := by
  unfold injectConnectionClosed
  split <;> rfl

end DiscoveryBehaviour

/-- A swarm and what it has said. -/
structure Watched where
  swarm : Swarm
  /-- History: the callbacks of the swarm. -/
  calls : List KademliaCall

/-- The callback of a connection event, with the true count. -/
def Swarm.callback (s : Swarm) : ConnectionEvent → Option KademliaCall
  | .established c failed =>
      some (.connectionEstablished c.peer c.id c.endpoint failed (s.established c.peer))
  | .closed id =>
      (s.opened.find? fun c => c.id = id).map fun c =>
        .connectionClosed c.peer c.id c.endpoint
          ({ s with opened := s.opened.filter fun c => c.id ≠ id }.established c.peer)

namespace Watched

def new (bootstrapNodes : List Multiaddr) : Watched := { swarm := .new bootstrapNodes, calls := [] }

def step (w : Watched) (e : ConnectionEvent) : Option Watched :=
  (w.swarm.step e).map fun swarm => { swarm, calls := w.calls ++ (w.swarm.callback e).toList }

/-- What Kademlia has been told. -/
def told (w : Watched) : List KademliaCall := w.swarm.discovery.kademlia

/-- What is asked of the calls to Kademlia: they are those of the swarm; so each connection
opens once, closes once when it does, and closes only after it opened. -/
structure Matched (w : Watched) : Prop where
  same : w.told = w.calls
  opens : ∀ id ∈ w.swarm.used, (w.told.filterMap KademliaCall.opening).count id = 1
  closes : ∀ id ∈ w.swarm.used, id ∉ w.swarm.opened.map Connection.id →
    (w.told.filterMap KademliaCall.closing).count id = 1
  paired : ∀ id ∈ w.told.filterMap KademliaCall.closing, id ∈ w.told.filterMap KademliaCall.opening

/-- A connection opens only to a peer that has none. -/
def OpensFirst (w : Watched) : ConnectionEvent → Prop
  | .established c _ => c.id ∉ w.swarm.used → w.swarm.established c.peer = 0
  | .closed _ => True

variable {w t : Watched}

/-! ## What the swarm says -/

/-- The swarm's callbacks, against its connections. -/
structure Logged (w : Watched) : Prop where
  used : w.calls.filterMap KademliaCall.opening = w.swarm.used.reverse
  nodup : w.swarm.used.Nodup
  once : (w.calls.filterMap KademliaCall.closing).Nodup
  closed : ∀ id, id ∈ w.calls.filterMap KademliaCall.closing ↔
    id ∈ w.swarm.used ∧ id ∉ w.swarm.opened.map Connection.id

/-- **What a step does**: a fresh connection opens, or an open one closes. -/
theorem step_cases {e : ConnectionEvent} (taken : w.step e = some t) :
    (∃ c failed, e = .established c failed ∧ c.id ∉ w.swarm.used ∧
      t.swarm.opened = c :: w.swarm.opened ∧ t.swarm.used = c.id :: w.swarm.used ∧
      t.swarm.discovery = w.swarm.discovery.injectConnectionEstablished c.peer c.id c.endpoint failed
        (w.swarm.established c.peer) ∧
      t.calls = w.calls ++ [.connectionEstablished c.peer c.id c.endpoint failed
        (w.swarm.established c.peer)]) ∨
    ∃ c remaining, e = .closed c.id ∧ c ∈ w.swarm.opened ∧
      t.swarm.opened = w.swarm.opened.filter (fun x => x.id ≠ c.id) ∧ t.swarm.used = w.swarm.used ∧
      t.swarm.discovery = w.swarm.discovery.injectConnectionClosed c.peer c.id c.endpoint remaining ∧
      t.calls = w.calls ++ [.connectionClosed c.peer c.id c.endpoint remaining] := by
  obtain ⟨swarm, stepped, rfl⟩ := Option.map_eq_some_iff.mp taken
  cases e with
  | established c failed =>
      simp only [Swarm.step] at stepped
      split at stepped
      · cases stepped
      · rename_i unused
        cases stepped
        exact .inl ⟨c, failed, rfl, unused, rfl, rfl, rfl, rfl⟩
  | closed id =>
      simp only [Swarm.step] at stepped
      split at stepped
      · cases stepped
      · rename_i c found
        cases stepped
        obtain rfl : c.id = id := by simpa using List.find?_some found
        refine .inr ⟨c, _, rfl, List.mem_of_find?_eq_some found, rfl, rfl, rfl, ?_⟩
        simp only [Swarm.callback, found]
        rfl

theorem Logged.step {e : ConnectionEvent} (logged : w.Logged) (fresh : w.swarm.Fresh)
    (taken : w.step e = some t) : t.Logged := by
  rcases step_cases taken with ⟨c, failed, rfl, unused, opened, used, -, calls⟩ |
    ⟨c, remaining, rfl, isOpen, opened, used, -, calls⟩
  · have same : t.calls.filterMap KademliaCall.closing = w.calls.filterMap KademliaCall.closing := by
      simp [calls, KademliaCall.closing]
    refine ⟨?_, ?_, same ▸ logged.once, ?_⟩
    · rw [calls, used, List.filterMap_append, logged.used, List.reverse_cons]
      rfl
    · rw [used]
      exact List.nodup_cons.mpr ⟨unused, logged.nodup⟩
    · intro id
      rw [same, logged.closed, used, opened, List.map_cons, List.mem_cons, List.mem_cons, not_or]
      constructor
      · rintro ⟨old, gone⟩
        refine ⟨.inr old, ?_, gone⟩
        rintro rfl
        exact unused old
      · rintro ⟨rfl | old, other, gone⟩
        · exact absurd rfl other
        · exact ⟨old, gone⟩
  · have closings : t.calls.filterMap KademliaCall.closing =
        w.calls.filterMap KademliaCall.closing ++ [c.id] := by
      simp [calls, KademliaCall.closing]
    have listed : c.id ∈ w.swarm.opened.map Connection.id := List.mem_map_of_mem isOpen
    have notYet : c.id ∉ w.calls.filterMap KademliaCall.closing := fun member =>
      ((logged.closed c.id).mp member).2 listed
    refine ⟨?_, used ▸ logged.nodup, ?_, ?_⟩
    · rw [calls, used, List.filterMap_append, logged.used]
      simp [KademliaCall.opening]
    · rw [closings]
      refine List.nodup_append'.mpr ⟨logged.once, List.nodup_singleton _, ?_⟩
      simpa using notYet
    · intro id
      have left : id ∈ t.swarm.opened.map Connection.id ↔
          id ∈ w.swarm.opened.map Connection.id ∧ id ≠ c.id := by
        rw [opened, List.mem_map, List.mem_map]
        constructor
        · rintro ⟨x, member, rfl⟩
          obtain ⟨old, other⟩ := List.mem_filter.mp member
          exact ⟨⟨x, old, rfl⟩, by simpa using other⟩
        · rintro ⟨⟨x, old, rfl⟩, other⟩
          exact ⟨x, List.mem_filter.mpr ⟨old, by simpa using other⟩, rfl⟩
      rw [closings, List.mem_append, List.mem_singleton, logged.closed, left, used, not_and_or, not_not]
      constructor
      · rintro (⟨old, gone⟩ | rfl)
        · exact ⟨old, .inl gone⟩
        · exact ⟨fresh.used c isOpen, .inr rfl⟩
      · rintro ⟨old, gone | rfl⟩
        · exact .inl ⟨old, gone⟩
        · exact .inr rfl

/-- Where Kademlia is told what the swarm says, its events are matched. -/
theorem Logged.matched (logged : w.Logged) (same : w.told = w.calls) : w.Matched where
  same := same
  opens id member := by
    rw [same, logged.used, List.count_reverse]
    exact List.count_eq_one_of_mem logged.nodup member
  closes id member gone := by
    rw [same]
    exact List.count_eq_one_of_mem logged.once ((logged.closed id).mpr ⟨member, gone⟩)
  paired id member := by
    rw [same] at member ⊢
    rw [logged.used, List.mem_reverse]
    exact ((logged.closed id).mp member).1

/-! ## What Kademlia is told -/

/-- No peer has two connections. -/
def OneEach (s : Swarm) : Prop := (s.opened.map Connection.peer).Nodup

/-- What holds however connections overlap. -/
structure Sound (w : Watched) : Prop where
  fresh : w.swarm.Fresh
  logged : w.Logged
  part : w.told.Sublist w.calls
  right : w.told = w.calls → w.swarm.PeersExact ∧ OneEach w.swarm

/-- One more callback, passed on or not. -/
theorem told_step {e : ConnectionEvent} (taken : w.step e = some t) :
    ∃ call, t.calls = w.calls ++ [call] ∧ (t.told = w.told ++ [call] ∨ t.told = w.told) := by
  rcases step_cases taken with ⟨c, failed, rfl, -, -, -, discovery, calls⟩ |
    ⟨c, remaining, rfl, -, -, -, discovery, calls⟩
  · refine ⟨_, calls, ?_⟩
    rw [told, discovery, DiscoveryBehaviour.kademlia_established]
    split
    · exact .inl rfl
    · exact .inr rfl
  · refine ⟨_, calls, ?_⟩
    rw [told, discovery, DiscoveryBehaviour.kademlia_closed]
    split
    · exact .inl rfl
    · exact .inr rfl

/-- What was held back is never made up for. -/
theorem told_of_step {e : ConnectionEvent} (part : w.told.Sublist w.calls)
    (taken : w.step e = some t) (same : t.told = t.calls) :
    w.told = w.calls ∧ t.told ≠ w.told := by
  obtain ⟨call, calls, told⟩ := told_step taken
  have shorter := part.length_le
  rcases told with passed | held
  · rw [passed, calls] at same
    refine ⟨List.append_cancel_right same, ?_⟩
    simp [passed]
  · exfalso
    have lengths := congrArg List.length same
    rw [held, calls, List.length_append, List.length_singleton] at lengths
    omega

theorem peer_not_mem_iff (s : Swarm) (peer : PeerId) :
    peer ∉ s.opened.map Connection.peer ↔ s.established peer = 0 := by
  rw [Swarm.established_eq_zero_iff, List.mem_map]
  simp only [not_exists, not_and, ne_eq]

/-- With one connection for each peer, the one that closes is the last. -/
theorem closesLast_of_oneEach {s : Swarm} (one : OneEach s) (e : ConnectionEvent) : s.ClosesLast e := by
  cases e with
  | established c failed => trivial
  | closed id =>
      rintro c isOpen rfl
      rw [Swarm.established_eq_zero_iff]
      intro other stays same
      obtain ⟨isOpen', differ⟩ := List.mem_filter.mp stays
      obtain rfl := List.inj_on_of_nodup_map one isOpen' isOpen same
      simp at differ

theorem Sound.step {e : ConnectionEvent} (sound : w.Sound) (taken : w.step e = some t) : t.Sound := by
  have stepped : w.swarm.step e = some t.swarm := by
    obtain ⟨swarm, stepped, rfl⟩ := Option.map_eq_some_iff.mp taken
    exact stepped
  refine ⟨sound.fresh.step stepped, sound.logged.step sound.fresh taken, ?_, ?_⟩
  · obtain ⟨call, calls, passed | held⟩ := told_step taken
    · rw [passed, calls]
      exact sound.part.append (List.Sublist.refl _)
    · rw [held, calls]
      exact sound.part.trans (List.sublist_append_left _ _)
  · intro same
    obtain ⟨before, passed⟩ := told_of_step sound.part taken same
    obtain ⟨exact', one⟩ := sound.right before
    refine ⟨?_, ?_⟩
    · exact (Swarm.closesLast_iff sound.fresh exact' e).mp (closesLast_of_oneEach one e) _ stepped
    · rcases step_cases taken with ⟨c, failed, rfl, -, opened, -, discovery, -⟩ |
        ⟨c, remaining, rfl, -, opened, -, -, -⟩
      · -- a second connection would have been held back
        rw [told, discovery, DiscoveryBehaviour.kademlia_established] at passed
        split at passed
        · rename_i absent
          rw [OneEach, opened, List.map_cons, List.nodup_cons]
          refine ⟨fun member => absent ((exact' c.peer).mpr ?_), one⟩
          exact List.mem_map.mp member
        · exact absurd rfl passed
      · rw [OneEach, opened]
        exact one.sublist (List.filter_sublist.map _)

/-- From a state where nothing has been held back, a step holds nothing back exactly if it
opens no second connection of a peer. -/
theorem opensFirst_iff (sound : w.Sound) (matched : w.Matched) (e : ConnectionEvent) :
    w.OpensFirst e ↔ ∀ t, w.step e = some t → t.Matched := by
  obtain ⟨exact', one⟩ := sound.right matched.same
  constructor
  · intro first t taken
    refine (sound.step taken).logged.matched ?_
    rcases step_cases taken with ⟨c, failed, rfl, unused, -, -, discovery, calls⟩ |
      ⟨c, remaining, rfl, isOpen, -, -, discovery, calls⟩
    · have absent : c.peer ∉ w.swarm.discovery.peers := by
        rw [exact' c.peer]
        rintro ⟨c', isOpen, same⟩
        exact (Swarm.established_eq_zero_iff c.peer).mp (first unused) c' isOpen same
      rw [told, discovery, DiscoveryBehaviour.kademlia_established, if_pos absent, calls,
        ← matched.same]
      rfl
    · have present : c.peer ∈ w.swarm.discovery.peers := (exact' c.peer).mpr ⟨c, isOpen, rfl⟩
      rw [told, discovery, DiscoveryBehaviour.kademlia_closed, if_pos present, calls, ← matched.same]
      rfl
  · intro good
    cases e with
    | closed id => trivial
    | established c failed =>
        intro unused
        have taken : ∃ t, w.step (.established c failed) = some t := by
          simp [step, Swarm.step, unused]
        obtain ⟨t, taken⟩ := taken
        have one' := ((sound.step taken).right (good t taken).same).2
        rw [OneEach] at one'
        rcases step_cases taken with ⟨_, _, same, -, opened, -⟩ | ⟨_, _, impossible, -⟩
        · cases same
          rw [opened, List.map_cons, List.nodup_cons, peer_not_mem_iff] at one'
          exact one'.1
        · cases impossible

/-- **When Kademlia sees matched connection events.**  Over any sequence of connections a
swarm can open and close, the calls to Kademlia are the swarm's in every state if and only if
no peer opens a connection while it has another one. -/
theorem kademlia_is_matched_iff (bootstrapNodes : List Multiaddr) (events : List ConnectionEvent) :
    Always step Matched (new bootstrapNodes) events ↔
      Meets step OpensFirst (new bootstrapNodes) events := by
  have logged : (new bootstrapNodes).Logged := ⟨rfl, List.nodup_nil, List.nodup_nil, by simp [new, Swarm.new]⟩
  have start : (new bootstrapNodes).Sound := by
    refine ⟨⟨List.nodup_nil, by simp [new, Swarm.new]⟩, logged, List.Sublist.refl _, fun _ => ?_⟩
    refine ⟨?_, List.nodup_nil⟩
    simp [Swarm.PeersExact, new, Swarm.new, DiscoveryBehaviour.new]
  exact always_iff_meets (fun _ _ _ sound _ taken => sound.step taken)
    (fun _ e sound matched _ => opensFirst_iff sound matched e) start (logged.matched rfl)
    (meets_of_forall (fun _ _ _ => trivial) _)

/-- A peer opens two connections and closes the second. -/
def secondCloses : List ConnectionEvent :=
  [.established ⟨1, ⟨"12D3KooW"⟩, .dialer []⟩ none,
    .established ⟨2, ⟨"12D3KooW"⟩, .dialer []⟩ none, .closed 2]

/-- Kademlia is told that a connection closes which, to its knowledge, never opened. -/
theorem closing_the_second_is_unmatched :
    ∃ w, exec step (new []) secondCloses = some w ∧
      w.told = [.connectionEstablished ⟨"12D3KooW"⟩ 1 (.dialer []) none 0,
        .connectionClosed ⟨"12D3KooW"⟩ 2 (.dialer []) 1] ∧ ¬ w.Matched := by
  refine ⟨_, rfl, by decide, ?_⟩
  intro matched
  have opened := matched.paired 2 (by decide)
  revert opened
  decide

end Watched

end Ursa.Network

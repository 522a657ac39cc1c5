/-
# Network.Contacts — polling discovery, and the addresses the node learns

`ursa-network/src/discovery.rs` and the identify handler of `behaviour.rs`.  The swarm polls
`DiscoveryBehaviour` for what it should do next.  A poll looks at the behaviour's own events
first, then works off what Kademlia has ready, then what mDNS has ready: it returns the first
thing that is for the swarm, and deals with everything before it.

Addresses reach Kademlia from three places (`Origin`): the configured bootstrap nodes, mDNS,
and peers that identify themselves as speaking Ursa's Kademlia protocol.  Such a peer also
becomes an explicit peer of gossipsub, and its addresses are known to the request protocol.

`discovery_passes_everything_on` says that over any run nothing of this is lost, repeated,
overtaken or made up, and that a poll with no result leaves nothing behind.
-/
import Ursa.Network.Discovery
import Ursa.Theory.Drain

namespace Ursa.Network

set_option autoImplicit false

open Ursa.Theory.Drain

/-! ## What behaviours ask of the swarm -/

/-- `E` is what a behaviour tells its owner, `D` how it dials, `N` what it tells a handler. -/
inductive NetworkBehaviourAction (E D N : Type) where
  | generateEvent (event : E)
  | dial (opts : D)
  | notifyHandler (peer : PeerId) (event : N)
  | reportObservedAddr (address : Multiaddr) (score : Nat)
  | closeConnection (peer : PeerId) (connection : ConnectionId)

inductive MdnsEvent where
  | discovered (peers : List (PeerId × Multiaddr))
  | expired (peers : List (PeerId × Multiaddr))

/-- Of Kademlia's events nothing is read but for the log. -/
inductive KademliaEvent where
  | event

inductive IdentifyEvent where
  | received (peer : PeerId) (protocols : List String) (listenAddrs : List Multiaddr)
  | sent (peer : PeerId)
  | pushed (peer : PeerId)
  | error (peer : PeerId)

def ursaKadProtocol : String := "/ursa/kad/0.0.1"

/-! ## The address books -/

/-- Where an address that Kademlia is told comes from. -/
inductive Origin where
  | bootstrap
  | identify
  | mdns
  deriving DecidableEq

/-- What other protocols were told, oldest first. -/
structure Contacts where
  /-- `Kademlia::add_address` -/
  kademlia : List (Origin × PeerId × Multiaddr)
  /-- `RequestResponse::add_address` -/
  requestResponse : List (PeerId × Multiaddr)
  /-- `Gossipsub::add_explicit_peer` -/
  explicitPeers : List PeerId

namespace Contacts

def empty : Contacts := { kademlia := [], requestResponse := [], explicitPeers := [] }

def addAddress (c : Contacts) (origin : Origin) (peer : PeerId) (address : Multiaddr) : Contacts :=
  { c with kademlia := c.kademlia ++ [(origin, peer, address)] }

/-- The addresses Kademlia was told from one side. -/
def addressesFrom (c : Contacts) (origin : Origin) : List (PeerId × Multiaddr) :=
  c.kademlia.filterMap fun e => if e.1 = origin then some e.2 else none

/-- `handle_mdns_event` -/
def handleMdnsEvent (c : Contacts) : MdnsEvent → Contacts
  | .discovered discovered =>
      discovered.foldl (fun c d => c.addAddress .mdns d.1 d.2) c
  | .expired _ => c

/-- What `handle_identify` does with one address. -/
def learnAddress (c : Contacts) (peer : PeerId) (address : Multiaddr) : Contacts :=
  let c := c.addAddress .identify peer address
  { c with requestResponse := c.requestResponse ++ [(peer, address)] }

/-- `handle_identify` -/
def handleIdentify (c : Contacts) : IdentifyEvent → Contacts
  | .received peer protocols listenAddrs =>
      -- a peer of the same network
      if protocols.any (fun name => name = ursaKadProtocol) then
        listenAddrs.foldl (fun c address => c.learnAddress peer address)
          { c with explicitPeers := c.explicitPeers ++ [peer] }
      else c
  | .sent _ => c
  | .pushed _ => c
  | .error _ => c

end Contacts

/-! ## Discovery -/

/-- `DiscoveryBehaviour` with what the protocols below it have ready. -/
structure Discovery (D N : Type) where
  behaviour : DiscoveryBehaviour
  kademlia : List (NetworkBehaviourAction KademliaEvent D N)
  /-- Nothing, if mDNS is off. -/
  mdns : List (NetworkBehaviourAction MdnsEvent D N)
  contacts : Contacts

namespace Discovery

variable {D N : Type}

def new (bootstrapNodes : List Multiaddr) : Discovery D N :=
  { behaviour := .new bootstrapNodes, kademlia := [], mdns := [], contacts := .empty }

/-- What `poll` returns of something that Kademlia has ready; its events stay here. -/
def forwardKademlia :
    NetworkBehaviourAction KademliaEvent D N → Option (NetworkBehaviourAction DiscoveryEvent D N)
  | .generateEvent _ => none
  | .dial opts => some (.dial opts)
  | .notifyHandler peer event => some (.notifyHandler peer event)
  | .reportObservedAddr address score => some (.reportObservedAddr address score)
  | .closeConnection peer connection => some (.closeConnection peer connection)

/-- The same for mDNS, which neither dials nor has a handler. -/
def forwardMdns :
    NetworkBehaviourAction MdnsEvent D N → Option (NetworkBehaviourAction DiscoveryEvent D N)
  | .generateEvent _ => none
  | .reportObservedAddr address score => some (.reportObservedAddr address score)
  | .closeConnection peer connection => some (.closeConnection peer connection)
  | .dial _ => none
  | .notifyHandler _ _ => none

/-- `handle_kad_event` -/
def handleKadEvent (c : Contacts) (_ : NetworkBehaviourAction KademliaEvent D N) : Contacts := c

/-- What becomes of the things mDNS has ready that are not passed on. -/
def handleMdns (c : Contacts) : NetworkBehaviourAction MdnsEvent D N → Contacts
  | .generateEvent event => c.handleMdnsEvent event
  | _ => c

/-- Which loop of `poll` an action was returned from. -/
inductive Source where
  | own
  | kademlia
  | mdns
  deriving DecidableEq

def poll (d : Discovery D N) :
    Option (Source × NetworkBehaviourAction DiscoveryEvent D N) × Discovery D N :=
  match d.behaviour.poll with
  | (some event, behaviour) => (some (.own, .generateEvent event), { d with behaviour })
  | (none, _) =>
      match drain forwardKademlia handleKadEvent d.kademlia d.contacts with
      | (some action, kademlia, contacts) =>
          (some (.kademlia, action), { d with kademlia, contacts })
      | (none, kademlia, contacts) =>
          match drain forwardMdns handleMdns d.mdns contacts with
          | (some action, mdns, contacts) =>
              (some (.mdns, action), { d with kademlia, mdns, contacts })
          | (none, mdns, contacts) => (none, { d with kademlia, mdns, contacts })

/-- `bootstrap`; `query` is what Kademlia's own `bootstrap` returns. -/
def bootstrap (d : Discovery D N) (query : Except String Nat) :
    Except String Nat × Discovery D N :=
  let addNode := fun (c : Contacts) node => c.addAddress .bootstrap node.1 node.2
  let d := { d with contacts := d.behaviour.bootstrapAddrs.foldl addNode d.contacts }
  if d.behaviour.bootstrapNodes = [] then (.error "No bootstrap nodes configured", d) else (query, d)

theorem bootstrap_snd (d : Discovery D N) (query : Except String Nat) :
    (d.bootstrap query).2 = { d with
      contacts := d.behaviour.bootstrapAddrs.foldl
        (fun c node => c.addAddress .bootstrap node.1 node.2) d.contacts } := by
  dsimp only [bootstrap]
  split <;> rfl

/-! ## Inputs -/

/-- What happens to discovery: callbacks, something that Kademlia or mDNS has ready, an
identify event of the node's behaviour, a bootstrap, a poll. -/
inductive Input (D N : Type) where
  | established (peer : PeerId) (connection : ConnectionId) (endpoint : ConnectedPoint)
      (failedAddresses : Option (List Multiaddr)) (otherEstablished : Nat)
  | closed (peer : PeerId) (connection : ConnectionId) (endpoint : ConnectedPoint)
      (remainingEstablished : Nat)
  | kademlia (action : NetworkBehaviourAction KademliaEvent D N)
  | mdns (action : NetworkBehaviourAction MdnsEvent D N)
  | identify (event : IdentifyEvent)
  | bootstrap (query : Except String Nat)
  | poll

/-- Discovery with what its polls have returned so far, oldest first. -/
structure Polled (D N : Type) where
  discovery : Discovery D N
  passed : List (Source × NetworkBehaviourAction DiscoveryEvent D N)

/-- The callbacks of the swarm; other inputs do not reach the behaviour itself. -/
def inject (b : DiscoveryBehaviour) : Input D N → DiscoveryBehaviour
  | .established peer connection endpoint failed other =>
      b.injectConnectionEstablished peer connection endpoint failed other
  | .closed peer connection endpoint remaining =>
      b.injectConnectionClosed peer connection endpoint remaining
  | _ => b

def Polled.step (p : Polled D N) (input : Input D N) : Polled D N :=
  let d := p.discovery
  match input with
  | .established .. => { p with discovery := { d with behaviour := inject d.behaviour input } }
  | .closed .. => { p with discovery := { d with behaviour := inject d.behaviour input } }
  | .kademlia action => { p with discovery := { d with kademlia := d.kademlia ++ [action] } }
  | .mdns action => { p with discovery := { d with mdns := d.mdns ++ [action] } }
  | .identify event => { p with discovery := { d with contacts := d.contacts.handleIdentify event } }
  | .bootstrap query => { p with discovery := (d.bootstrap query).2 }
  | .poll => { discovery := d.poll.2, passed := p.passed ++ d.poll.1.toList }

/-- The state after some inputs. -/
def run (bootstrapNodes : List Multiaddr) (inputs : List (Input D N)) : Polled D N :=
  inputs.foldl Polled.step { discovery := .new bootstrapNodes, passed := [] }

/-! ## What a poll does -/

/-- The events of Kademlia tell nobody anything. -/
theorem drain_kademlia (queue : List (NetworkBehaviourAction KademliaEvent D N)) (c : Contacts) :
    (drain forwardKademlia handleKadEvent queue c).2.2 = c :=
  drain_keeps forwardKademlia handleKadEvent id (fun _ _ => rfl) queue c

inductive PollCase (d : Discovery D N) :
    Option (Source × NetworkBehaviourAction DiscoveryEvent D N) × Discovery D N → Prop where
  | own (event : DiscoveryEvent) (rest : List DiscoveryEvent)
      (first : d.behaviour.events = event :: rest) :
      PollCase d (some (.own, .generateEvent event),
        { d with behaviour := { d.behaviour with events := rest } })
  | kademlia (action : NetworkBehaviourAction DiscoveryEvent D N)
      (rest : List (NetworkBehaviourAction KademliaEvent D N)) (own : d.behaviour.events = [])
      (drained : drain forwardKademlia handleKadEvent d.kademlia d.contacts =
        (some action, rest, d.contacts)) :
      PollCase d (some (.kademlia, action), { d with kademlia := rest })
  | mdns (action : NetworkBehaviourAction DiscoveryEvent D N)
      (rest : List (NetworkBehaviourAction MdnsEvent D N)) (contacts : Contacts)
      (own : d.behaviour.events = [])
      (kademlia : drain forwardKademlia handleKadEvent d.kademlia d.contacts =
        (none, [], d.contacts))
      (drained : drain forwardMdns handleMdns d.mdns d.contacts = (some action, rest, contacts)) :
      PollCase d (some (.mdns, action), { d with kademlia := [], mdns := rest, contacts })
  | pending (contacts : Contacts) (own : d.behaviour.events = [])
      (kademlia : drain forwardKademlia handleKadEvent d.kademlia d.contacts =
        (none, [], d.contacts))
      (drained : drain forwardMdns handleMdns d.mdns d.contacts = (none, [], contacts)) :
      PollCase d (none, { d with kademlia := [], mdns := [], contacts })

theorem poll_cases (d : Discovery D N) : PollCase d d.poll := by
  unfold poll DiscoveryBehaviour.poll
  cases own : d.behaviour.events with
  | cons event rest => exact .own event rest own
  | nil =>
      dsimp only
      have told := drain_kademlia d.kademlia d.contacts
      have emptied := drain_none forwardKademlia handleKadEvent d.kademlia d.contacts
      rcases kademlia : drain forwardKademlia handleKadEvent d.kademlia d.contacts with
        ⟨_ | action, rest, contacts⟩
      · rw [kademlia] at told emptied
        obtain rfl : contacts = d.contacts := told
        obtain rfl : rest = [] := emptied rfl
        have emptied := drain_none forwardMdns handleMdns d.mdns d.contacts
        dsimp only
        rcases drained : drain forwardMdns handleMdns d.mdns d.contacts with
          ⟨_ | action, rest, contacts⟩
        · rw [drained] at emptied
          obtain rfl : rest = [] := emptied rfl
          exact .pending contacts own kademlia drained
        · exact .mdns action rest contacts own kademlia drained
      · rw [kademlia] at told
        obtain rfl : contacts = d.contacts := told
        exact .kademlia action rest own kademlia

/-! ## What each input gives -/

end Discovery

def MdnsEvent.addresses : MdnsEvent → List (PeerId × Multiaddr)
  | .discovered peers => peers
  | .expired _ => []

/-- A peer that speaks Ursa's Kademlia protocol, and no other. -/
def IdentifyEvent.ursaPeer : IdentifyEvent → List PeerId
  | .received peer protocols _ => if ursaKadProtocol ∈ protocols then [peer] else []
  | _ => []

def IdentifyEvent.addresses : IdentifyEvent → List (PeerId × Multiaddr)
  | .received peer protocols listenAddrs =>
      if ursaKadProtocol ∈ protocols then listenAddrs.map fun address => (peer, address) else []
  | _ => []

namespace Discovery

variable {D N : Type}

def mdnsAddresses : NetworkBehaviourAction MdnsEvent D N → List (PeerId × Multiaddr)
  | .generateEvent event => event.addresses
  | _ => []

namespace Input

def forKademlia : Input D N → List (NetworkBehaviourAction DiscoveryEvent D N)
  | .kademlia action => (forwardKademlia action).toList
  | _ => []

def forMdns : Input D N → List (NetworkBehaviourAction DiscoveryEvent D N)
  | .mdns action => (forwardMdns action).toList
  | _ => []

def addresses (nodes : List (PeerId × Multiaddr)) (origin : Origin) :
    Input D N → List (PeerId × Multiaddr)
  | .bootstrap _ => if origin = .bootstrap then nodes else []
  | .identify event => if origin = .identify then event.addresses else []
  | .mdns action => if origin = .mdns then mdnsAddresses action else []
  | _ => []

def ursaPeer : Input D N → List PeerId
  | .identify event => event.ursaPeer
  | _ => []

end Input

end Discovery

/-! ## What the address books hold -/

namespace Contacts

theorem addressesFrom_addAddress (c : Contacts) (origin from' : Origin) (peer : PeerId)
    (address : Multiaddr) :
    (c.addAddress origin peer address).addressesFrom from' =
      c.addressesFrom from' ++ if from' = origin then [(peer, address)] else [] := by
  by_cases same : origin = from'
  · simp [addressesFrom, addAddress, same]
  · simp [addressesFrom, addAddress, same, Ne.symm same]

theorem addressesFrom_addAddresses (c : Contacts) (origin from' : Origin)
    (nodes : List (PeerId × Multiaddr)) :
    (nodes.foldl (fun c node => c.addAddress origin node.1 node.2) c).addressesFrom from' =
      c.addressesFrom from' ++ if from' = origin then nodes else [] := by
  rw [log_foldl (addressesFrom · from') (fun c node => addressesFrom_addAddress c origin from' node.1 node.2) nodes c]
  split <;> simp

/-- What only identified peers change. -/
def learned (c : Contacts) : List (PeerId × Multiaddr) × List PeerId :=
  (c.requestResponse, c.explicitPeers)

theorem learned_addAddresses (c : Contacts) (origin : Origin) (nodes : List (PeerId × Multiaddr)) :
    (nodes.foldl (fun c node => c.addAddress origin node.1 node.2) c).learned = c.learned := by
  induction nodes generalizing c with
  | nil => rfl
  | cons node nodes ih => exact ih (c.addAddress origin node.1 node.2)

theorem learnAddresses (c : Contacts) (peer : PeerId) (listenAddrs : List Multiaddr)
    (from' : Origin) :
    let learned := listenAddrs.foldl (fun c address => c.learnAddress peer address) c
    let pairs := listenAddrs.map fun address => (peer, address)
    learned.addressesFrom from' =
        c.addressesFrom from' ++ (if from' = .identify then pairs else []) ∧
      learned.requestResponse = c.requestResponse ++ pairs ∧
      learned.explicitPeers = c.explicitPeers := by
  have kademlia (c : Contacts) (address : Multiaddr) :
      (c.learnAddress peer address).addressesFrom from' =
        c.addressesFrom from' ++ if from' = .identify then [(peer, address)] else [] :=
    addressesFrom_addAddress c .identify from' peer address
  have requestResponse (c : Contacts) (address : Multiaddr) :
      (c.learnAddress peer address).requestResponse = c.requestResponse ++ [(peer, address)] := rfl
  have explicitPeers (c : Contacts) (address : Multiaddr) :
      (c.learnAddress peer address).explicitPeers = c.explicitPeers ++ [] :=
    (List.append_nil _).symm
  refine ⟨?_, ?_, ?_⟩
  · rw [log_foldl (addressesFrom · from') kademlia listenAddrs c]
    split <;> simp [List.map_eq_flatMap]
  · rw [log_foldl Contacts.requestResponse requestResponse listenAddrs c, List.map_eq_flatMap]
  · rw [log_foldl Contacts.explicitPeers explicitPeers listenAddrs c]
    simp

theorem handleIdentify_books (c : Contacts) (event : IdentifyEvent) (from' : Origin) :
    (c.handleIdentify event).addressesFrom from' =
        c.addressesFrom from' ++ (if from' = .identify then event.addresses else []) ∧
      (c.handleIdentify event).requestResponse = c.requestResponse ++ event.addresses ∧
      (c.handleIdentify event).explicitPeers = c.explicitPeers ++ event.ursaPeer := by
  cases event with
  | received peer protocols listenAddrs =>
      simp only [handleIdentify, IdentifyEvent.addresses, IdentifyEvent.ursaPeer]
      have known : protocols.any (fun name => name = ursaKadProtocol) = true ↔
          ursaKadProtocol ∈ protocols := by simp
      by_cases ours : ursaKadProtocol ∈ protocols
      · rw [if_pos (known.mpr ours), if_pos ours, if_pos ours]
        exact learnAddresses { c with explicitPeers := c.explicitPeers ++ [peer] } peer listenAddrs
          from'
      · rw [if_neg (known.not.mpr ours), if_neg ours, if_neg ours]
        simp
  | _ => simp [handleIdentify, IdentifyEvent.addresses, IdentifyEvent.ursaPeer]

theorem addressesFrom_handleMdns {D N : Type} (c : Contacts)
    (action : NetworkBehaviourAction MdnsEvent D N) (from' : Origin) :
    (Discovery.handleMdns c action).addressesFrom from' =
      c.addressesFrom from' ++ if from' = .mdns then Discovery.mdnsAddresses action else [] := by
  cases action with
  | generateEvent event =>
      cases event with
      | discovered peers => exact addressesFrom_addAddresses c .mdns from' peers
      | expired peers =>
          simp [Discovery.handleMdns, handleMdnsEvent, Discovery.mdnsAddresses, MdnsEvent.addresses]
  | _ => simp [Discovery.handleMdns, Discovery.mdnsAddresses]

theorem learned_handleMdns {D N : Type} (c : Contacts)
    (action : NetworkBehaviourAction MdnsEvent D N) :
    (Discovery.handleMdns c action).learned = c.learned := by
  cases action with
  | generateEvent event =>
      cases event with
      | discovered peers => exact c.learned_addAddresses .mdns peers
      | expired peers => rfl
  | _ => rfl

end Contacts

/-! ## Runs -/

namespace Discovery

variable {D N : Type}

namespace Polled

/-- What the polls have returned from one of their loops. -/
def passedFrom (p : Polled D N) (source : Source) :
    List (NetworkBehaviourAction DiscoveryEvent D N) :=
  p.passed.filterMap fun e => if e.1 = source then some e.2 else none

/-- What there is to pass on, or has been: first what has. -/
def ownStream (p : Polled D N) : List (NetworkBehaviourAction DiscoveryEvent D N) :=
  p.passedFrom .own ++ p.discovery.behaviour.events.map .generateEvent

def kademliaStream (p : Polled D N) : List (NetworkBehaviourAction DiscoveryEvent D N) :=
  p.passedFrom .kademlia ++ p.discovery.kademlia.filterMap forwardKademlia

def mdnsStream (p : Polled D N) : List (NetworkBehaviourAction DiscoveryEvent D N) :=
  p.passedFrom .mdns ++ p.discovery.mdns.filterMap forwardMdns

/-- The addresses from one side: those Kademlia was told, and those mDNS still has. -/
def addressStream (p : Polled D N) (origin : Origin) : List (PeerId × Multiaddr) :=
  p.discovery.contacts.addressesFrom origin ++
    p.discovery.mdns.flatMap fun a => if origin = .mdns then mdnsAddresses a else []

theorem kademliaStream_step (p : Polled D N) (input : Input D N) :
    (p.step input).kademliaStream = p.kademliaStream ++ input.forKademlia := by
  cases input with
  | kademlia action =>
      cases passed : forwardKademlia action <;>
        simp [step, kademliaStream, passedFrom, Input.forKademlia, passed]
  | poll =>
      have polled := poll_cases p.discovery
      have kept := filterMap_drain forwardKademlia handleKadEvent p.discovery.kademlia
        p.discovery.contacts
      simp only [step, kademliaStream, Input.forKademlia]
      generalize p.discovery.poll = result at polled
      cases polled with
      | own event rest first => simp [passedFrom]
      | kademlia action rest own drained =>
          rw [drained] at kept
          simp [passedFrom, ← kept]
      | mdns action rest contacts own kademlia drained =>
          rw [kademlia] at kept
          simp [passedFrom, ← kept]
      | pending contacts own kademlia drained =>
          rw [kademlia] at kept
          simp [passedFrom, ← kept]
  | bootstrap query => simp [step, bootstrap_snd, kademliaStream, passedFrom, Input.forKademlia]
  | _ => simp [step, kademliaStream, passedFrom, Input.forKademlia]

theorem mdnsStream_step (p : Polled D N) (input : Input D N) :
    (p.step input).mdnsStream = p.mdnsStream ++ input.forMdns := by
  cases input with
  | mdns action =>
      cases passed : forwardMdns action <;>
        simp [step, mdnsStream, passedFrom, Input.forMdns, passed]
  | poll =>
      have polled := poll_cases p.discovery
      have kept := filterMap_drain forwardMdns handleMdns p.discovery.mdns p.discovery.contacts
      simp only [step, mdnsStream, Input.forMdns]
      generalize p.discovery.poll = result at polled
      cases polled with
      | mdns action rest contacts own kademlia drained =>
          rw [drained] at kept
          simp [passedFrom, ← kept]
      | pending contacts own kademlia drained =>
          rw [drained] at kept
          simp [passedFrom, ← kept]
      | _ => simp [passedFrom]
  | bootstrap query => simp [step, bootstrap_snd, mdnsStream, passedFrom, Input.forMdns]
  | _ => simp [step, mdnsStream, passedFrom, Input.forMdns]

/-- What a poll takes from mDNS it tells Kademlia, unless it returns it. -/
theorem addressStream_poll (p : Polled D N) (origin : Origin) :
    (p.step .poll).addressStream origin = p.addressStream origin := by
  have polled := poll_cases p.discovery
  have told := log_drain forwardMdns handleMdns
    (Contacts.addressesFrom · origin)
    (fun c a => Contacts.addressesFrom_handleMdns c a origin)
    (fun a b passed => by cases a <;> simp [mdnsAddresses, forwardMdns] at passed ⊢)
    p.discovery.mdns p.discovery.contacts
  simp only [step, addressStream]
  generalize p.discovery.poll = result at polled
  cases polled with
  | mdns action rest contacts own kademlia drained =>
      rw [drained] at told
      exact told
  | pending contacts own kademlia drained =>
      rw [drained] at told
      exact told
  | _ => rfl

theorem addressStream_step {nodes : List (PeerId × Multiaddr)} (origin : Origin) (p : Polled D N)
    (input : Input D N) (configured : p.discovery.behaviour.bootstrapNodes = nodes) :
    (p.step input).addressStream origin = p.addressStream origin ++ input.addresses nodes origin := by
  have nothing : p.discovery.mdns.flatMap (fun _ => ([] : List (PeerId × Multiaddr))) = [] :=
    List.flatMap_eq_nil_iff.mpr fun _ _ => rfl
  cases input with
  | poll =>
      rw [addressStream_poll]
      exact (List.append_nil _).symm
  | identify event =>
      have books := (p.discovery.contacts.handleIdentify_books event origin).1
      cases origin <;> simp [step, addressStream, books, Input.addresses, nothing]
  | bootstrap query =>
      have books := p.discovery.contacts.addressesFrom_addAddresses .bootstrap origin nodes
      simp only [step, bootstrap_snd, addressStream, DiscoveryBehaviour.bootstrapAddrs, configured,
        books]
      cases origin <;> simp [Input.addresses, nothing]
  | mdns action => simp [step, addressStream, Input.addresses]
  | _ => simp [step, addressStream, Input.addresses]

theorem learned_poll (p : Polled D N) :
    (p.step .poll).discovery.contacts.learned = p.discovery.contacts.learned := by
  have polled := poll_cases p.discovery
  have kept := drain_keeps forwardMdns handleMdns Contacts.learned Contacts.learned_handleMdns
    p.discovery.mdns p.discovery.contacts
  simp only [step]
  generalize p.discovery.poll = result at polled
  cases polled with
  | mdns action rest contacts own kademlia drained =>
      rw [drained] at kept
      exact kept
  | pending contacts own kademlia drained =>
      rw [drained] at kept
      exact kept
  | _ => rfl

theorem learned_step (nodes : List (PeerId × Multiaddr)) (p : Polled D N) (input : Input D N) :
    (p.step input).discovery.contacts.learned =
      (p.discovery.contacts.requestResponse ++ input.addresses nodes .identify,
        p.discovery.contacts.explicitPeers ++ input.ursaPeer) := by
  cases input with
  | identify event =>
      obtain ⟨-, requestResponse, explicitPeers⟩ :=
        p.discovery.contacts.handleIdentify_books event .identify
      exact Prod.ext requestResponse explicitPeers
  | poll =>
      rw [learned_poll]
      simp [Contacts.learned, Input.addresses, Input.ursaPeer]
  | bootstrap query =>
      simp only [step, bootstrap_snd, Contacts.learned_addAddresses]
      simp [Contacts.learned, Input.addresses, Input.ursaPeer]
  | _ => simp [step, Contacts.learned, Input.addresses, Input.ursaPeer]

/-- The configured nodes stay what they are. -/
theorem bootstrapNodes_step (p : Polled D N) (input : Input D N) :
    (p.step input).discovery.behaviour.bootstrapNodes = p.discovery.behaviour.bootstrapNodes := by
  cases input with
  | poll =>
      have polled := poll_cases p.discovery
      simp only [step]
      generalize p.discovery.poll = result at polled
      cases polled <;> rfl
  | bootstrap query => simp [step, bootstrap_snd]
  | established peer connection endpoint failed other =>
      simp only [step, inject, DiscoveryBehaviour.injectConnectionEstablished]
      split <;> rfl
  | closed peer connection endpoint remaining =>
      simp only [step, inject, DiscoveryBehaviour.injectConnectionClosed]
      split <;> rfl
  | _ => rfl

/-- Beside a behaviour that gets the same callbacks and is not polled: the peers are the same,
and no event is lost or made up. -/
structure Beside (p : Polled D N) (b : DiscoveryBehaviour) : Prop where
  peers : p.discovery.behaviour.peers = b.peers
  events : p.ownStream = b.events.map .generateEvent

theorem Beside.step {p : Polled D N} {b : DiscoveryBehaviour} (beside : p.Beside b)
    (input : Input D N) : (p.step input).Beside (inject b input) := by
  cases input with
  | poll =>
      have polled := poll_cases p.discovery
      have events := beside.events
      simp only [Polled.step, inject]
      generalize p.discovery.poll = result at polled
      cases polled with
      | own event rest first =>
          refine ⟨beside.peers, ?_⟩
          rw [← events]
          simp [ownStream, passedFrom, first]
      | _ =>
          refine ⟨beside.peers, ?_⟩
          rw [← events]
          simp [ownStream, passedFrom]
  | established peer connection endpoint failed other =>
      simp only [Polled.step, inject, DiscoveryBehaviour.injectConnectionEstablished, beside.peers]
      split
      · refine ⟨rfl, ?_⟩
        rw [List.map_append, ← beside.events]
        simp [ownStream, passedFrom]
      · exact beside
  | closed peer connection endpoint remaining =>
      simp only [Polled.step, inject, DiscoveryBehaviour.injectConnectionClosed, beside.peers]
      split
      · refine ⟨rfl, ?_⟩
        rw [List.map_append, ← beside.events]
        simp [ownStream, passedFrom]
      · exact beside
  | bootstrap query =>
      simp only [Polled.step, inject, bootstrap_snd]
      exact ⟨beside.peers, beside.events⟩
  | _ => exact ⟨beside.peers, beside.events⟩

theorem Beside.run {p : Polled D N} {b : DiscoveryBehaviour} (beside : p.Beside b)
    (inputs : List (Input D N)) : (inputs.foldl Polled.step p).Beside (inputs.foldl inject b) := by
  induction inputs generalizing p b with
  | nil => exact beside
  | cons input inputs ih => exact ih (beside.step input)

end Polled

/-! ## Polling until nothing comes -/

/-- How much there is to pass on. -/
def waiting (d : Discovery D N) : Nat :=
  d.behaviour.events.length + (d.kademlia.filterMap forwardKademlia).length +
    (d.mdns.filterMap forwardMdns).length

structure Idle (d : Discovery D N) : Prop where
  own : d.behaviour.events = []
  kademlia : d.kademlia = []
  mdns : d.mdns = []

theorem Idle.poll {d : Discovery D N} (idle : d.Idle) : d.poll.2.Idle := by
  obtain ⟨own, kademlia, mdns⟩ := idle
  simp only [Discovery.poll, DiscoveryBehaviour.poll, own, kademlia, mdns, drain]
  exact ⟨own, rfl, rfl⟩

/-- A poll that returns nothing leaves nothing; any other leaves one thing less. -/
theorem idle_or_waiting (d : Discovery D N) :
    d.poll.2.Idle ∨ d.poll.2.waiting < d.waiting := by
  have polled := poll_cases d
  have keptKademlia := filterMap_drain forwardKademlia handleKadEvent d.kademlia d.contacts
  have keptMdns := filterMap_drain forwardMdns handleMdns d.mdns d.contacts
  generalize d.poll = result at polled
  cases polled with
  | own event rest first =>
      refine .inr ?_
      simp only [waiting, first, List.length_cons]
      omega
  | kademlia action rest own drained =>
      refine .inr ?_
      rw [drained] at keptKademlia
      simp [waiting, ← keptKademlia]
  | mdns action rest contacts own kademlia drained =>
      refine .inr ?_
      rw [drained] at keptMdns
      simp [waiting, ← keptMdns]
      omega
  | pending contacts own kademlia drained => exact .inl ⟨own, rfl, rfl⟩

theorem idle_polls {p : Polled D N} (idle : p.discovery.Idle) (n : Nat) :
    ((List.replicate n Input.poll).foldl Polled.step p).discovery.Idle := by
  induction n generalizing p with
  | zero => exact idle
  | succ n ih => exact ih (p := p.step .poll) idle.poll

theorem idle_after_polls {p : Polled D N} {n : Nat} (enough : p.discovery.waiting < n) :
    ((List.replicate n Input.poll).foldl Polled.step p).discovery.Idle := by
  induction n generalizing p with
  | zero => omega
  | succ n ih =>
      rcases idle_or_waiting p.discovery with idle | fewer
      · exact idle_polls (p := p.step .poll) idle n
      · exact ih (p := p.step .poll) (Nat.lt_of_lt_of_le fewer (Nat.le_of_lt_succ enough))

/-! ## The result -/

/-- What some inputs ask for is what has been done and what is still to be done. -/
structure Accounted (bootstrapNodes : List Multiaddr) (inputs : List (Input D N))
    (p : Polled D N) : Prop where
  peers : p.discovery.behaviour.peers = (inputs.foldl inject (.new bootstrapNodes)).peers
  own : p.ownStream = (inputs.foldl inject (.new bootstrapNodes)).events.map .generateEvent
  kademlia : p.kademliaStream = inputs.flatMap Input.forKademlia
  mdns : p.mdnsStream = inputs.flatMap Input.forMdns
  addresses : ∀ origin, p.addressStream origin = inputs.flatMap
    (Input.addresses (bootstrapNodes.filterMap DiscoveryBehaviour.bootstrapNode) origin)
  requestResponse : p.discovery.contacts.requestResponse = inputs.flatMap
    (Input.addresses (bootstrapNodes.filterMap DiscoveryBehaviour.bootstrapNode) .identify)
  explicitPeers : p.discovery.contacts.explicitPeers = inputs.flatMap Input.ursaPeer

theorem accounted_run (bootstrapNodes : List Multiaddr) (inputs : List (Input D N)) :
    Accounted bootstrapNodes inputs (run bootstrapNodes inputs) := by
  let start : Polled D N := { discovery := .new bootstrapNodes, passed := [] }
  let nodes := bootstrapNodes.filterMap DiscoveryBehaviour.bootstrapNode
  have beside : (run bootstrapNodes inputs).Beside (inputs.foldl inject (.new bootstrapNodes)) :=
    Polled.Beside.run ⟨rfl, rfl⟩ inputs
  exact
    { peers := beside.peers
      own := beside.events
      kademlia := log_foldl Polled.kademliaStream Polled.kademliaStream_step inputs start
      mdns := log_foldl Polled.mdnsStream Polled.mdnsStream_step inputs start
      addresses := fun origin =>
        log_foldl_of (Polled.addressStream · origin)
          (I := fun p => p.discovery.behaviour.bootstrapNodes = nodes)
          (fun p input configured => (Polled.bootstrapNodes_step p input).trans configured)
          (fun p input configured => Polled.addressStream_step origin p input configured) inputs
          (s := start) rfl
      requestResponse :=
        log_foldl (fun p : Polled D N => p.discovery.contacts.requestResponse)
          (fun p input => congrArg Prod.fst (Polled.learned_step nodes p input)) inputs start
      explicitPeers :=
        log_foldl (fun p : Polled D N => p.discovery.contacts.explicitPeers)
          (fun p input => congrArg Prod.snd (Polled.learned_step nodes p input)) inputs start }

/-- Polls ask for nothing. -/
theorem flatMap_polls {ε : Type} (entries : Input D N → List ε) (nothing : entries .poll = [])
    (inputs : List (Input D N)) (n : Nat) :
    (inputs ++ List.replicate n Input.poll).flatMap entries = inputs.flatMap entries := by
  have none : (List.replicate n Input.poll).flatMap entries = [] :=
    List.flatMap_eq_nil_iff.mpr fun input member => by
      rw [List.eq_of_mem_replicate member, nothing]
  rw [List.flatMap_append, none, List.append_nil]

theorem foldl_inject_polls (b : DiscoveryBehaviour) (inputs : List (Input D N)) (n : Nat) :
    (inputs ++ List.replicate n Input.poll).foldl inject b = inputs.foldl inject b := by
  rw [List.foldl_append]
  induction n with
  | zero => rfl
  | succ n ih => exact ih

/-- **Discovery passes everything on.**  In every run, what the polls have returned from each
of their three loops is, in order and without loss, a beginning of what there was to return,
and the rest still waits; Kademlia has been told exactly the addresses of the bootstrap nodes,
at each bootstrap, those of the peers that identified themselves as Ursa's, and those mDNS
found, but for what waits behind; the request protocol and gossipsub know exactly the peers of
the second kind.  And if polls follow, more of them than there are things waiting, then all is
returned and told, and nothing waits. -/
theorem discovery_passes_everything_on (bootstrapNodes : List Multiaddr)
    (inputs : List (Input D N)) (k : Nat) :
    let p := run bootstrapNodes inputs
    let alone := inputs.foldl inject (.new bootstrapNodes)
    let nodes := bootstrapNodes.filterMap DiscoveryBehaviour.bootstrapNode
    let polled := run bootstrapNodes
      (inputs ++ List.replicate (p.discovery.waiting + 1 + k) .poll)
    Accounted bootstrapNodes inputs p ∧ polled.discovery.Idle ∧
      polled.passedFrom .own = alone.events.map .generateEvent ∧
      polled.passedFrom .kademlia = inputs.flatMap Input.forKademlia ∧
      polled.passedFrom .mdns = inputs.flatMap Input.forMdns ∧
      ∀ origin, polled.discovery.contacts.addressesFrom origin =
        inputs.flatMap (Input.addresses nodes origin) := by
  intro p alone nodes polled
  have accounted := accounted_run bootstrapNodes
    (inputs ++ List.replicate (p.discovery.waiting + 1 + k) Input.poll)
  have idle : polled.discovery.Idle := by
    have split : polled = (List.replicate (p.discovery.waiting + 1 + k) Input.poll).foldl
        Polled.step p := List.foldl_append
    rw [split]
    exact idle_after_polls (by omega)
  refine ⟨accounted_run bootstrapNodes inputs, idle, ?_, ?_, ?_, ?_⟩
  · have stream := accounted.own
    rw [foldl_inject_polls, Polled.ownStream, idle.own] at stream
    exact (List.append_nil _).symm.trans stream
  · have stream := accounted.kademlia
    rw [flatMap_polls Input.forKademlia rfl, Polled.kademliaStream, idle.kademlia] at stream
    exact (List.append_nil _).symm.trans stream
  · have stream := accounted.mdns
    rw [flatMap_polls Input.forMdns rfl, Polled.mdnsStream, idle.mdns] at stream
    exact (List.append_nil _).symm.trans stream
  · intro origin
    have stream := accounted.addresses origin
    rw [flatMap_polls (Input.addresses nodes origin) rfl, Polled.addressStream, idle.mdns] at stream
    exact (List.append_nil _).symm.trans stream

end Discovery

end Ursa.Network

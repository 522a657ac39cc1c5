/-
# Network.Reachability — what the node says of where it can be reached

Autonat tells the node whether it can be reached from outside, and under which address.  The
news goes through the event queue, but for a public address that autonat takes over in place of
another one, which an `Index` command finds in its status.  A public address ends up, with the
IP and TCP components alone, in every advertisement published from then on; a node found to be
behind a NAT listens on the relay of a bootstrap node.

* `only_confirmed_addresses_are_advertised` — what was published offers an enqueued root at an
  address that autonat has taken for public, also where the loop over the queue failed half way.
* `each_nat_is_relayed_once` — beside its configured address the node listens on circuits of its
  bootstrap nodes, one for each time autonat found the NAT, in runs of any length and order.
-/
import Ursa.Network.Catalogue
import Ursa.Network.Inbound

namespace Ursa.Network

set_option autoImplicit false

open Ursa.Theory (Outcome)
open Ursa.Theory.Run
open Ursa.IndexProvider

/-! ## What the provider holds -/

/-- A property that neither the links nor the signature matter to. -/
def Unlinked (P : Advertisement → Prop) : Prop :=
  ∀ ad previousID entries signature, P ad → P { ad with previousID, entries, signature }

/-- `Q` holds of every queued root, `P` of every advertisement, pending or published. -/
structure Contents (Q : Cid → Prop) (P : Advertisement → Prop) (s : Shared) : Prop where
  queued : ∀ root ∈ s.rootCids, Q root
  pending : ∀ id ad, s.tempAds id = some ad → P ad
  published : ∀ e ∈ s.published, P e.2

namespace Contents

variable {K : Type} {deps : Deps K} {B : Blocks} {p : Provider K} {peerId : PeerId}
  {Q : Cid → Prop} {P : Advertisement → Prop} {s : Shared}

/-- What is pending under one id is replaced or taken out. -/
theorem update (contents : Contents Q P s) (id : Nat) {draft : Option Advertisement}
    (own : ∀ ad, draft = some ad → P ad) (head : Option Cid) (blockstore : Cid → Option Ipld) :
    Contents Q P { s with head, blockstore, tempAds := Function.update s.tempAds id draft } := by
  refine ⟨contents.queued, ?_, contents.published⟩
  intro other ad found
  dsimp only at found
  by_cases same : other = id
  · subst same
    rw [Function.update_self] at found
    exact own ad found
  · rw [Function.update_of_ne same] at found
    exact contents.pending other ad found

theorem put (contents : Contents Q P s) (id : Nat) {ad : Advertisement} (own : P ad)
    (blockstore : Cid → Option Ipld) :
    Contents Q P { s with blockstore, tempAds := Function.update s.tempAds id (some ad) } :=
  contents.update id (fun _ same => Option.some.inj same ▸ own) s.head blockstore

theorem remove (contents : Contents Q P s) (id : Nat) (head : Option Cid) :
    Contents Q P { s with head, tempAds := Function.update s.tempAds id none } :=
  contents.update id (fun _ same => by cases same) head s.blockstore

theorem setQueue (contents : Contents Q P s) {rootCids : List Cid}
    (queued : ∀ root ∈ rootCids, Q root) : Contents Q P { s with rootCids } :=
  ⟨queued, contents.pending, contents.published⟩

theorem create (contents : Contents Q P s) (unlinked : Unlinked P) {ad : Advertisement}
    (own : P ad) (id : Nat) : Contents Q P (create ad id s).2 :=
  contents.put id (unlinked ad ad.previousID none ad.signature own) s.blockstore

theorem addChunk (contents : Contents Q P s) (unlinked : Unlinked P) (fault : Option String)
    (bytes : Bytes) (id : Nat) : Contents Q P (addChunk deps fault bytes id s).2 := by
  rcases addChunk_cases deps fault bytes id s with
    ⟨entries, ad, cid, -, pending, -, -, result⟩ | ⟨-, unchanged⟩
  · rw [result]
    have own := contents.pending id ad pending
    exact contents.put id (unlinked ad ad.previousID _ ad.signature own) _
  · rw [unchanged]
    exact contents

theorem publish (contents : Contents Q P s) (unlinked : Unlinked P) (faults : WriteFaults)
    (id : Nat) : Contents Q P (publish deps p faults id s).2 := by
  rcases publish_cases deps p faults id s with
    ⟨ad, cid, publishes, result⟩ | ⟨-, result⟩ | ⟨-, -, e, result⟩
  · rw [result]
    obtain ⟨pending, found, sealing⟩ := publishes.sealed
    obtain ⟨signature, rfl⟩ := Advertisement.seal_eq sealing
    have own := unlinked pending (s.head.map Ipld.link) pending.entries (.bytes signature)
      (contents.pending id pending found)
    refine ⟨contents.queued, (contents.remove id none).pending, ?_⟩
    exact List.forall_mem_cons.mpr ⟨own, contents.published⟩
  · rw [result]
    exact ⟨contents.queued, contents.pending, contents.published⟩
  · rw [result]
    exact contents.remove id none

/-- A chain of calls, also where it ends early. -/
theorem andThen {ε α β : Type} {r : Outcome ε α × Shared}
    {next : α → Shared → Outcome ε β × Shared} (first : Contents Q P r.2)
    (later : ∀ a t, Contents Q P t → Contents Q P (next a t).2) :
    Contents Q P (Outcome.andThen r next).2 := by
  obtain ⟨o, t⟩ := r
  cases o with
  | ok a => exact later a t first
  | _ => exact first

theorem addChunks (contents : Contents Q P s) (unlinked : Unlinked P) (env : RootEnv) (id : Nat)
    (cs : List (List Ipld)) (k : Nat) : Contents Q P (addChunks deps env id k cs s).2 := by
  induction cs generalizing k s with
  | nil => exact contents
  | cons chunk rest ih =>
      simp only [Network.addChunks]
      split
      · exact contents
      · rename_i bytes _
        exact andThen (contents.addChunk unlinked (env.chunkFault k) bytes id)
          fun _ t contents => ih contents (k + 1)

theorem publishRoot (contents : Contents Q P s) (unlinked : Unlinked P) (store : Store)
    (address : Multiaddr) (env : RootEnv) {root : Cid}
    (own : P (.new root.toBytes peerId [address.toString] false)) :
    Contents Q P (publishRoot deps B p peerId store address env root s).2 := by
  refine andThen (contents.create unlinked own env.id) ?_
  intro id t contents
  cases dagTraversalOn B env.readFault env.order store (convertCid root.toBytes) with
  | ok dag =>
      refine andThen (contents.addChunks unlinked env id _ 0) ?_
      intro _ u contents
      exact andThen (contents.publish unlinked env.publishFaults id) fun _ _ contents => contents
  | _ => exact contents

/-- The whole queue, or as far as it was published. -/
theorem publishQueue (contents : Contents Q P s) (unlinked : Unlinked P) (store : Store)
    (address : Multiaddr) (env : Nat → RootEnv) {roots : List Cid}
    (queued : ∀ root ∈ roots, Q root)
    (own : ∀ root, Q root → P (.new root.toBytes peerId [address.toString] false)) (n : Nat)
    (sent : List Announcement) :
    Contents Q P (publishQueue deps B p peerId store address env n roots s sent).2.1 := by
  induction roots generalizing n s sent with
  | nil => exact contents
  | cons root rest ih =>
      obtain ⟨first, others⟩ := List.forall_mem_cons.mp queued
      have one : Contents Q P
          (Network.publishRoot deps B p peerId store address (env n) root { s with rootCids := rest }).2 :=
        (contents.setQueue others).publishRoot unlinked store address (env n) (own root first)
      simp only [Network.publishQueue]
      rcases published : Network.publishRoot deps B p peerId store address (env n) root
        { s with rootCids := rest } with ⟨o, t⟩
      rw [published] at one
      cases o with
      | ok a => exact ih one others (n + 1) _
      | _ => exact one

end Contents

/-! ## Where addresses come from -/

namespace UrsaService

variable {K : Type} {deps : Deps K} {B : Blocks} {s t : UrsaService K} {input : Input}
  {address : Multiaddr}

/-- An address in an event that a step raises was known, or autonat has just taken it. -/
theorem Raise.known {raised : List BehaviourEvent} (raise : Raise s input raised)
    {event : BehaviourEvent} (member : event ∈ raised)
    (carries : event.publicAddress = some address) :
    s.Knows address ∨ .reachable address ∈ input.statuses := by
  cases raise with
  | nothing silent unreported => cases member
  | publish own known silent unreported =>
      obtain rfl := List.mem_singleton.mp member
      cases carries
      exact .inl known
  | nat old new status =>
      obtain rfl := List.mem_singleton.mp member
      cases new with
      | reachable own =>
          cases carries
          exact .inr List.mem_cons_self
      | _ => cases carries
  | peer said =>
      obtain rfl := List.mem_singleton.mp member
      cases said <;> cases carries
  | other raisedEvent silent unreported own noAddress noChange =>
      obtain rfl := List.mem_singleton.mp member
      rw [noAddress] at carries
      cases carries
  | _ =>
      obtain rfl := List.mem_singleton.mp member
      cases carries

/-- **No address comes from anywhere but autonat.** -/
theorem knows_of_step (taken : s.step deps B input = some t) (knows : t.Knows address) :
    s.Knows address ∨ .reachable address ∈ input.statuses := by
  have flow := flow_of_step taken
  rcases knows with status | ⟨event, queued, carries⟩
  · rw [Behaviour.publicAddress, flow.autonat] at status
    cases input with
    | autonat new =>
        cases new with
        | reachable known =>
            cases status
            exact .inr List.mem_cons_self
        | _ => cases status
    | autonatSilent new =>
        cases new with
        | reachable known =>
            cases status
            exact .inr List.mem_cons_self
        | _ => cases status
    | _ => exact .inl (.inl status)
  · rw [flow.events] at queued
    rcases List.mem_append.mp queued with waits | raised
    · left
      right
      refine ⟨event, ?_, carries⟩
      cases input with
      | deliver env => exact List.mem_of_mem_tail waits
      | _ => exact waits
    · exact (raise_of s input).known raised carries

/-! ## What is advertised -/

/-- `ad` offers `root` over bitswap in the name of `peerId`, at the IP and TCP part of `address`
and nowhere else. -/
structure OffersAt (peerId : PeerId) (address : Multiaddr) (root : Cid) (ad : Advertisement) :
    Prop where
  provider : ad.provider = peerId.toBase58
  addresses : ad.addresses = [(advertisedAddress address).toString]
  contextID : ad.contextID = contextOf root
  metadata : ad.metadata = .bytes ({ protocolID := 0x0900, data := [] } : Metadata).serialize
  offered : ad.isRm = false

/-- Root and address come from the inputs. -/
def Grounded (peerId : PeerId) (inputs : List Input) (ad : Advertisement) : Prop :=
  ∃ address root, .reachable address ∈ inputs.flatMap Input.statuses ∧
    root ∈ enqueuedRoots inputs ∧ OffersAt peerId address root ad

theorem unlinked_grounded (peerId : PeerId) (inputs : List Input) :
    Unlinked (Grounded peerId inputs) := by
  rintro ad previousID entries signature ⟨address, root, confirmed, enqueued, offers⟩
  exact ⟨address, root, confirmed, enqueued, offers.provider, offers.addresses, offers.contextID,
    offers.metadata, offers.offered⟩

/-- What the node knows and holds comes from the inputs. -/
structure Sourced (peerId : PeerId) (inputs : List Input) (s : UrsaService K) : Prop where
  own : s.peerId = peerId
  knows : ∀ address, s.Knows address → .reachable address ∈ inputs.flatMap Input.statuses
  contents : Contents (· ∈ enqueuedRoots inputs) (Grounded peerId inputs) s.shared

theorem sourced_new (peerId : PeerId) (inputs : List Input) (config : NetworkConfig) (store : Store)
    (indexProvider : Provider K) (blockstore : Cid → Option Ipld) :
    Sourced peerId inputs (new peerId config store indexProvider blockstore) where
  own := rfl
  knows := by
    rintro address (status | ⟨event, queued, -⟩)
    · simp only [new, Behaviour.new, Behaviour.publicAddress] at status
      split at status <;> simp_all
    · cases queued
  contents :=
    { queued := fun _ queued => by cases queued
      pending := fun _ _ pending => by cases pending
      published := fun _ published => by cases published }

theorem Sourced.step {peerId : PeerId} {inputs : List Input} (sourced : Sourced peerId inputs s)
    (member : input ∈ inputs) (taken : s.step deps B input = some t) : Sourced peerId inputs t := by
  have knows : ∀ address, t.Knows address →
      .reachable address ∈ inputs.flatMap Input.statuses := by
    intro address known
    rcases knows_of_step taken known with before | now
    · exact sourced.knows address before
    · exact List.mem_flatMap.mpr ⟨input, member, now⟩
  rcases step_outputs taken with still | ⟨cid, data, -, rfl⟩ |
    ⟨root, cids, sender, id, rfl, behaviour, rfl⟩ | ⟨env, address, later, rfl, first, published⟩
  · refine ⟨still.peerId.trans sourced.own, knows, ?_⟩
    rw [still.shared]
    exact sourced.contents
  · exact ⟨sourced.own, knows, sourced.contents⟩
  · refine ⟨sourced.own, knows, sourced.contents.setQueue ?_⟩
    intro queued listed
    rcases List.mem_append.mp listed with before | now
    · exact sourced.contents.queued queued before
    · obtain rfl := List.mem_singleton.mp now
      exact List.mem_flatMap.mpr ⟨_, member, List.mem_singleton_self queued⟩
  · have confirmed : .reachable address ∈ inputs.flatMap Input.statuses :=
      sourced.knows address (.inr ⟨_, first ▸ List.mem_cons_self, rfl⟩)
    have drafted : ∀ root, root ∈ enqueuedRoots inputs → Grounded peerId inputs
        (.new root.toBytes s.peerId [(advertisedAddress address).toString] false) :=
      fun root enqueued => ⟨address, root, confirmed, enqueued,
        congrArg PeerId.toBase58 sourced.own, rfl, rfl, rfl, rfl⟩
    have contents : Contents (· ∈ enqueuedRoots inputs) (Grounded peerId inputs)
        (publishQueue deps B s.indexProvider s.peerId s.store (advertisedAddress address) env.roots 0
          s.shared.rootCids s.shared s.history.announced).2.1 :=
      sourced.contents.publishQueue (unlinked_grounded peerId inputs) s.store
        (advertisedAddress address) env.roots sourced.contents.queued drafted 0 s.history.announced
    simp only [onStartPublish] at published
    split at published <;> cases published <;> exact ⟨sourced.own, knows, contents⟩

/-- **Only confirmed addresses are advertised.**  In every run of the loop, also one that ended
with an error or a panic half way through the queue: whatever was published offers, in the
node's own name, a root that an `Index` command put into the queue, and names one address, the
IP and TCP part of one that autonat has taken for public, reported or not. -/
theorem only_confirmed_addresses_are_advertised (deps : Deps K) (B : Blocks) (peerId : PeerId)
    (config : NetworkConfig) (store : Store) (indexProvider : Provider K)
    (blockstore : Cid → Option Ipld) (inputs : List Input) (s : UrsaService K)
    (run : exec (step deps B) (new peerId config store indexProvider blockstore) inputs = some s) :
    ∀ e ∈ s.shared.published, ∃ address root,
      .reachable address ∈ inputs.flatMap Input.statuses ∧
      root ∈ enqueuedRoots inputs ∧ OffersAt peerId address root e.2 := by
  have sourced : Sourced peerId inputs s :=
    exec_invariant (fun _ _ _ sourced member taken => Sourced.step sourced member taken)
      (sourced_new peerId inputs config store indexProvider blockstore)
      (meets_of_forall (fun _ member _ => member) _) run
  exact sourced.contents.published

/-- A DAG is published at one address; then the node moves, without an event, and another root
is published. -/
def movedHouse : List Input :=
  sampleUpload ++ [.deliver quietEnv, .deliver quietEnv,
    .autonatSilent (.reachable [.ip4 "198.51.100.2", .tcp 6010, .p2pCircuit]),
    .command (.index [sampleLeaf.1] 2) 0, .deliver quietEnv]

theorem only_confirmed_addresses_are_advertised_sample :
    ∃ s, exec (step plainDeps plainBlocks) (sampleService sampleStore) movedHouse = some s ∧
      s.shared.published.map (fun e => e.2.addresses) =
        [["/ip4/198.51.100.2/tcp/6010"], ["/ip4/203.0.113.7/tcp/6009"]] ∧
      ∀ e ∈ s.shared.published, ∃ address root,
        .reachable address ∈ [.reachable sampleAddress,
          NatStatus.reachable [.ip4 "198.51.100.2", .tcp 6010, .p2pCircuit]] ∧
        root ∈ [sampleRoot.1, sampleLeaf.1] ∧ OffersAt ⟨"12D3KooWSample"⟩ address root e.2 := by
  have evaluated : (exec (step plainDeps plainBlocks) (sampleService sampleStore) movedHouse).map
      (fun s => s.shared.published.map fun e => e.2.addresses) =
        some [["/ip4/198.51.100.2/tcp/6010"], ["/ip4/203.0.113.7/tcp/6009"]] := by decide +kernel
  obtain ⟨s, run, addresses⟩ := Option.map_eq_some_iff.mp evaluated
  exact ⟨s, run, addresses, only_confirmed_addresses_are_advertised plainDeps plainBlocks _ _ _ _ _
    movedHouse s run⟩

end UrsaService

/-! ## Relays -/

/-- The changes of a status that starts as `old`. -/
def natChanges (old : NatStatus) (statuses : List NatStatus) : List (NatStatus × NatStatus) :=
  (old :: statuses).zip statuses

/-- The node was found to be behind a NAT. -/
def natFound : NatStatus × NatStatus := (.unknown, .behindNat)

namespace UrsaService

variable {K : Type} {deps : Deps K} {B : Blocks} {s t : UrsaService K} {input : Input}

/-- The changes a step raises are those of autonat. -/
theorem Raise.changes {raised : List BehaviourEvent} (raise : Raise s input raised) :
    raised.filterMap BehaviourEvent.asChange =
      input.reports.flatMap fun new => (s.behaviour.autonat.map fun old => (old, new)).toList := by
  cases raise with
  | nothing silent unreported =>
      rcases unreported with none | off
      · rw [none]
        rfl
      · rw [off]
        simp
  | publish address known silent unreported => rw [unreported]; rfl
  | nat old new status => simp [BehaviourEvent.asChange, Input.reports, status]
  | peer said => cases said <;> rfl
  | other event silent unreported own noAddress noChange =>
      rw [unreported, List.filterMap_cons_none noChange]
      rfl
  | _ => rfl

/-- At the news of a NAT the node listens on a relay, if it may and there is one, or the loop
ends. -/
theorem onNatFound (s : UrsaService K) (env : DeliverEnv) :
    (∃ node, s.behaviour.relayClient = true ∧ node ∈ s.behaviour.discovery.bootstrapNodes ∧
      (s.onNatStatusChanged env .unknown .behindNat).history.listening =
        s.history.listening ++ [node.2 ++ [.p2p node.1, .p2pCircuit]]) ∨
    ((s.onNatStatusChanged env .unknown .behindNat).history.listening = s.history.listening ∧
      ((s.onNatStatusChanged env .unknown .behindNat).status = .running →
        s.behaviour.relayClient = true → s.behaviour.discovery.bootstrapNodes = [])) := by
  unfold onNatStatusChanged
  dsimp only
  split
  · rename_i client
    split
    · rename_i peer address drawn
      split
      · exact .inl ⟨(peer, address), client, List.mem_of_getElem? drawn, rfl⟩
      · exact .inr ⟨rfl, fun running => by cases running⟩
    · rename_i none
      refine .inr ⟨rfl, fun _ _ => ?_⟩
      -- A number below the length is an index.
      by_contra nodes
      have bound := Nat.mod_lt env.relay (List.length_pos_iff.mpr nodes)
      exact absurd (List.getElem?_eq_none_iff.mp none) (not_le.mpr bound)
  · rename_i off
    exact .inr ⟨rfl, fun _ client => absurd client off⟩

/-- **What a step does to the addresses listened on**: delivering the news of a NAT adds the
relay of one of the bootstrap nodes; anything else leaves them alone. -/
theorem step_listening (taken : s.step deps B input = some t) :
    (∃ env node later, input = .deliver env ∧
      s.behaviour.events = .natStatusChanged .unknown .behindNat :: later ∧
      s.behaviour.relayClient = true ∧ node ∈ s.behaviour.discovery.bootstrapNodes ∧
      t.history.listening = s.history.listening ++ [node.2 ++ [.p2p node.1, .p2pCircuit]]) ∨
    (t.history.listening = s.history.listening ∧
      (t.status = .running → s.behaviour.relayClient = true →
        s.behaviour.discovery.bootstrapNodes ≠ [] → ∀ env later, input = .deliver env →
          s.behaviour.events ≠ .natStatusChanged .unknown .behindNat :: later)) := by
  cases turn_of_step taken with
  | deliver env event later _ first handled =>
      by_cases news : event = .natStatusChanged .unknown .behindNat
      · subst news
        cases handled
        rcases onNatFound { s with behaviour := { s.behaviour with events := later } } env with
          ⟨node, client, member, listening⟩ | ⟨listening, idle⟩
        · exact .inl ⟨env, node, later, rfl, first, client, member, listening⟩
        · exact .inr ⟨listening, fun running client nodes => absurd (idle running client) nodes⟩
      · refine .inr ⟨(handled_of_onEvent handled).listening news, fun _ _ _ env' later' _ other => ?_⟩
        rw [first] at other
        exact news (List.cons.inj other).1
  | command command id =>
      refine .inr ⟨?_, by simp⟩
      cases command with
      | getBitswap cid query sender =>
          simp only [onCommand]
          split <;> rfl
      | index cids sender => cases cids <;> rfl
      | _ => rfl
  | swarm input isSwarm opened used discovery pushed raised =>
      refine .inr ⟨rfl, ?_⟩
      rintro - - - env later rfl
      cases isSwarm
  | _ => exact .inr ⟨rfl, by simp⟩

/-- The addresses listened on, and the news of a NAT that wait. -/
def natsFound (s : UrsaService K) : Nat :=
  s.history.listening.length + (s.behaviour.events.filterMap BehaviourEvent.asChange).count natFound

/-- While the loop goes on, a step adds what autonat has found. -/
theorem natsFound_step (taken : s.step deps B input = some t) (running : t.status = .running)
    (client : s.behaviour.relayClient = true) (nodes : s.behaviour.discovery.bootstrapNodes ≠ []) :
    t.natsFound = s.natsFound +
      (input.reports.flatMap fun new =>
        (s.behaviour.autonat.map fun old => (old, new)).toList).count natFound := by
  have moved : t.history.listening.length +
      ((s.remaining input).filterMap BehaviourEvent.asChange).count natFound = s.natsFound := by
    unfold natsFound
    rcases step_listening taken with ⟨env, node, later, rfl, first, -, -, listening⟩ | ⟨listening, other⟩
    · have news : (BehaviourEvent.natStatusChanged .unknown .behindNat :: later).filterMap
          BehaviourEvent.asChange = natFound :: later.filterMap BehaviourEvent.asChange := rfl
      rw [listening, remaining, first, news, List.count_cons_self, List.length_append,
        List.length_singleton, List.tail_cons]
      omega
    · rw [listening]
      cases input with
      | deliver env =>
          cases waiting : s.behaviour.events with
          | nil => simp [remaining, waiting]
          | cons event later =>
              have unlike := other running client nodes env later rfl
              rw [waiting] at unlike
              cases change : event.asChange with
              | none => simp [remaining, waiting, change]
              | some pair =>
                  have different : pair ≠ natFound := by
                    rintro rfl
                    cases event with
                    | natStatusChanged old new =>
                        cases change
                        exact unlike rfl
                    | _ => cases change
                  simp [remaining, waiting, change, different]
      | _ => rfl
  rw [← moved, natsFound, (flow_of_step taken).events, List.filterMap_append, List.count_append,
    (raise_of s input).changes]
  omega

theorem running_of_exec {inputs : List Input} (run : exec (step deps B) s inputs = some t)
    (running : t.status = .running) : s.status = .running := by
  cases inputs with
  | nil =>
      cases run
      exact running
  | cons input rest =>
      obtain ⟨m, taken, -⟩ := (exec_cons_iff _).mp run
      exact running_of_step taken

/-- Autonat that is off reports nothing. -/
theorem status_of_autonat {new : NatStatus} (taken : s.step deps B (.autonat new) = some t) :
    ∃ old, s.behaviour.autonat = some old := by
  cases turn_of_step taken with
  | autonat old _ known => exact ⟨old, known⟩
  | swarm _ isSwarm => cases isSwarm

/-- A NAT is not found without an event. -/
theorem natChanges_silent {address : Multiaddr} (new : NatStatus) (later : List NatStatus) :
    (natChanges (.reachable address) (new :: later)).count natFound =
      (natChanges new later).count natFound := by
  simp [natChanges, natFound]

theorem status_of_autonatSilent {new : NatStatus}
    (taken : s.step deps B (.autonatSilent new) = some t) :
    ∃ address, s.behaviour.autonat = some (.reachable address) := by
  cases turn_of_step taken with
  | autonatSilent address _ known _ => exact ⟨address, known⟩
  | swarm _ isSwarm => cases isSwarm

/-- Induction on the run: the status at its start is the first `old`. -/
theorem natsFound_run {old : NatStatus} {inputs : List Input}
    (run : exec (step deps B) s inputs = some t) (running : t.status = .running)
    (client : s.behaviour.relayClient = true) (nodes : s.behaviour.discovery.bootstrapNodes ≠ [])
    (status : ∀ known, s.behaviour.autonat = some known → known = old) :
    t.natsFound = s.natsFound + (natChanges old (inputs.flatMap Input.statuses)).count natFound := by
  induction inputs generalizing s old with
  | nil =>
      cases run
      rfl
  | cons input rest ih =>
      obtain ⟨m, taken, later⟩ := (exec_cons_iff _).mp run
      have found := natsFound_step taken (running_of_exec later running) client nodes
      have flow := flow_of_step taken
      have client' := flow.relayClient.trans client
      have nodes' : m.behaviour.discovery.bootstrapNodes ≠ [] := by rwa [flow.bootstrapNodes]
      cases input with
      | autonat new =>
          obtain ⟨known, isStatus⟩ := status_of_autonat taken
          obtain rfl := status known isStatus
          have after : ∀ reported, m.behaviour.autonat = some reported → reported = new := by
            intro reported same
            exact (Option.some.inj (flow.autonat.symm.trans same)).symm
          rw [ih later client' nodes' after, found, isStatus]
          simp only [Input.reports, Input.statuses, List.flatMap_cons, List.flatMap_nil,
            List.append_nil, List.singleton_append, Option.map_some, Option.toList_some, natChanges,
            List.zip_cons_cons, List.count_cons, List.count_nil]
          omega
      | autonatSilent new =>
          obtain ⟨address, isStatus⟩ := status_of_autonatSilent taken
          obtain rfl := status _ isStatus
          have after : ∀ taken, m.behaviour.autonat = some taken → taken = new := by
            intro taken same
            exact (Option.some.inj (flow.autonat.symm.trans same)).symm
          rw [ih later client' nodes' after, found]
          simp only [Input.statuses, List.flatMap_cons, List.singleton_append, natChanges_silent]
          rfl
      | _ =>
          have after : ∀ known, m.behaviour.autonat = some known → known = old :=
            fun known same => status known (flow.autonat.symm.trans same)
          rw [ih later client' nodes' after, found]
          rfl

/-- A circuit over a configured bootstrap node, which the node may use. -/
def Circuit (config : NetworkConfig) (relay : Multiaddr) : Prop :=
  config.relayClient = true ∧
    ∃ node ∈ config.bootstrapNodes.filterMap DiscoveryBehaviour.bootstrapNode,
      relay = node.2 ++ [.p2p node.1, .p2pCircuit]

/-- The settings are the configured ones, and the node listens on its configured address and on
circuits. -/
structure Circuits (config : NetworkConfig) (s : UrsaService K) : Prop where
  client : s.behaviour.relayClient = config.relayClient
  nodes : s.behaviour.discovery.bootstrapNodes =
    config.bootstrapNodes.filterMap DiscoveryBehaviour.bootstrapNode
  listening : ∃ relays, s.history.listening = config.swarmAddr :: relays ∧
    ∀ relay ∈ relays, Circuit config relay

theorem Circuits.step {config : NetworkConfig} (circuits : Circuits config s)
    (taken : s.step deps B input = some t) : Circuits config t := by
  have flow := flow_of_step taken
  refine ⟨flow.relayClient.trans circuits.client, flow.bootstrapNodes.trans circuits.nodes, ?_⟩
  obtain ⟨relays, before, all⟩ := circuits.listening
  rcases step_listening taken with ⟨_, node, _, -, -, enabled, member, listening⟩ | ⟨listening, -⟩
  · refine ⟨relays ++ [node.2 ++ [.p2p node.1, .p2pCircuit]], by rw [listening, before]; rfl, ?_⟩
    intro relay listed
    rcases List.mem_append.mp listed with earlier | now
    · exact all relay earlier
    · exact ⟨circuits.client ▸ enabled, node, circuits.nodes ▸ member, List.mem_singleton.mp now⟩
  · exact ⟨relays, listening.trans before, all⟩

/-- **Every NAT is relayed once.**  In every run of the loop, the node was told to listen on its
configured address and then on nothing but relay circuits of its bootstrap nodes, and on none
of these if it may not use relays.  If it may, and has a bootstrap node, then as long as the
loop runs there is one for each time autonat's status has gone from unknown to behind a NAT,
less the news that still waits. -/
theorem each_nat_is_relayed_once (deps : Deps K) (B : Blocks) (peerId : PeerId)
    (config : NetworkConfig) (store : Store) (indexProvider : Provider K)
    (blockstore : Cid → Option Ipld) (inputs : List Input) (s : UrsaService K)
    (run : exec (step deps B) (new peerId config store indexProvider blockstore) inputs = some s) :
    ∃ relays, s.history.listening = config.swarmAddr :: relays ∧
      (∀ relay ∈ relays, Circuit config relay) ∧
      (s.status = .running → config.relayClient = true →
        config.bootstrapNodes.filterMap DiscoveryBehaviour.bootstrapNode ≠ [] →
        relays.length + (s.behaviour.events.filterMap BehaviourEvent.asChange).count natFound =
          (natChanges .unknown (inputs.flatMap Input.statuses)).count natFound) := by
  have circuits : Circuits config s := exec_invariant
    (fun _ _ _ circuits _ taken => Circuits.step circuits taken)
    ⟨rfl, rfl, [], rfl, by simp⟩ (meets_of_forall (fun _ _ _ => trivial) _) run
  obtain ⟨relays, listening, all⟩ := circuits.listening
  refine ⟨relays, listening, all, fun running client nodes => ?_⟩
  have unknown : ∀ known, (new peerId config store indexProvider blockstore).behaviour.autonat =
      some known → known = .unknown := by
    intro known status
    simp only [new, Behaviour.new] at status
    split at status
    · exact (Option.some.inj status).symm
    · cases status
  have counted := natsFound_run run running client nodes unknown
  have start : (new peerId config store indexProvider blockstore).natsFound = 1 := rfl
  rw [start, natsFound, listening, List.length_cons] at counted
  omega

/-- A node that may use the relay of one bootstrap node. -/
def relayedService : UrsaService Unit :=
  new ⟨"12D3KooWSample"⟩
    { swarmAddr := [.ip4 "0.0.0.0", .tcp 6009]
      bootstrapNodes := [[.ip4 "203.0.113.1", .tcp 6009, .p2p ⟨"12D3KooWBoot"⟩]]
      autonat := true, relayClient := true }
    .empty sampleProvider fun _ => none

/-- The NAT is found, lost and found again; the news of the second time still waits. -/
def foundTwice : List Input :=
  [.autonat .behindNat, .deliver quietEnv, .autonat (.reachable sampleAddress),
    .autonatSilent .unknown, .autonat .behindNat]

theorem each_nat_is_relayed_once_sample :
    ∃ s, exec (step plainDeps plainBlocks) relayedService foundTwice = some s ∧
      s.history.listening = [[.ip4 "0.0.0.0", .tcp 6009],
        [.ip4 "203.0.113.1", .tcp 6009, .p2p ⟨"12D3KooWBoot"⟩, .p2pCircuit]] ∧
      (s.behaviour.events.filterMap BehaviourEvent.asChange).count natFound = 1 := by
  have evaluated : (exec (step plainDeps plainBlocks) relayedService foundTwice).map
      (fun s => (s.status, s.history.listening)) = some (.running, [[.ip4 "0.0.0.0", .tcp 6009],
        [.ip4 "203.0.113.1", .tcp 6009, .p2p ⟨"12D3KooWBoot"⟩, .p2pCircuit]]) := by
    decide +kernel
  obtain ⟨s, run, facts⟩ := Option.map_eq_some_iff.mp evaluated
  simp only [Prod.mk.injEq] at facts
  obtain ⟨running, listening⟩ := facts
  obtain ⟨relays, split, -, counted⟩ :=
    each_nat_is_relayed_once plainDeps plainBlocks _ _ _ _ _ foundTwice s run
  obtain rfl := (List.cons.inj (split.symm.trans listening)).2
  have twice : (natChanges .unknown (foundTwice.flatMap Input.statuses)).count natFound = 2 := by
    decide
  have waiting := counted running rfl (by decide)
  rw [twice, List.length_singleton] at waiting
  exact ⟨s, run, listening, by omega⟩

end UrsaService

end Ursa.Network
